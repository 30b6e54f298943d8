import Munch.Tokenizer

/-!
# The built-in lexicon

Four kinds of lexemes, the types of which are numbered in this order: words,
numbers, blanks and punctuation. An underscore standing alone is both a word and
punctuation.
-/

namespace Munch

/-- A kind of lexeme. -/
inductive Lexeme where
  | word
  | number
  | blank
  | punctuation
  deriving DecidableEq, Repr

namespace Lexeme

/-- All kinds, in the order of their types. -/
def all : List Lexeme := [.word, .number, .blank, .punctuation]

/-- The name of a kind. -/
def name : Lexeme → String
  | .word => "WORD"
  | .number => "NUMBER"
  | .blank => "SPACE"
  | .punctuation => "PUNCT"

/-- Any decimal digit. -/
def digit : Pattern :=
  .byteRange 0x30 0x39

/-- What a word begins with: a letter or an underscore. -/
def wordHead : Pattern :=
  .alternate [.byteRange 0x61 0x7a, .byteRange 0x41 0x5a, .byte 0x5f]

/-- Whether a byte is an ASCII punctuation mark. -/
def isPunctuation (byte : UInt8) : Bool :=
  (0x21 ≤ byte && byte ≤ 0x2f) || (0x3a ≤ byte && byte ≤ 0x40) ||
    (0x5b ≤ byte && byte ≤ 0x60) || (0x7b ≤ byte && byte ≤ 0x7e)

/-- The pattern of a kind: words of letters, digits and underscores that do not
begin with a digit; digits with an optional fraction; spaces, tabs, carriage
returns and line feeds; a single punctuation mark. -/
def pattern : Lexeme → Pattern
  | .word => .concatenate [wordHead, .star (.alternate [wordHead, digit])]
  | .number =>
      .concatenate [digit.plus, .optional (.concatenate [.byte 0x2e, digit.plus])]
  | .blank => .plus (.charset [0x20, 0x09, 0x0d, 0x0a])
  | .punctuation => .charset (allBytes.filter isPunctuation)

/-- The lexicon as a set of patterns. -/
def patternSet : PatternSet :=
  (PatternSetBuilder.ofList (all.map pattern)).compile

/-- The tokenizer of the lexicon. -/
def tokenizer : Tokenizer :=
  .munch patternSet

/-- The names of the types of a token, with bars between them. -/
def kindName (token : Token) : List Char :=
  ['|'].intercalate (token.types.filterMap fun type => all[type]?.map (·.name.toList))

end Lexeme

end Munch
