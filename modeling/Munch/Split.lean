import Munch.Token

/-!
# Splitting at a delimiter

A buffer is split at every occurrence of one byte. Each occurrence gives two
tokens, the text before it, which may be empty, and the delimiter itself. The
text behind the last occurrence is the remainder and no token.
-/

namespace Munch

/-- The types of the tokens that splitting makes. -/
inductive SplitType where
  | delimiter
  | text
  deriving DecidableEq, Repr

namespace SplitType

/-- All types, in the order of their numbers. -/
def all : List SplitType := [.delimiter, .text]

/-- The number of a type. -/
def id : SplitType → Nat
  | .delimiter => 0
  | .text => 1

/-- The type with a given number. -/
def ofId? (id : Nat) : Option SplitType :=
  all[id]?

/-- The name of a type. -/
def name : SplitType → String
  | .delimiter => "DELIM"
  | .text => "TEXT"

/-- The types of a token of this type: just this one. -/
def types (type : SplitType) : List Nat :=
  [type.id]

end SplitType

/-- Splits buffers at a delimiter. -/
structure Splitter where
  delimiter : UInt8
  deriving DecidableEq

namespace Splitter

/-- The two tokens of an occurrence of the delimiter and the text before it. -/
def pair (text : Bytes) (delimiter : UInt8) : List Token :=
  [⟨text, SplitType.text.types⟩, ⟨[delimiter], SplitType.delimiter.types⟩]

/-- Split the rest of a buffer, where `text`, in reverse, is what has been read
since the last delimiter. -/
def splitFrom (delimiter : UInt8) :
    (text : Bytes) → (tokens : Array Token) → Bytes → Array Token × Bytes
  | text, tokens, [] => (tokens, text.reverse)
  | text, tokens, byte :: rest =>
      if byte = delimiter then
        splitFrom delimiter [] (tokens ++ pair text.reverse byte) rest
      else
        splitFrom delimiter (byte :: text) tokens rest

/-- Split a buffer: the tokens are added behind those that are there, and the
remainder is returned. -/
def split (splitter : Splitter) (buffer : Bytes) (tokens : Array Token) :
    Array Token × Bytes :=
  splitFrom splitter.delimiter [] tokens buffer

end Splitter

end Munch
