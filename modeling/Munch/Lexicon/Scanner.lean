import Munch.Lexicon

/-!
# The lexicon, scanned by hand

What the lexicon means can be said without patterns: the first byte of a lexeme
tells its kind, and the lexeme goes on for as long as bytes of that kind follow.
A number may go on behind a point if a digit follows it.
-/

namespace Munch

namespace Lexeme

namespace Scanner

/-- Whether a byte is a decimal digit. -/
def isDigit (byte : UInt8) : Bool :=
  0x30 ≤ byte && byte ≤ 0x39

/-- Whether a byte can begin a word: an ASCII letter or the underscore. -/
def isWordHead (byte : UInt8) : Bool :=
  (0x61 ≤ byte && byte ≤ 0x7a) || (0x41 ≤ byte && byte ≤ 0x5a) || byte == 0x5f

/-- Whether a byte can go on a word. -/
def isWordTail (byte : UInt8) : Bool :=
  isWordHead byte || isDigit byte

/-- Whether a byte is a space, a tab, a carriage return or a line feed. -/
def isBlank (byte : UInt8) : Bool :=
  byte == 0x20 || byte == 0x09 || byte == 0x0d || byte == 0x0a

/-- Whether a byte belongs to any lexeme. -/
def isKnown (byte : UInt8) : Bool :=
  isWordTail byte || isBlank byte || isPunctuation byte

/-- The number of bytes of the fraction that the text behind a run of digits
begins with: a point and all digits behind it, if there is one. -/
def fractionLength : Bytes → Nat
  | 0x2e :: rest =>
      let digits := (rest.takeWhile isDigit).length
      if digits = 0 then 0 else 1 + digits
  | _ => 0

/-- The number of bytes of the lexeme that a text begins with; 0 if it begins with
none. -/
def lexemeLength : Bytes → Nat
  | [] => 0
  | byte :: rest =>
      if isWordHead byte then 1 + (rest.takeWhile isWordTail).length
      else if isDigit byte then
        1 + (rest.takeWhile isDigit).length + fractionLength (rest.dropWhile isDigit)
      else if isBlank byte then 1 + (rest.takeWhile isBlank).length
      else if isPunctuation byte then 1
      else 0

/-- The types of a lexeme, by its text. The underscore alone has two. -/
def types (text : Bytes) : List Nat :=
  match text with
  | [] => []
  | byte :: _ =>
      if text = [0x5f] then [0, 3]
      else if isWordHead byte then [0]
      else if isDigit byte then [1]
      else if isBlank byte then [2]
      else [3]

/-- Take lexemes off the front of a text for as long as there are any. -/
def scan (text : Bytes) : List Token × Bytes :=
  let length := lexemeLength text
  if _progress : 0 < length ∧ text ≠ [] then
    let (tokens, rest) := scan (text.drop length)
    (⟨text.take length, types (text.take length)⟩ :: tokens, rest)
  else
    ([], text)
  termination_by text.length
  decreasing_by
    have := List.length_pos_iff.mpr _progress.2
    simp only [List.length_drop]
    omega

end Scanner

end Lexeme

end Munch
