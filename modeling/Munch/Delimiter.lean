import Munch.Byte.Table
import Munch.Text.Numeral
import Munch.Text.Quoted

/-!
# Naming a delimiter

A delimiter is named by an escape for a control character or the backslash, by
`0x` and a hexadecimal number below 256, or by the single ASCII character
itself.
-/

namespace Munch

/-- Why a text names no delimiter. -/
inductive DelimiterError where
  /-- What follows `0x` is no number of one byte. -/
  | badHex (text : String) (cause : NumeralError)
  /-- The text does not consist of a single byte. -/
  | notSingleByte (text : String)
  deriving DecidableEq, Repr

namespace DelimiterError

/-- The text shown for a fault. -/
def message : DelimiterError → String
  | .badHex text cause =>
      "bad hex byte " ++ String.ofList (Quoted.encode text.toList) ++ ": " ++ cause.message
  | .notSingleByte text =>
      "delimiter must be a single byte: " ++ String.ofList (Quoted.encode text.toList)

end DelimiterError

namespace Delimiter

/-- The byte that an escape names. -/
def escape? : List Char → Option UInt8
  | ['\\', 'n'] => some 10
  | ['\\', 't'] => some 9
  | ['\\', 'r'] => some 13
  | ['\\', '0'] => some 0
  | ['\\', '\\'] => some 92
  | _ => none

/-- The digits behind `0x`. -/
def hexDigits? : List Char → Option (List Char)
  | '0' :: 'x' :: digits => some digits
  | _ => none

/-- The byte that a text names. -/
def parse (text : String) : Except DelimiterError UInt8 :=
  match escape? text.toList with
  | some byte => .ok byte
  | none =>
      match hexDigits? text.toList with
      | some digits =>
          match Numeral.read 16 256 digits with
          | .ok value => .ok (UInt8.ofNat value)
          | .error cause => .error (.badHex text cause)
      | none =>
          match text.toList with
          | [char] =>
              if char.toNat < 128 then .ok (UInt8.ofNat char.toNat)
              else .error (.notSingleByte text)
          | _ => .error (.notSingleByte text)

end Delimiter

end Munch
