import Munch.Text.Unseen

/-!
# Quoted texts

A text is shown for diagnosis between double quotes. A few characters have an
escape of their own; every other character that cannot be seen standing alone is
shown by its code point.
-/

namespace Munch

namespace Quoted

/-- A code point in hexadecimal, as an escape. -/
def codePoint (char : Char) : List Char :=
  "\\u\x7b".toList ++ Nat.toDigits 16 char.toNat ++ "\x7d".toList

/-- One character of a quoted text. -/
def encodeChar (char : Char) : List Char :=
  match char with
  | '\x00' => ['\\', '0']
  | '\t' => ['\\', 't']
  | '\r' => ['\\', 'r']
  | '\n' => ['\\', 'n']
  | '\\' => ['\\', '\\']
  | '"' => ['\\', '"']
  | _ => if isUnseen char then codePoint char else [char]

/-- A text between double quotes. -/
def encode (text : List Char) : List Char :=
  '"' :: text.flatMap encodeChar ++ ['"']

end Quoted

end Munch
