import Munch.Byte.Table

/-!
# Bytes as visible text

A byte string is written with the visible ASCII characters only. Quotes, the
backslash, tab, line feed and carriage return get a backslash; every other byte
outside the visible characters and the space is written as two hexadecimal
digits. So the text has neither tabs nor line breaks, and `decode` reads every
byte string back.
-/

namespace Munch

namespace Escape

/-- The character with a given code below 256. -/
def charOfByte (byte : UInt8) : Char :=
  Char.ofNat byte.toNat

/-- The hexadecimal digit for a number below 16. -/
def hexDigit (value : Nat) : Char :=
  Nat.digitChar value

/-- Whether a byte is a visible ASCII character or the space. -/
def isVisible (byte : UInt8) : Bool :=
  0x20 ≤ byte && byte ≤ 0x7e

/-- One byte as text. -/
def encodeByte (byte : UInt8) : List Char :=
  if byte = 0x09 then ['\\', 't']
  else if byte = 0x0d then ['\\', 'r']
  else if byte = 0x0a then ['\\', 'n']
  else if byte = 0x27 then ['\\', '\'']
  else if byte = 0x22 then ['\\', '"']
  else if byte = 0x5c then ['\\', '\\']
  else if isVisible byte then [charOfByte byte]
  else ['\\', 'x', hexDigit (byte.toNat / 16), hexDigit (byte.toNat % 16)]

/-- A byte string as text. -/
def encode (bytes : Bytes) : List Char :=
  bytes.flatMap encodeByte

/-- The value of a hexadecimal digit as it is written here, in lower case. -/
def hexValue? (char : Char) : Option Nat :=
  if '0' ≤ char ∧ char ≤ '9' then some (char.toNat - '0'.toNat)
  else if 'a' ≤ char ∧ char ≤ 'f' then some (char.toNat - 'a'.toNat + 10)
  else none

/-- Read text back into bytes. Refused when a backslash begins no escape, or when
a character stands for itself that would not be written so. -/
def decode : List Char → Option Bytes
  | [] => some []
  | '\\' :: 'x' :: high :: low :: rest => do
      let high ← hexValue? high
      let low ← hexValue? low
      let bytes ← decode rest
      some (UInt8.ofNat (16 * high + low) :: bytes)
  | '\\' :: 't' :: rest => (decode rest).map (0x09 :: ·)
  | '\\' :: 'r' :: rest => (decode rest).map (0x0d :: ·)
  | '\\' :: 'n' :: rest => (decode rest).map (0x0a :: ·)
  | '\\' :: '\'' :: rest => (decode rest).map (0x27 :: ·)
  | '\\' :: '"' :: rest => (decode rest).map (0x22 :: ·)
  | '\\' :: '\\' :: rest => (decode rest).map (0x5c :: ·)
  | char :: rest =>
      if char ≠ '\\' ∧ isVisible char.toUInt8 ∧ char.toNat < 0x7f then
        (decode rest).map (char.toUInt8 :: ·)
      else
        none

end Escape

end Munch
