/-!
# Reading numbers of limited size

A numeral is an optional plus sign and one or more digits. Leading zeros do not
count. Reading goes from left to right and stops at the first fault: a character
that is no digit, or a digit with which the number reaches the limit.
-/

namespace Munch

/-- Why a text is no numeral. -/
inductive NumeralError where
  | empty
  | invalidDigit
  | tooLarge
  | zero
  deriving DecidableEq, Repr

namespace NumeralError

/-- The text shown for a fault. -/
def message : NumeralError → String
  | .empty => "cannot parse integer from empty string"
  | .invalidDigit => "invalid digit found in string"
  | .tooLarge => "number too large to fit in target type"
  | .zero => "number would be zero for non-zero type"

end NumeralError

namespace Numeral

/-- The value of a digit in a base up to 16; letters count in either case. -/
def digit? (base : Nat) (char : Char) : Option Nat :=
  let value? :=
    if '0' ≤ char ∧ char ≤ '9' then some (char.toNat - '0'.toNat)
    else if 'a' ≤ char ∧ char ≤ 'f' then some (char.toNat - 'a'.toNat + 10)
    else if 'A' ≤ char ∧ char ≤ 'F' then some (char.toNat - 'A'.toNat + 10)
    else none
  value?.filter (· < base)

/-- Read digits behind those that make up `value`. -/
def readDigits (base limit : Nat) : (value : Nat) → List Char → Except NumeralError Nat
  | value, [] => .ok value
  | value, char :: chars =>
      match digit? base char with
      | none => .error .invalidDigit
      | some digit =>
          if value * base + digit < limit then
            readDigits base limit (value * base + digit) chars
          else
            .error .tooLarge

/-- Read a number below `limit`. -/
def read (base limit : Nat) : List Char → Except NumeralError Nat
  | [] => .error .empty
  | ['+'] => .error .invalidDigit
  | '+' :: chars => readDigits base limit 0 chars
  | chars => readDigits base limit 0 chars

/-- The limit of 64-bit numbers. -/
def limit64 : Nat := Nat.pow 2 64

/-- Read a decimal number of 64 bits. -/
def readDecimal (chars : List Char) : Except NumeralError Nat :=
  read 10 limit64 chars

/-- Read a decimal number of 64 bits that is not zero. -/
def readPositive (chars : List Char) : Except NumeralError Nat := do
  let value ← readDecimal chars
  if value = 0 then .error .zero else .ok value

end Numeral

end Munch
