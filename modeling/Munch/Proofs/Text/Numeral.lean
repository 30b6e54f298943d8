import Mathlib.Data.List.Forall2
import Mathlib.Data.Nat.Digits.Defs
import Munch.Text.Numeral

/-!
# What numerals are read

A digit is a character that stands for its value in lower or in upper case. The
digits are added up from left to right, and since the sum only grows, it stays
below the limit at every digit if it does so at the last one. So a numeral is
refused for its size only when the number that it writes is too large.
-/

namespace Munch

namespace Numeral

/-! ## Digits -/

/-- Whether a character is the digit of a value, in lower or in upper case. -/
def IsDigit (char : Char) (value : Nat) : Prop :=
  value < 16 ∧
    (char = Nat.digitChar value ∨ char = (Nat.digitChar value).toUpper)

instance (char : Char) (value : Nat) : Decidable (IsDigit char value) :=
  inferInstanceAs (Decidable (_ ∧ _))

variable {base limit : Nat}

/-- What holds of the characters from one character to another by their distance
from the first. -/
theorem of_range {first last char : Char} (holds : Char → Nat → Prop)
    (checked : ∀ place ≤ last.toNat - first.toNat,
      holds (Char.ofNat (first.toNat + place)) place)
    (range : first ≤ char ∧ char ≤ last) :
    holds char (char.toNat - first.toNat) := by
  have begins : first.toNat ≤ char.toNat := range.1
  have ends : char.toNat ≤ last.toNat := range.2
  have held := checked (char.toNat - first.toNat) (Nat.sub_le_sub_right ends _)
  rwa [Nat.add_sub_cancel' begins, Char.ofNat_toNat] at held

/-- The base has no say in what a digit is worth. -/
theorem digit?_of_lt {other value : Nat} {char : Char}
    (read : digit? base char = some value) (below : value < other) :
    digit? other char = some value := by
  simp only [digit?, Option.filter_eq_some_iff] at read ⊢
  exact ⟨read.1, decide_eq_true below⟩

theorem digit?_eq_some_iff {char : Char} {value : Nat} :
    digit? base char = some value ↔ value < base ∧ IsDigit char value := by
  constructor
  · intro read
    simp only [digit?, Option.filter_eq_some_iff, decide_eq_true_iff] at read
    rcases read with ⟨read, below⟩
    refine ⟨below, ?_⟩
    split at read
    next range =>
      cases read
      exact of_range IsDigit (by decide) range
    next =>
      split at read
      next range =>
        cases read
        exact of_range (fun char place => IsDigit char (place + 10))
          (by decide) range
      next =>
        split at read
        next range =>
          cases read
          exact of_range (fun char place => IsDigit char (place + 10))
            (by decide) range
        next => cases read
  · intro digit
    have checked : ∀ value < 16,
        digit? 16 (Nat.digitChar value) = some value ∧
          digit? 16 (Nat.digitChar value).toUpper = some value := by decide
    rcases digit with ⟨below, small, written⟩
    cases written with
    | inl lower =>
        rw [lower]
        exact digit?_of_lt (checked value small).1 below
    | inr upper =>
        rw [upper]
        exact digit?_of_lt (checked value small).2 below

/-! ## Numerals -/

/-- Whether a number is written by digits, the first of which counts most. -/
def Writes (base : Nat) (digits : List Char) (number : Nat) : Prop :=
  ∃ values, List.Forall₂ (fun char value => value < base ∧ IsDigit char value)
      digits values ∧
    Nat.ofDigits base values.reverse = number

/-- A number that digits have written counts like the digit in front of the next
ones. -/
theorem ofDigits_reverse_cons_cons (start value : Nat) (values : List Nat) :
    Nat.ofDigits base (start :: value :: values).reverse =
      Nat.ofDigits base ((start * base + value) :: values).reverse := by
  simp only [Nat.ofDigits_reverse_cons, List.length_cons, Nat.pow_succ]
  ring

theorem le_ofDigits_reverse_cons (positive : 0 < base) (start : Nat)
    (values : List Nat) :
    start ≤ Nat.ofDigits base (start :: values).reverse := by
  rw [Nat.ofDigits_reverse_cons]
  have counts : 0 < base ^ values.length := Nat.pow_pos positive
  exact Nat.le_trans (Nat.le_mul_of_pos_left start counts) (Nat.le_add_left _ _)

/-- Digits are read behind others that have written `start`. -/
theorem readDigits_eq_ok_iff {start number : Nat} {chars : List Char}
    (small : start < limit) :
    readDigits base limit start chars = .ok number ↔
      ∃ values, List.Forall₂
          (fun char value => value < base ∧ IsDigit char value) chars values ∧
        Nat.ofDigits base (start :: values).reverse = number ∧
        number < limit := by
  induction chars generalizing start with
  | nil =>
      simp only [readDigits, List.forall₂_nil_left_iff, exists_eq_left,
        List.reverse_singleton, Nat.ofDigits_singleton, Except.ok.injEq]
      exact ⟨fun same => ⟨same, same ▸ small⟩, And.left⟩
  | cons char chars ih =>
      constructor
      · intro read
        rw [readDigits] at read
        split at read
        next => cases read
        next value digit =>
          split at read
          next still =>
            rcases (ih still).mp read with ⟨values, digits, sum, below⟩
            refine ⟨value :: values, .cons (digit?_eq_some_iff.mp digit) digits,
              ?_, below⟩
            rw [ofDigits_reverse_cons_cons, sum]
          next => cases read
      · intro written
        rcases written with ⟨_, digits, sum, below⟩
        cases digits with
        | @cons _ value _ values digit digits =>
            have positive : 0 < base := Nat.zero_lt_of_lt digit.1
            rw [ofDigits_reverse_cons_cons] at sum
            have still : start * base + value < limit := by
              refine Nat.lt_of_le_of_lt ?_ below
              rw [← sum]
              exact le_ofDigits_reverse_cons positive _ _
            rw [readDigits, digit?_eq_some_iff.mpr digit]
            simp only [still, if_true]
            exact (ih still).mpr ⟨values, digits, sum, below⟩

theorem readDigits_zero_eq_ok_iff (positive : 0 < limit) {number : Nat}
    {digits : List Char} :
    readDigits base limit 0 digits = .ok number ↔
      Writes base digits number ∧ number < limit := by
  simp only [readDigits_eq_ok_iff positive, Writes, Nat.ofDigits_reverse_cons,
    Nat.mul_zero, Nat.add_zero, ← and_assoc, exists_and_right]

/-- A plus sign is no digit. -/
theorem not_writes_plus (digits : List Char) (number : Nat) :
    ¬Writes base ('+' :: digits) number := by
  have checked : ∀ value < 16, ¬IsDigit '+' value := by decide
  intro written
  rcases written with ⟨_, digits, _⟩
  cases digits with
  | cons digit => exact checked _ digit.2.1 digit.2

/-- A numeral is one or more digits, and possibly a plus sign in front of them,
that write a number below the limit. -/
theorem read_eq_ok_iff (positive : 0 < limit) {number : Nat}
    {chars : List Char} :
    read base limit chars = .ok number ↔
      ∃ digits, (chars = digits ∨ chars = '+' :: digits) ∧ digits ≠ [] ∧
        Writes base digits number ∧ number < limit := by
  constructor
  · intro result
    unfold read at result
    split at result
    next => cases result
    next => cases result
    next chars more =>
      have some : chars ≠ [] := fun none => more (none ▸ rfl)
      exact ⟨chars, .inr rfl, some,
        (readDigits_zero_eq_ok_iff positive).mp result⟩
    next _ some _ _ =>
      exact ⟨chars, .inl rfl, some,
        (readDigits_zero_eq_ok_iff positive).mp result⟩
  · intro numeral
    rcases numeral with ⟨digits, spelled, some, written⟩
    have result := (readDigits_zero_eq_ok_iff positive).mpr written
    cases spelled with
    | inl unsigned =>
        rw [unsigned]
        unfold read
        split
        next => exact absurd rfl some
        next => exact absurd written.1 (not_writes_plus _ _)
        next => exact absurd written.1 (not_writes_plus _ _)
        next => exact result
    | inr signed =>
        rw [signed]
        cases digits with
        | nil => exact absurd rfl some
        | cons digit digits => exact result

theorem lt_of_read (positive : 0 < limit) {number : Nat} {chars : List Char}
    (result : read base limit chars = .ok number) : number < limit := by
  rcases (read_eq_ok_iff positive).mp result with ⟨_, _, _, _, below⟩
  exact below

end Numeral

end Munch
