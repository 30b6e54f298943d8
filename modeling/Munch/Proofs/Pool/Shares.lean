import Mathlib.Data.List.Range
import Munch.Proofs.Pool.Size

/-!
# Shares are even

The shares of a buffer differ by at most one place, and the longer ones come
first. Where a share begins is known from its number alone: all shares before it
have the common size, and each of those that are one longer pushes it back by
one place.

Dividing a buffer takes no number beyond its length and the number of shares. So
where these fit in 64 bits, all sums do.
-/

namespace Munch

variable {base extra : Nat}

/-- Where the share with a number begins, when all are `base` long and the first
`extra` one longer. -/
def shareStart (base extra index : Nat) : Nat :=
  index * base + min index extra

/-- The share with a number. -/
def shareAt (base extra index : Nat) : Span :=
  ⟨shareStart base extra index, shareStart base extra (index + 1)⟩

@[simp] theorem shareStart_zero (base extra : Nat) :
    shareStart base extra 0 = 0 := by
  rw [shareStart, Nat.zero_mul, Nat.zero_min]

theorem shareStart_succ (base extra index : Nat) :
    shareStart base extra (index + 1) =
      shareStart base extra index + (base + if index < extra then 1 else 0) := by
  simp only [shareStart, Nat.succ_mul]
  split <;> omega

theorem shareStart_mono {index later : Nat} (order : index ≤ later) :
    shareStart base extra index ≤ shareStart base extra later := by
  have sizes := Nat.mul_le_mul_right base order
  simp only [shareStart]
  omega

/-- The last share ends at the end. -/
theorem shareStart_count {count : Nat} (positive : 0 < count) (length : Nat) :
    shareStart (length / count) (length % count) count = length := by
  have fewer := Nat.mod_lt length positive
  rw [shareStart, Nat.min_eq_right (Nat.le_of_lt fewer), Nat.div_add_mod]

theorem sharesFrom_shareStart (base extra count index : Nat) :
    sharesFrom base (extra - index) count (shareStart base extra index) =
      (List.range' index count).map (shareAt base extra) := by
  induction count generalizing index with
  | zero => rw [sharesFrom, List.range'_zero, List.map_nil]
  | succ count ih =>
      have rest := ih (index + 1)
      rw [shareStart_succ] at rest
      rw [List.range'_succ, List.map_cons, ← rest, shareAt, shareStart_succ]
      cases left : extra - index with
      | zero =>
          have done : ¬index < extra := by omega
          have none : extra - (index + 1) = 0 := by omega
          rw [sharesFrom, if_neg done, none, Nat.add_zero]
      | succ fewer =>
          have more : index < extra := by omega
          have next : extra - (index + 1) = fewer := by omega
          rw [sharesFrom, if_pos more, next]

theorem shares_eq_map (length count : Nat) :
    shares length count =
      (List.range count).map
        (shareAt (length / count) (length % count)) := by
  have all := sharesFrom_shareStart (length / count) (length % count) count 0
  rwa [shareStart_zero, Nat.sub_zero, ← List.range_eq_range'] at all

/-! ## Sums of 64 bits -/

/-- The sum of two numbers, unless it takes more than 64 bits. -/
def sum64? (left right : Nat) : Option Nat :=
  if left + right < UInt64.size then some (left + right) else none

theorem sum64?_eq_some {left right : Nat} (fits : left + right < UInt64.size) :
    sum64? left right = some (left + right) :=
  if_pos fits

/-- The next `count` shares, the first of which has the number `index` and begins
at `start`, when each sum is checked. Where a share stops, the next one begins. -/
def sharesFrom64? (base extra : Nat) :
    (count index start : Nat) → Option (List Span)
  | 0, _, _ => some []
  | count + 1, index, start => do
      let size ← sum64? base (if index < extra then 1 else 0)
      let stop ← sum64? start size
      let next ← sum64? index 1
      let later ← sharesFrom64? base extra count next stop
      some (⟨start, stop⟩ :: later)

/-- `shares`, when each sum is checked. -/
def shares64? (length count : Nat) : Option (List Span) :=
  sharesFrom64? (length / count) (length % count) count 0 0

theorem sharesFrom64?_shareStart {count index : Nat}
    (countFits : index + count < UInt64.size)
    (fits : shareStart base extra (index + count) < UInt64.size) :
    sharesFrom64? base extra count index (shareStart base extra index) =
      some ((List.range' index count).map (shareAt base extra)) := by
  induction count generalizing index with
  | zero => rfl
  | succ count ih =>
      have onward : index + 1 + count = index + (count + 1) := by omega
      have inside : shareStart base extra (index + 1) ≤
          shareStart base extra (index + (count + 1)) :=
        shareStart_mono (by omega)
      have stop := shareStart_succ base extra index
      rw [sharesFrom64?, sum64?_eq_some (by omega), Option.bind_eq_bind,
        Option.bind_some, sum64?_eq_some (by omega), Option.bind_some,
        sum64?_eq_some (by omega), Option.bind_some, ← stop,
        ih (onward ▸ countFits) (onward ▸ fits)]
      rfl

/-- A buffer is divided into as many shares as asked for. They lie side by side
from its beginning to its end. The first ones, as many as the division leaves
over, are one place longer than the quotient, the others are as long as it. Where
the length and the number of shares fit in 64 bits, so does every sum. -/
theorem shares_balanced {length count : Nat} (positive : 0 < count)
    (lengthFits : length < UInt64.size) (countFits : count < UInt64.size) :
    shares64? length count = some (shares length count) ∧
      (shares length count).length = count ∧
      Tiles 0 length (shares length count) ∧
      ∀ index < count, ∃ share, (shares length count)[index]? = some share ∧
        share.stop = share.first +
          (length / count + if index < length % count then 1 else 0) := by
  refine ⟨?_, ?_, shares_tiles positive length, ?_⟩
  · have checked :=
      @sharesFrom64?_shareStart (length / count) (length % count) count 0
    rw [Nat.zero_add, shareStart_count positive, shareStart_zero] at checked
    rw [shares64?, checked countFits lengthFits, shares_eq_map,
      List.range_eq_range']
  · rw [shares_eq_map, List.length_map, List.length_range]
  · intro index below
    refine ⟨shareAt (length / count) (length % count) index, ?_, ?_⟩
    · rw [shares_eq_map, List.getElem?_map, List.getElem?_range below,
        Option.map_some]
    · exact shareStart_succ _ _ _

/-- All that 64 bits can number, divided into four shares, the last of which is
the shorter one. -/
theorem shares_allNumbers :
    0 < 4 ∧ 0xffffffffffffffff < UInt64.size ∧ 4 < UInt64.size ∧
      shares64? 0xffffffffffffffff 4 =
        some [⟨0, 0x4000000000000000⟩,
          ⟨0x4000000000000000, 0x8000000000000000⟩,
          ⟨0x8000000000000000, 0xc000000000000000⟩,
          ⟨0xc000000000000000, 0xffffffffffffffff⟩] ∧
      Tiles 0 0xffffffffffffffff (shares 0xffffffffffffffff 4) := by
  have balanced := @shares_balanced 0xffffffffffffffff 4 (by decide) (by decide)
    (by decide)
  exact ⟨by decide, by decide, by decide, balanced.1, balanced.2.2.1⟩

end Munch
