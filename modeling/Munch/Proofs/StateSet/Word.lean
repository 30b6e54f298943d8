import Mathlib.Data.List.Sort
import Munch.StateSet

/-!
# Words of bits

A word is seen through `test` only. Setting a bit changes no other, and words
with the same bits are equal.

The positions of the bits are found by taking the lowest of them until none is
left. Where the zeros at the end of a word are over, there is the lowest bit:
below it, taking 1 away borrows from every position, above it from none. So all
the bits come out, in ascending order, and there are as many as are counted.
-/

namespace Munch

namespace Word

theorem toBitVec_bit {index : Nat} (below : index < wordBits) :
    (bit index).toBitVec = BitVec.twoPow 64 index := by
  have amount : (index.toUInt64.toBitVec % 64).toNat = index := by
    simp only [wordBits] at below
    simp
    omega
  rw [BitVec.twoPow_eq, bit, UInt64.toBitVec_shiftLeft,
    BitVec.shiftLeft_eq', amount]
  rfl

theorem test_eq_getLsbD (word : UInt64) {index : Nat}
    (below : index < wordBits) :
    test word index = word.toBitVec.getLsbD index := by
  have masked : (word &&& bit index).toBitVec =
      if word.toBitVec.getLsbD index then BitVec.twoPow 64 index else 0#64 := by
    rw [UInt64.toBitVec_and, toBitVec_bit below, BitVec.and_twoPow]
  have nonzero : BitVec.twoPow 64 index ≠ 0#64 := by
    intro zero
    have bits := congrArg (·.getLsbD index) zero
    simp only [wordBits] at below
    simp [below] at bits
  rw [test, Bool.eq_iff_iff, bne_iff_ne, ne_eq, ← UInt64.toBitVec_inj, masked]
  by_cases set : word.toBitVec.getLsbD index = true
  · simp [set, nonzero]
  · simp [set]

@[simp] theorem test_zero {index : Nat} (below : index < wordBits) :
    test 0 index = false := by
  rw [test_eq_getLsbD 0 below]
  simp

theorem test_or_bit (word : UInt64) {set index : Nat}
    (setBelow : set < wordBits) (below : index < wordBits) :
    test (word ||| bit set) index =
      (test word index || decide (set = index)) := by
  rw [test_eq_getLsbD _ below, test_eq_getLsbD _ below, UInt64.toBitVec_or,
    BitVec.getLsbD_or, toBitVec_bit setBelow, BitVec.getLsbD_twoPow]
  simp only [wordBits] at setBelow
  simp [setBelow]

/-- Words are determined by their bits. -/
theorem ext {left right : UInt64}
    (agree : ∀ index < wordBits, test left index = test right index) :
    left = right := by
  apply UInt64.toBitVec_inj.mp
  apply BitVec.eq_of_getLsbD_eq
  intro index below
  have bits := agree index below
  rwa [test_eq_getLsbD _ below, test_eq_getLsbD _ below] at bits

/-! ### The lowest bit -/

/-- Masking a number with its predecessor clears the lowest bit that is set and
no other. -/
theorem testBit_and_pred {number lowest : Nat}
    (lowestSet : number.testBit lowest = true)
    (noneBelow : ∀ index < lowest, number.testBit index = false)
    (index : Nat) :
    (number &&& (number - 1)).testBit index =
      (number.testBit index && decide (index ≠ lowest)) := by
  have power : 2 ^ lowest < 2 ^ (lowest + 1) :=
    Nat.pow_lt_pow_right (by decide) (Nat.lt_succ_self lowest)
  have positive : 0 < 2 ^ lowest := Nat.two_pow_pos lowest
  have whole : number =
      2 ^ (lowest + 1) * (number >>> (lowest + 1)) + 2 ^ lowest := by
    apply Nat.eq_of_testBit_eq
    intro place
    rw [Nat.testBit_two_pow_mul_add _ power, Nat.testBit_two_pow]
    split
    next below =>
        rcases Nat.lt_or_eq_of_le (Nat.le_of_lt_succ below) with less | rfl
        · rw [noneBelow place less, decide_eq_false (Nat.ne_of_gt less)]
        · rw [lowestSet, decide_eq_true rfl]
    next above =>
        rw [Nat.testBit_shiftRight,
          Nat.add_sub_cancel' (Nat.not_lt.mp above)]
  -- Taking 1 away borrows from all places below the lowest bit, and from none
  -- above it.
  have pred : number - 1 =
      2 ^ (lowest + 1) * (number >>> (lowest + 1)) + (2 ^ lowest - 1) := by
    omega
  rw [Nat.testBit_and, pred, Nat.testBit_two_pow_mul_add _ (by omega),
    Nat.testBit_two_pow_sub_one]
  split
  next below =>
      rcases Nat.lt_or_eq_of_le (Nat.le_of_lt_succ below) with less | rfl
      · rw [noneBelow index less, Bool.false_and, Bool.false_and]
      · simp
  next above =>
      have other : index ≠ lowest := by omega
      rw [Nat.testBit_shiftRight, Nat.add_sub_cancel' (Nat.not_lt.mp above),
        Bool.and_self, decide_eq_true other, Bool.and_true]

section Lowest

variable {word : UInt64}

theorem test_eq_testBit (word : UInt64) {index : Nat}
    (below : index < wordBits) :
    test word index = word.toNat.testBit index :=
  test_eq_getLsbD word below

theorem testBit_ctz (nonzero : word ≠ 0) :
    word.toNat.testBit word.toBitVec.ctz.toNat = true := by
  apply BitVec.getLsbD_true_ctz_of_ne_zero
  intro zero
  exact nonzero (UInt64.toBitVec_inj.mp zero)

theorem toNat_dropLowest (nonzero : word ≠ 0) :
    (dropLowest word).toNat = word.toNat &&& (word.toNat - 1) := by
  have positive : 1 ≤ word := by
    rw [UInt64.le_iff_toNat_le]
    exact Nat.one_le_iff_ne_zero.mpr fun zero =>
      nonzero (UInt64.toNat_inj.mp zero)
  rw [dropLowest, UInt64.toNat_and, UInt64.toNat_sub_of_le _ _ positive]
  rfl

theorem testBit_dropLowest (nonzero : word ≠ 0) (index : Nat) :
    (dropLowest word).toNat.testBit index =
      (word.toNat.testBit index &&
        decide (index ≠ word.toBitVec.ctz.toNat)) := by
  rw [toNat_dropLowest nonzero]
  exact testBit_and_pred (testBit_ctz nonzero)
    (fun index less => BitVec.getLsbD_false_of_lt_ctz less) index

/-- The lowest bit stands where the zeros at the end of the word are over. -/
theorem lowest_eq_ctz (nonzero : word ≠ 0) :
    lowest word = word.toBitVec.ctz.toNat := by
  have alone : (word ^^^ dropLowest word).toNat =
      2 ^ word.toBitVec.ctz.toNat := by
    apply Nat.eq_of_testBit_eq
    intro index
    rw [UInt64.toNat_xor, Nat.testBit_xor, testBit_dropLowest nonzero,
      Nat.testBit_two_pow]
    by_cases lowest : index = word.toBitVec.ctz.toNat
    · subst lowest
      simp [testBit_ctz nonzero]
    · simp [lowest, Ne.symm lowest]
  change (word ^^^ dropLowest word).toNat.log2 = _
  rw [alone, Nat.log2_two_pow]

theorem lowest_lt (nonzero : word ≠ 0) : lowest word < wordBits := by
  rw [lowest_eq_ctz nonzero]
  exact BitVec.lt_of_getLsbD (testBit_ctz nonzero)

theorem test_lowest (nonzero : word ≠ 0) : test word (lowest word) = true := by
  rw [test_eq_testBit word (lowest_lt nonzero), lowest_eq_ctz nonzero,
    testBit_ctz nonzero]

theorem lowest_le {index : Nat} (nonzero : word ≠ 0) (below : index < wordBits)
    (set : test word index = true) : lowest word ≤ index := by
  rw [test_eq_getLsbD word below] at set
  rw [lowest_eq_ctz nonzero]
  apply Nat.not_lt.mp
  intro less
  rw [BitVec.getLsbD_false_of_lt_ctz less] at set
  cases set

theorem test_dropLowest (nonzero : word ≠ 0) {index : Nat}
    (below : index < wordBits) :
    test (dropLowest word) index =
      (test word index && decide (index ≠ lowest word)) := by
  rw [test_eq_testBit _ below, test_eq_testBit _ below,
    testBit_dropLowest nonzero, lowest_eq_ctz nonzero]

/-- The bits that are set are the lowest one and those that are left without
it. -/
theorem filter_test_eq_cons (nonzero : word ≠ 0) :
    (List.range wordBits).filter (test word) =
      lowest word :: (List.range wordBits).filter (test (dropLowest word)) := by
  have mem_rest : ∀ index,
      index ∈ (List.range wordBits).filter (test (dropLowest word)) ↔
        (index < wordBits ∧ test word index = true) ∧
          index ≠ lowest word := by
    intro index
    rw [List.mem_filter, List.mem_range, and_assoc]
    apply and_congr_right
    intro below
    rw [test_dropLowest nonzero below, Bool.and_eq_true, decide_eq_true_iff]
  apply List.Pairwise.eq_of_mem_iff (List.pairwise_lt_range.filter _)
  · apply List.pairwise_cons.mpr
    refine ⟨fun index member => ?_, List.pairwise_lt_range.filter _⟩
    rcases (mem_rest index).mp member with ⟨⟨below, set⟩, other⟩
    exact Nat.lt_of_le_of_ne (lowest_le nonzero below set) other.symm
  · intro index
    rw [List.mem_cons, mem_rest, List.mem_filter, List.mem_range]
    constructor
    · intro listed
      by_cases first : index = lowest word
      · exact .inl first
      · exact .inr ⟨listed, first⟩
    · rintro (rfl | ⟨listed, -⟩)
      · exact ⟨lowest_lt nonzero, test_lowest nonzero⟩
      · exact listed

end Lowest

/-! ### All bits -/

/-- With a round for every bit that is set, all of them are found. -/
theorem bitsUpTo_eq_filter : (most : Nat) → (word : UInt64) →
    ((List.range wordBits).filter (test word)).length ≤ most →
    bitsUpTo most word = (List.range wordBits).filter (test word)
  | 0, word, enough => by
      rw [bitsUpTo, List.eq_nil_of_length_eq_zero (Nat.le_zero.mp enough)]
  | most + 1, word, enough => by
      rw [bitsUpTo]
      split
      next zero =>
          subst zero
          symm
          rw [List.filter_eq_nil_iff]
          intro index member
          simp [test_zero (List.mem_range.mp member)]
      next nonzero =>
          rw [filter_test_eq_cons nonzero, List.length_cons] at enough
          rw [filter_test_eq_cons nonzero, bitsUpTo_eq_filter most _
            (Nat.le_of_succ_le_succ enough)]

theorem bits_eq_filter (word : UInt64) :
    bits word = (List.range wordBits).filter (test word) := by
  apply bitsUpTo_eq_filter
  exact (List.length_filter_le _ _).trans_eq List.length_range

/-- There are as many positions as bits that are set. -/
theorem length_bits (word : UInt64) : (bits word).length = ones word := by
  have counted : ∀ width ≤ wordBits, word.toBitVec.cpopNatRec width 0 =
      ((List.range width).filter (test word)).length := by
    intro width
    induction width with
    | zero =>
        intro _
        rfl
    | succ width ih =>
        intro inside
        rw [BitVec.cpopNatRec_succ, BitVec.cpopNatRec_eq,
          ih (Nat.le_of_succ_le inside), List.range_succ, List.filter_append,
          List.length_append, List.filter_singleton,
          test_eq_getLsbD word inside]
        cases word.toBitVec.getLsbD width <;> rfl
  rw [bits_eq_filter, ones, BitVec.toNat_cpop]
  exact (counted wordBits (Nat.le_refl _)).symm

@[simp] theorem mem_bits {word : UInt64} {index : Nat} :
    index ∈ bits word ↔ index < wordBits ∧ test word index = true := by
  rw [bits_eq_filter, List.mem_filter, List.mem_range]

theorem bits_ascending (word : UInt64) : (bits word).Pairwise (· < ·) := by
  rw [bits_eq_filter]
  exact List.pairwise_lt_range.filter _

end Word

end Munch
