import Munch.Proofs.Regex

/-!
# Repetition and ranges, compiled

Repetition forms and byte ranges are not kinds of node of their own, so nothing
is known of them but what their nodes match. What their names promise is said by
`Repeats`, which counts words of a language that stand behind one another. Each
form is held against it, first by its language and then, once compiled, by what
the compiled pattern that it repeats matches.
-/

namespace Munch

/-- Whether a word consists of `count` words of a language, one behind the
other. -/
def Repeats (language : Bytes → Prop) (count : Nat) (word : Bytes) : Prop :=
  ∃ parts : List Bytes, parts.length = count ∧ word = parts.flatten ∧
    ∀ part ∈ parts, language part

namespace Repeats

variable {language : Bytes → Prop} {count : Nat} {word : Bytes}

@[simp] theorem zero_iff : Repeats language 0 word ↔ word = [] := by
  constructor
  · intro repeated
    rcases repeated with ⟨parts, none, rfl, _⟩
    rw [List.length_eq_zero_iff.mp none, List.flatten_nil]
  · rintro rfl
    exact ⟨[], rfl, rfl, by simp⟩

theorem succ_iff :
    Repeats language (count + 1) word ↔
      ∃ first rest, word = first ++ rest ∧ language first ∧
        Repeats language count rest := by
  constructor
  · intro repeated
    rcases repeated with ⟨parts, length, rfl, all⟩
    cases parts with
    | nil => cases length
    | cons first parts =>
        rw [List.forall_mem_cons] at all
        exact ⟨first, parts.flatten, rfl, all.1, parts,
          Nat.succ.inj length, rfl, all.2⟩
  · intro cut
    rcases cut with ⟨first, rest, rfl, head, parts, rfl, rfl, all⟩
    exact ⟨first :: parts, rfl, rfl, List.forall_mem_cons.mpr ⟨head, all⟩⟩

end Repeats

namespace Pattern

variable {inner : Pattern} {word : Bytes}

/-! ## Languages -/

theorem matches_star_iff_repeats :
    Matches (.star inner) word ↔
      ∃ times, Repeats (Matches inner) times word := by
  rw [matches_star]
  constructor
  · intro row
    rcases row with ⟨parts, cut, all⟩
    exact ⟨parts.length, parts, rfl, cut, all⟩
  · intro repeated
    rcases repeated with ⟨_, parts, _, cut, all⟩
    exact ⟨parts, cut, all⟩

/-- One word and then any number of them is at least one word. -/
theorem matches_plus :
    Matches (plus inner) word ↔
      ∃ times, 0 < times ∧ Repeats (Matches inner) times word := by
  rw [plus, matches_pair]
  constructor
  · intro both
    rcases both with ⟨first, rest, cut, head, tail⟩
    rcases matches_star_iff_repeats.mp tail with ⟨times, tail⟩
    exact ⟨times + 1, Nat.succ_pos times,
      Repeats.succ_iff.mpr ⟨first, rest, cut, head, tail⟩⟩
  · intro repeated
    rcases repeated with ⟨times, positive, all⟩
    cases times with
    | zero => cases positive
    | succ times =>
        rcases Repeats.succ_iff.mp all with ⟨first, rest, cut, head, tail⟩
        exact ⟨first, rest, cut, head,
          matches_star_iff_repeats.mpr ⟨times, tail⟩⟩

/-- As many copies behind one another as the count says match as many words. -/
theorem matches_exactly {count : Nat} :
    Matches (exactly inner count) word ↔
      Repeats (Matches inner) count word := by
  induction count generalizing word with
  | zero =>
      rw [Repeats.zero_iff]
      exact matches_concatenate_nil
  | succ count ih =>
      rw [exactly, List.replicate_succ, matches_concatenate_cons,
        Repeats.succ_iff]
      simp only [← ih, exactly]

theorem mem_bytesBetween {low high byte : UInt8} :
    byte ∈ bytesBetween low high ↔ low ≤ byte ∧ byte ≤ high := by
  simp [bytesBetween, mem_allBytes]

theorem matches_byteRange {low high : UInt8} :
    Matches (byteRange low high) word ↔
      ∃ byte, word = [byte] ∧ low ≤ byte ∧ byte ≤ high := by
  rw [byteRange, matches_charset]
  simp only [mem_bytesBetween, and_comm]

/-! ## Compiled -/

/-- Once compiled, repetition forms match the words that are made from words of
what they repeat, as many as the form says: at least one, none or one, exactly
`count`, any number. A range of bytes matches each byte from the low to the high
one and nothing else, so nothing at all if the low one is above the high one. -/
theorem isMatch_derived (inner : Pattern) (count : Nat) (low high : UInt8)
    (word : Bytes) :
    let belongs := fun part => inner.compile.isMatch part = true
    ((plus inner).compile.isMatch word = true ↔
        ∃ times, 0 < times ∧ Repeats belongs times word) ∧
      ((optional inner).compile.isMatch word = true ↔
        word = [] ∨ belongs word) ∧
      ((exactly inner count).compile.isMatch word = true ↔
        Repeats belongs count word) ∧
      ((exactly inner 0).compile.isMatch word = true ↔ word = []) ∧
      ((star inner).compile.isMatch word = true ↔
        ∃ times, Repeats belongs times word) ∧
      ((byteRange low high).compile.isMatch word = true ↔
        ∃ byte, word = [byte] ∧ low ≤ byte ∧ byte ≤ high) ∧
      (high < low → (byteRange low high).compile.isMatch word = false) := by
  intro belongs
  have language : belongs = Matches inner := by
    funext part
    exact propext isMatch_compile_iff
  have nothing : high < low → ¬Matches (byteRange low high) word := by
    intro swapped found
    rcases matches_byteRange.mp found with ⟨byte, _, above, below⟩
    exact UInt8.not_le.mpr swapped (UInt8.le_trans above below)
  simp only [← Bool.not_eq_true, isMatch_compile_iff, language]
  exact ⟨matches_plus, matches_optional, matches_exactly,
    matches_exactly.trans Repeats.zero_iff, matches_star_iff_repeats,
    matches_byteRange, nothing⟩

end Pattern

end Munch
