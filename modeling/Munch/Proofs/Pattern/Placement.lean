import Munch.Proofs.Pattern.Block

/-!
# What laying a pattern out writes, and what it leaves

A pattern that is laid out somewhere writes its own automaton there, with all
moves counted from where it begins, and nothing else. The marks and transitions
that it finds do not matter to it, but free moves do: they stay, in front of the
new ones. So what is laid out is the same in two automata where their free moves
were, and a pattern laid out over another one may accept words that are not its
own.
-/

namespace Munch

namespace Pattern

open Nfa Block

/-- Over states without free moves, whatever their marks and transitions, a
pattern is laid out as its own automaton moved to where it begins. All other
states are left as they are. -/
theorem lay?_relocates (pattern : Pattern) (offset : Nat) (nfa : Nfa)
    (fits : offset + pattern.needed ≤ nfa.size)
    (bare : nfa.Bare ⟨offset, offset + pattern.needed⟩) :
    ∃ after, pattern.lay? offset nfa = some after ∧ after.size = nfa.size ∧
      (∀ index < pattern.needed, ∃ own,
        pattern.toNfa.states[index]? = some own ∧
        after.states[offset + index]? = some (own.shift offset)) ∧
      ∀ state, state ∉ (⟨offset, offset + pattern.needed⟩ : Span) →
        after.states[state]? = nfa.states[state]? := by
  refine ⟨_, lay?_eq_place pattern offset nfa fits, size_edit _, ?_, ?_⟩
  · intro index below
    rw [← length_block] at below fits bare
    have own := List.getElem?_eq_getElem below
    exact ⟨_, (getElem?_toNfa pattern index).trans own,
      getElem?_edit_place_of_bare fits bare own⟩
  · intro state outside
    rw [← length_block] at outside
    exact getElem?_edit_of_same (place_outside outside)

/-- A state with marks of all kinds that loops on every byte. -/
def scribbled (state : Nat) : NfaState :=
  ⟨⟨true, true, true⟩, .const state, []⟩

/-- A starred byte laid out over scribbles, between two states that are left as
they are, one of them with a free move. -/
theorem lay?_relocates_star :
    let nfa : Nfa := ⟨#[⟨.onlyStart, .const 6, [1]⟩, scribbled 1, scribbled 2,
      scribbled 3, scribbled 4, scribbled 5, ⟨.onlyReject, .const 6, []⟩]⟩
    1 + (star (byte 97)).needed ≤ nfa.size ∧
    nfa.Bare ⟨1, 1 + (star (byte 97)).needed⟩ ∧
    ∃ after, (star (byte 97)).lay? 1 nfa = some after ∧
      after.size = nfa.size ∧
      (∀ index < (star (byte 97)).needed, ∃ own,
        (star (byte 97)).toNfa.states[index]? = some own ∧
        after.states[1 + index]? = some (own.shift 1)) ∧
      ∀ state, state ∉ (⟨1, 1 + (star (byte 97)).needed⟩ : Span) →
        after.states[state]? = nfa.states[state]? := by
  intro nfa
  have fits : 1 + (star (byte 97)).needed ≤ nfa.size := by decide
  have bare : nfa.Bare ⟨1, 1 + (star (byte 97)).needed⟩ := by
    rintro state ⟨first, last⟩
    change 1 ≤ state at first
    change state < 6 at last
    obtain rfl | rfl | rfl | rfl | rfl :
      state = 1 ∨ state = 2 ∨ state = 3 ∨ state = 4 ∨ state = 5 := by omega
    all_goals rfl
  exact ⟨fits, bare, lay?_relocates (star (byte 97)) 1 nfa fits bare⟩

/-- Whatever stood there before, a pattern is written over it as its own
automaton. -/
theorem lay?_overwrites (pattern : Pattern) {offset : Nat} {nfa : Nfa}
    (fits : offset + pattern.needed ≤ nfa.size) :
    ∃ after, pattern.lay? offset nfa = some after ∧
      ∀ index < pattern.needed, ∃ own found,
        pattern.toNfa.states[index]? = some own ∧
        nfa.states[offset + index]? = some found ∧
        after.states[offset + index]? =
          some (found.overwrite (own.shift offset)) := by
  refine ⟨_, lay?_eq_place pattern offset nfa fits, ?_⟩
  intro index below
  rw [← length_block] at below fits
  have own := List.getElem?_eq_getElem below
  rcases getElem?_edit_place fits own with ⟨found, known, placed⟩
  exact ⟨_, found, (getElem?_toNfa pattern index).trans own, known, placed⟩

/-- What two automata hold where a pattern is laid out in both of them differs
afterwards in free moves only: those of before stay, and the same ones are added
behind them. So a state is the same in both if and only if its free moves were. -/
theorem lay?_eq_iff_epsilons (pattern : Pattern) (offset : Nat)
    (left right : Nfa) (same : left.size = right.size)
    (fits : offset + pattern.needed ≤ left.size) :
    ∃ leftAfter rightAfter,
      pattern.lay? offset left = some leftAfter ∧
      pattern.lay? offset right = some rightAfter ∧
      ∀ state ∈ (⟨offset, offset + pattern.needed⟩ : Span),
        leftAfter.flags state = rightAfter.flags state ∧
        (∀ byte, leftAfter.target? state byte =
          rightAfter.target? state byte) ∧
        (∃ added, leftAfter.epsilons state = left.epsilons state ++ added ∧
          rightAfter.epsilons state = right.epsilons state ++ added) ∧
        (leftAfter.states[state]? = rightAfter.states[state]? ↔
          left.epsilons state = right.epsilons state) := by
  rcases lay?_overwrites pattern fits
    with ⟨leftAfter, leftLaid, leftWritten⟩
  rw [same] at fits
  rcases lay?_overwrites pattern fits
    with ⟨rightAfter, rightLaid, rightWritten⟩
  refine ⟨leftAfter, rightAfter, leftLaid, rightLaid, ?_⟩
  rintro state ⟨notBefore, below⟩
  obtain ⟨index, rfl⟩ := Nat.exists_eq_add_of_le notBefore
  have inside : index < pattern.needed := Nat.lt_of_add_lt_add_left below
  rcases leftWritten index inside
    with ⟨own, leftFound, known, leftLookup, leftPlaced⟩
  rcases rightWritten index inside
    with ⟨other, rightFound, sameKnown, rightLookup, rightPlaced⟩
  rw [known, Option.some.injEq] at sameKnown
  subst sameKnown
  refine ⟨?_, ?_, ⟨(own.shift offset).epsilons, ?_, ?_⟩, ?_⟩
  · rw [flags_eq leftPlaced, flags_eq rightPlaced, NfaState.flags_overwrite,
      NfaState.flags_overwrite]
  · intro byte
    rw [target?_eq leftPlaced, target?_eq rightPlaced,
      NfaState.transitions_overwrite, NfaState.transitions_overwrite]
  · rw [epsilons_eq leftPlaced, epsilons_eq leftLookup,
      NfaState.epsilons_overwrite]
  · rw [epsilons_eq rightPlaced, epsilons_eq rightLookup,
      NfaState.epsilons_overwrite]
  · rw [leftPlaced, rightPlaced, epsilons_eq leftLookup,
      epsilons_eq rightLookup, Option.some.injEq, NfaState.overwrite_inj]

/-- Three bytes laid out over the automaton of a starred byte and among blank
states. -/
theorem lay?_eq_iff_epsilons_star :
    (star (byte 97)).toNfa.size = (Nfa.blank 5).size ∧
    0 + (literal [97, 97, 97]).needed ≤ (star (byte 97)).toNfa.size ∧
    ∃ leftAfter rightAfter,
      (literal [97, 97, 97]).lay? 0 (star (byte 97)).toNfa = some leftAfter ∧
      (literal [97, 97, 97]).lay? 0 (.blank 5) = some rightAfter ∧
      ∀ state ∈ (⟨0, 0 + (literal [97, 97, 97]).needed⟩ : Span),
        leftAfter.flags state = rightAfter.flags state ∧
        (∀ byte, leftAfter.target? state byte =
          rightAfter.target? state byte) ∧
        (∃ added, leftAfter.epsilons state =
            (star (byte 97)).toNfa.epsilons state ++ added ∧
          rightAfter.epsilons state = (Nfa.blank 5).epsilons state ++ added) ∧
        (leftAfter.states[state]? = rightAfter.states[state]? ↔
          (star (byte 97)).toNfa.epsilons state =
            (Nfa.blank 5).epsilons state) := by
  have same : (star (byte 97)).toNfa.size = (Nfa.blank 5).size := by
    rw [size_toNfa]
    rfl
  have fits : 0 + (literal [97, 97, 97]).needed ≤
      (star (byte 97)).toNfa.size := by
    rw [size_toNfa]
    decide
  exact ⟨same, fits,
    lay?_eq_iff_epsilons (literal [97, 97, 97]) 0 _ (.blank 5) same fits⟩

/-- What a pattern is laid out as can depend on what was there before. Over the
automaton of a starred byte, three bytes keep its free move, which skips two of
them, so that the third is accepted alone. Among blank states there is no free
move. -/
theorem lay?_over_star :
    (star (byte 97)).toNfa.size = (Nfa.blank 5).size ∧
    ∃ worn fresh,
      (literal [97, 97, 97]).lay? 0 (star (byte 97)).toNfa = some worn ∧
      (literal [97, 97, 97]).lay? 0 (.blank 5) = some fresh ∧
      worn.states[0]? ≠ fresh.states[0]? ∧ fresh.epsilons 0 = [] ∧
      worn.epsilons 0 = [2] ∧ worn.target? 2 97 = some 3 ∧
      worn.flags 3 = .onlyAccept ∧ ¬Matches (literal [97, 97, 97]) [97] := by
  have wornFits : 0 + (literal [97, 97, 97]).needed ≤
      (star (byte 97)).toNfa.size := by
    rw [size_toNfa]
    decide
  have freshFits : 0 + (literal [97, 97, 97]).needed ≤ (Nfa.blank 5).size := by
    decide
  refine ⟨size_toNfa _, _, _, lay?_eq_place _ 0 _ wornFits,
    lay?_eq_place _ 0 _ freshFits, ?_, by decide +kernel, by decide +kernel,
    by decide +kernel, by decide +kernel, ?_⟩
  · intro same
    have moves := congrArg (Option.map NfaState.epsilons) same
    revert moves
    decide +kernel
  · intro matched
    cases matched

end Pattern

end Munch
