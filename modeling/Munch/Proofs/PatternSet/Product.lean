import Mathlib.Algebra.BigOperators.Group.List.Basic
import Mathlib.Data.List.Sections
import Munch.PatternSet
import Munch.Proofs.Dfa.Scan
import Munch.Proofs.Dfa.Subset

/-!
# The product runs all components at once

The tuple that a word leads to holds, for each component, the state that the
word leads to. There are no more tuples than the product of the sizes, so they
are numbered completely.
-/

namespace Munch

namespace PatternSet

variable {components : List Regex}

/-! ## Tuples -/

/-- The tuple of the states that a word leads to. -/
def tupleAfter (components : List Regex) (word : Bytes) : List Nat :=
  components.map fun regex => regex.dfa.run Dfa.initial word

theorem tupleAfter_eq_iff {one other : Bytes} :
    tupleAfter components one = tupleAfter components other ↔
      ∀ regex ∈ components,
        regex.dfa.run Dfa.initial one = regex.dfa.run Dfa.initial other :=
  List.map_inj_left

theorem advance_map (states : Regex → Nat) (byte : UInt8) :
    advance components (components.map states) byte =
      components.map fun regex => regex.dfa.next (states regex) byte := by
  rw [advance, List.zipWith_map_right, List.zipWith_self]

theorem follow_eq_tupleAfter (components : List Regex) (word : Bytes) :
    Numbering.follow (advance components)
        (components.map fun _ => Dfa.initial) word =
      tupleAfter components word := by
  induction word using List.reverseRecOn with
  | nil => rfl
  | append_singleton word byte ih =>
      rw [Numbering.follow_concat, ih, tupleAfter, advance_map, tupleAfter]
      apply List.map_congr_left
      intro regex _
      rw [Dfa.run_append]
      rfl

/-- On all bytes of a stretch a component goes on alike from every state. -/
theorem next_first {regex : Regex} (listed : regex ∈ components) (state : Nat)
    {stretch : Stretch} (member : stretch ∈ stretches components) {byte : UInt8}
    (inside : byte ∈ stretch.bytes) :
    regex.dfa.next state stretch.first = regex.dfa.next state byte := by
  rw [Dfa.next, Dfa.next, Dfa.next?, Dfa.next?]
  cases found : regex.dfa.states[state]? with
  | none => rfl
  | some entry =>
      have table : entry.transitions ∈
          components.flatMap fun regex =>
            regex.dfa.states.toList.map (·.transitions) := by
        apply List.mem_flatMap.mpr
        refine ⟨regex, listed, List.mem_map.mpr ⟨entry, ?_, rfl⟩⟩
        exact Array.mem_toList_iff.mpr (Array.mem_of_getElem? found)
      rw [Option.map_some, Option.map_some,
        Stretch.get_first table member inside]

theorem advance_covers (components : List Regex) :
    Numbering.Covers (stretches components)
      (fun states => (stretches components).map fun stretch =>
        advance components states stretch.first)
      (advance components) where
  bytes := by
    intro byte
    have listed := mem_allBytes byte
    rw [← Stretch.flatMap_bytes_stretches
      (components.flatMap fun regex =>
        regex.dfa.states.toList.map (·.transitions))] at listed
    exact List.mem_flatMap.mp listed
  listed := fun _ => rfl
  alike := by
    intro states stretch member byte inside
    rw [advance, advance, ← List.map_uncurry_zip_eq_zipWith,
      ← List.map_uncurry_zip_eq_zipWith]
    apply List.map_congr_left
    intro pair listed
    exact next_first (List.of_mem_zip listed).1 pair.2 member inside

/-! ## The number of tuples -/

theorem length_sections {α β : Type} (choices : β → List α) (items : List β) :
    (items.map choices).sections.length =
      items.foldr (fun item count => (choices item).length * count) 1 := by
  induction items with
  | nil => rfl
  | cons item items ih =>
      rw [List.map_cons, List.sections, List.length_flatMap,
        List.foldr_cons, ← ih]
      simp [Nat.mul_comm]

/-- Whether every word leads to a state of the automaton. -/
def Total (regex : Regex) : Prop :=
  ∀ word, regex.dfa.run Dfa.initial word < regex.dfa.size

theorem advance_bounded (total : ∀ regex ∈ components, Total regex) :
    Numbering.Bounded (advance components) (components.map fun _ => Dfa.initial)
      (components.foldr (fun regex count => regex.dfa.size * count) 1) := by
  intro keys nodup reached
  have listed : ∀ key ∈ keys, key ∈ (components.map fun regex =>
      List.range regex.dfa.size).sections := by
    intro key member
    rcases reached key member with ⟨word, rfl⟩
    rw [List.mem_sections, follow_eq_tupleAfter, tupleAfter,
      List.forall₂_map_left_iff, List.forall₂_map_right_iff, List.forall₂_same]
    intro regex regexMem
    exact List.mem_range.mpr (total regex regexMem word)
  have count := (List.subperm_of_subset nodup listed).length_le
  simpa [length_sections] using count

theorem reachableTuples_complete (total : ∀ regex ∈ components, Total regex) :
    Numbering.Complete (advance components)
      (components.map fun _ => Dfa.initial)
      (reachableTuples components) :=
  Numbering.explore_complete (advance_covers components) (advance_bounded total)

/-! ## Verdicts side by side -/

/-- What the components say about a word, in order. -/
def statusesAfter (components : List Regex) (word : Bytes) : List Status :=
  components.map fun regex => regex.dfa.verdict id
    (regex.dfa.run Dfa.initial word)

theorem componentVerdicts_tupleAfter (components : List Regex) (word : Bytes) :
    componentVerdicts components (tupleAfter components word) =
      statusesAfter components word := by
  rw [componentVerdicts, tupleAfter, List.zipWith_map_right, List.zipWith_self]
  rfl

theorem mem_acceptingIndices {verdicts : List Status} {index : Nat} :
    index ∈ acceptingIndices verdicts ↔ verdicts[index]? = some .accept := by
  simp only [acceptingIndices, List.mem_map, List.mem_filter, beq_iff_eq]
  constructor
  · intro listed
    rcases listed with ⟨⟨status, place⟩, ⟨member, accepts⟩, rfl⟩
    rw [List.mk_mem_zipIdx_iff_getElem?] at member
    exact member.trans (congrArg some accepts)
  · intro found
    exact ⟨(.accept, index), ⟨List.mk_mem_zipIdx_iff_getElem?.mpr found, rfl⟩,
      rfl⟩

theorem acceptingIndices_ascending (verdicts : List Status) :
    (acceptingIndices verdicts).Pairwise (· < ·) := by
  rw [acceptingIndices, List.pairwise_map]
  apply List.Pairwise.filter
  rw [← List.pairwise_map (f := Prod.snd), List.zipIdx_map_snd]
  exact List.pairwise_lt_range'

/-- The indices of the accepting components in a tuple of their states. -/
def acceptingOf (components : List Regex) (states : List Nat) : List Nat :=
  acceptingIndices (componentVerdicts components states)

theorem layOutVerdicts_concat (components : List Regex)
    (tuples : List (List Nat)) (states : List Nat) :
    layOutVerdicts components (tuples ++ [states]) =
      ((layOutVerdicts components tuples).1.push
          ⟨jointStatus (componentVerdicts components states),
            (layOutVerdicts components tuples).2.size,
              (acceptingOf components states).length⟩,
        (layOutVerdicts components tuples).2 ++
          acceptingOf components states) := by
  rw [layOutVerdicts, List.foldl_append]
  rfl

/-- The table lists the accepting indices of one tuple after another, and each
verdict holds the stretch of its own tuple. -/
theorem layOutVerdicts_eq (components : List Regex) (tuples : List (List Nat)) :
    (layOutVerdicts components tuples).2.toList =
      tuples.flatMap (acceptingOf components) ∧
      (layOutVerdicts components tuples).1.size = tuples.length ∧
      ∀ number : Nat, (layOutVerdicts components tuples).1[number]? =
        tuples[number]?.map fun states =>
          ⟨jointStatus (componentVerdicts components states),
            ((tuples.take number).flatMap (acceptingOf components)).length,
            (acceptingOf components states).length⟩ := by
  induction tuples using List.reverseRecOn with
  | nil => exact ⟨rfl, rfl, fun _ => rfl⟩
  | append_singleton tuples states ih =>
      rcases ih with ⟨table, size, entries⟩
      have start : (layOutVerdicts components tuples).2.size =
          (tuples.flatMap (acceptingOf components)).length := by
        rw [← table, Array.length_toList]
      rw [layOutVerdicts_concat]
      refine ⟨?_, ?_, ?_⟩
      · simp [table]
      · simp [size]
      · intro number
        rw [Array.getElem?_push, size]
        by_cases last : number = tuples.length
        · subst last
          simp [start]
        · rw [if_neg last, entries]
          by_cases inside : number < tuples.length
          · rw [List.getElem?_append_left inside,
              List.take_append_of_le_length inside.le]
          · rw [List.getElem?_eq_none (by omega),
              List.getElem?_eq_none (by simp; omega)]
            rfl

theorem drop_take_flatMap {α β : Type} (part : α → List β) {whole : List α}
    {place : Nat} {found : α} (lookup : whole[place]? = some found) :
    ((whole.flatMap part).drop ((whole.take place).flatMap part).length).take
      (part found).length =
      part found := by
  have cut : whole = whole.take place ++ found :: whole.drop (place + 1) := by
    have below := (List.getElem?_eq_some_iff.mp lookup).1
    rw [← (List.getElem?_eq_some_iff.mp lookup).2, List.getElem_cons_drop,
      List.take_append_drop]
  conv_lhs =>
    enter [2, 2]
    rw [cut]
  rw [List.flatMap_append, List.flatMap_cons, List.drop_left, List.take_left]

end PatternSet

end Munch
