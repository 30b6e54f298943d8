import Mathlib.Data.Set.Defs
import Munch.Proofs.PatternSet.States

/-!
# Order and repetition of patterns

Two lists of the same patterns, in any order and with any repetitions, have the
same product. The tuples of their components differ in length and in order, but
one and the same words lead to the same tuple: those that every pattern merges.
The numbers depend on nothing else (`Numbering.explore_twins`), and neither does
the joint verdict ask for order or repetition (`jointStatus_congr`). Only the
places of the patterns differ, and an accepting state lists a pattern at all of
them.
-/

namespace Munch

namespace PatternSet

/-! ## Places of patterns -/

section Places

variable {patterns : List Pattern} {word : Bytes}

/-- The patterns at listed places. -/
def patternsAt (patterns : List Pattern) (places : List Nat) : Set Pattern :=
  { pattern | ∃ index ∈ places, patterns[index]? = some pattern }

/-- Whether places are places of patterns and none is missing: where a pattern
is listed at one of its places, it is listed at all of them. -/
def ListsAllPlaces (patterns : List Pattern) (places : List Nat) : Prop :=
  ∀ index, index ∈ places ↔
    ∃ pattern ∈ patternsAt patterns places, patterns[index]? = some pattern

theorem mem_acceptingOf_tupleAfter {index : Nat} :
    index ∈ acceptingOf (patterns.map Pattern.compile)
        (tupleAfter (patterns.map Pattern.compile) word) ↔
      ∃ pattern, patterns[index]? = some pattern ∧
        Pattern.Matches pattern word := by
  rw [acceptingOf, componentVerdicts_tupleAfter, mem_acceptingIndices,
    getElem?_statusesAfter]

/-- The patterns that accept after a word are those that match it. -/
theorem patternsAt_acceptingOf :
    patternsAt patterns
        (acceptingOf (patterns.map Pattern.compile)
          (tupleAfter (patterns.map Pattern.compile) word)) =
      { pattern | pattern ∈ patterns ∧ Pattern.Matches pattern word } := by
  apply Set.ext
  intro pattern
  rw [patternsAt, Set.mem_ofPred_eq, Set.mem_ofPred_eq, List.mem_iff_getElem?]
  simp only [mem_acceptingOf_tupleAfter]
  constructor
  · intro listed
    rcases listed with ⟨index, ⟨other, found, belongs⟩, again⟩
    rw [found, Option.some.injEq] at again
    subst again
    exact ⟨⟨index, found⟩, belongs⟩
  · intro both
    rcases both with ⟨⟨index, found⟩, belongs⟩
    exact ⟨index, ⟨pattern, found, belongs⟩, found⟩

theorem listsAllPlaces_acceptingOf :
    ListsAllPlaces patterns
      (acceptingOf (patterns.map Pattern.compile)
        (tupleAfter (patterns.map Pattern.compile) word)) := by
  intro index
  rw [patternsAt_acceptingOf, mem_acceptingOf_tupleAfter]
  constructor
  · intro listed
    rcases listed with ⟨pattern, found, belongs⟩
    exact ⟨pattern, ⟨List.mem_of_getElem? found, belongs⟩, found⟩
  · intro listed
    rcases listed with ⟨pattern, ⟨_, belongs⟩, found⟩
    exact ⟨pattern, found, belongs⟩

end Places

/-! ## Lists of the same patterns -/

/-- The joint verdict depends only on which verdicts there are. -/
theorem jointStatus_congr {one other : List Status}
    (same : ∀ status, status ∈ one ↔ status ∈ other) :
    jointStatus one = jointStatus other := by
  have empty : one = [] ↔ other = [] := by
    rw [List.eq_nil_iff_forall_not_mem, List.eq_nil_iff_forall_not_mem]
    simp only [same]
  apply Status.eq_of_iff
  · rw [jointStatus_eq_accept_iff, jointStatus_eq_accept_iff, same]
  · rw [jointStatus_eq_reject_iff, jointStatus_eq_reject_iff, Ne, Ne, empty]
    simp only [same]

section Same

variable {left right : List Pattern}
  (same : ∀ pattern, pattern ∈ left ↔ pattern ∈ right)
include same

/-- The same words lead to one tuple, however often and in which order the
components stand in it. -/
theorem mergesAlike_of_same :
    Numbering.MergesAlike
      (advance (left.map Pattern.compile))
      ((left.map Pattern.compile).map fun _ => Dfa.initial)
      (advance (right.map Pattern.compile))
      ((right.map Pattern.compile).map fun _ => Dfa.initial) := by
  intro one other
  simp only [follow_eq_tupleAfter, tupleAfter_eq_iff, List.forall_mem_map, same]

theorem twins_of_same :
    Numbering.Twins
      (advance (left.map Pattern.compile))
      ((left.map Pattern.compile).map fun _ => Dfa.initial)
      (advance (right.map Pattern.compile))
      ((right.map Pattern.compile).map fun _ => Dfa.initial) []
      (reachableTuples (left.map Pattern.compile))
      (reachableTuples (right.map Pattern.compile)) :=
  Numbering.explore_twins
    (advance_covers _) (Stretch.flatMap_bytes_stretches _)
    (bounded_ofPatterns left)
    (advance_covers _) (Stretch.flatMap_bytes_stretches _)
    (bounded_ofPatterns right)
    (mergesAlike_of_same same)

theorem jointStatus_tupleAfter_of_same (word : Bytes) :
    jointStatus (componentVerdicts (left.map Pattern.compile)
        (tupleAfter (left.map Pattern.compile) word)) =
      jointStatus (componentVerdicts (right.map Pattern.compile)
        (tupleAfter (right.map Pattern.compile) word)) := by
  rw [componentVerdicts_tupleAfter, componentVerdicts_tupleAfter]
  apply jointStatus_congr
  intro status
  simp only [statusesAfter, List.mem_map, exists_exists_and_eq_and, same]

/-- Lists of the same patterns, in whatever order and however often each of them
occurs, have products with the same states, transitions and joint verdicts. In
each state the same patterns accept, and each of them is listed at all of its
places. -/
theorem ofPatterns_of_same :
    (ofPatterns left).size = (ofPatterns right).size ∧
    (∀ state byte, (ofPatterns left).dfa.next? state byte =
      (ofPatterns right).dfa.next? state byte) ∧
    ∀ state < (ofPatterns left).size,
      ((ofPatterns left).dfa.status? state).map (·.status) =
        ((ofPatterns right).dfa.status? state).map (·.status) ∧
      ∃ types others,
        (ofPatterns left).acceptingTypes? state = some types ∧
        (ofPatterns right).acceptingTypes? state = some others ∧
        patternsAt left types = patternsAt right others ∧
        ListsAllPlaces left types ∧ ListsAllPlaces right others := by
  have twins := twins_of_same same
  refine ⟨?_, ?_, ?_⟩
  · rw [size_ofPatterns, size_ofPatterns, twins.size]
  · intro state byte
    have leftNext :=
      Numbering.next?_toDfa (size_layOutVerdicts left) state byte
    have rightNext :=
      Numbering.next?_toDfa (size_layOutVerdicts right) state byte
    rw [← twins.rows, ← leftNext] at rightNext
    exact rightNext.symm
  · intro state inside
    rcases exists_tuple inside with ⟨tuple, named⟩
    rcases twins.soundLeft.reached state tuple named with ⟨word, rfl⟩
    have rightNamed := (twins.keys state word).mp named
    rw [follow_eq_tupleAfter] at named rightNamed
    refine ⟨?_, _, _, acceptingTypes?_ofPatterns named,
      acceptingTypes?_ofPatterns rightNamed, ?_,
      listsAllPlaces_acceptingOf, listsAllPlaces_acceptingOf⟩
    · rw [status?_ofPatterns named, status?_ofPatterns rightNamed,
        Option.map_some, Option.map_some,
        jointStatus_tupleAfter_of_same same word]
    · rw [patternsAt_acceptingOf, patternsAt_acceptingOf]
      simp only [same]

end Same

/-- Two letters, the first of them twice, come to the same as both once in the
opposite order. Where the letter that is there twice accepts, it does so at both
of its places. -/
theorem ofPatterns_letters :
    let left : List Pattern := [.byte 97, .byte 97, .byte 98]
    let right : List Pattern := [.byte 98, .byte 97]
    (∀ pattern, pattern ∈ left ↔ pattern ∈ right) ∧
      (ofPatterns left).size = (ofPatterns right).size ∧
      ∀ state < (ofPatterns left).size, ∃ types,
        (ofPatterns left).acceptingTypes? state = some types ∧
        (0 ∈ types ↔ 1 ∈ types) := by
  intro left right
  have same : ∀ pattern, pattern ∈ left ↔ pattern ∈ right := by
    intro pattern
    simp only [left, right, List.mem_cons, List.not_mem_nil, or_false]
    tauto
  have alike := ofPatterns_of_same same
  refine ⟨same, alike.1, ?_⟩
  intro state inside
  rcases alike.2.2 state inside with ⟨_, types, _, found, _, _, all, _⟩
  refine ⟨types, found, ?_⟩
  rw [all 0, all 1]
  rfl

end PatternSet

end Munch
