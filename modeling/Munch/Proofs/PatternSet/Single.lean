import Munch.Proofs.PatternSet.States

/-!
# A set of one pattern

The product of a single pattern is the automaton of that pattern, down to the
numbers of its states. Both automata come from numbering what words lead to: the
one numbers sets of states, the other tuples whose only entry is the number of
such a set. Words lead to one tuple exactly if they lead to one set, so the two
explorations are twins (`Numbering.explore_twins`), although the second begins
when the first has come to its end.
-/

namespace Munch

namespace PatternSet

/-! ## One verdict -/

@[simp] theorem jointStatus_singleton (status : Status) :
    jointStatus [status] = status := by
  cases status <;> rfl

@[simp] theorem acceptingIndices_singleton (status : Status) :
    acceptingIndices [status] = if status = .accept then [0] else [] := by
  cases status <;> rfl

/-! ## One component -/

section Single

variable (pattern : Pattern)

/-- The only component of a tuple is where its own set of states is. -/
theorem mergesAlike_singleton :
    Numbering.MergesAlike
      pattern.toNfa.read pattern.toNfa.start
      (advance [pattern.compile]) [Dfa.initial] := by
  intro one other
  change _ ↔ Numbering.follow (advance [pattern.compile])
      ([pattern.compile].map fun _ => Dfa.initial) one =
    Numbering.follow (advance [pattern.compile])
      ([pattern.compile].map fun _ => Dfa.initial) other
  simp only [follow_eq_tupleAfter, tupleAfter_eq_iff, List.forall_mem_singleton]
  exact (Numbering.run_eq_run_iff
    (Nfa.reachableSets_complete pattern.toNfa)
    (Nfa.sizes_reachableSets pattern.toNfa)).symm

theorem twins_singleton :
    Numbering.Twins
      pattern.toNfa.read pattern.toNfa.start
      (advance [pattern.compile]) [Dfa.initial] []
      pattern.toNfa.reachableSets (reachableTuples [pattern.compile]) :=
  Numbering.explore_twins
    (Nfa.readEach_covers _) (Stretch.flatMap_bytes_stretches _)
    (Nfa.read_bounded _)
    (advance_covers _) (Stretch.flatMap_bytes_stretches _)
    (bounded_ofPatterns [pattern])
    (mergesAlike_singleton pattern)

/-- The product says of a word what the only component says of it. -/
theorem statusesAfter_singleton (word : Bytes) :
    statusesAfter [pattern.compile] word =
      [pattern.toNfa.status
        (pattern.toNfa.readWord pattern.toNfa.start word)] := by
  simp only [statusesAfter, List.map_cons, List.map_nil, Pattern.compile,
    Nfa.verdict_run_toDfa]

theorem verdict_singleton {state : Nat} {word : Bytes}
    (named : (reachableTuples [pattern.compile]).keys[state]? =
      some (tupleAfter [pattern.compile] word)) :
    ((ofPatterns [pattern]).dfa.status? state).map (·.status) =
        some (pattern.toNfa.status
          (pattern.toNfa.readWord pattern.toNfa.start word)) ∧
      (ofPatterns [pattern]).acceptingTypes? state =
        some (if pattern.toNfa.status
            (pattern.toNfa.readWord pattern.toNfa.start word) = .accept
          then [0] else []) := by
  have entry : (ofPatterns [pattern]).dfa.status? state = _ :=
    status?_ofPatterns named
  have types : (ofPatterns [pattern]).acceptingTypes? state = _ :=
    acceptingTypes?_ofPatterns named
  have statuses : componentVerdicts ([pattern].map Pattern.compile)
      (tupleAfter [pattern.compile] word) = _ :=
    (componentVerdicts_tupleAfter _ word).trans
      (statusesAfter_singleton pattern word)
  rw [acceptingOf, statuses, acceptingIndices_singleton] at types
  rw [entry, statuses, jointStatus_singleton]
  exact ⟨rfl, types⟩

end Single

/-- The product of a single pattern is the automaton of that pattern: it has the
same states under the same numbers, with the same transitions and verdicts. A
state names the pattern if it accepts and nothing otherwise. -/
theorem ofPatterns_singleton (pattern : Pattern) :
    let set := ofPatterns [pattern]
    let dfa := pattern.compile.dfa
    set.size = dfa.size ∧
    (∀ state byte, set.dfa.next? state byte = dfa.next? state byte) ∧
    ∀ state < set.size, ∃ status,
      dfa.status? state = some status ∧
      (set.dfa.status? state).map (·.status) = some status ∧
      set.acceptingTypes? state =
        some (if status = .accept then [0] else []) := by
  intro set dfa
  have twins := twins_singleton pattern
  have sizes := Nfa.sizes_reachableSets pattern.toNfa
  refine ⟨?_, ?_, ?_⟩
  · have states := Numbering.size_toDfa
      (Nfa.reachableSets_complete pattern.toNfa) sizes
    exact (size_ofPatterns [pattern]).trans (twins.size.symm.trans states.symm)
  · intro state byte
    have setNext := Numbering.next?_toDfa (size_layOutVerdicts [pattern])
      state byte
    have next := Numbering.next?_toDfa sizes state byte
    rw [twins.rows] at next
    exact setNext.trans next.symm
  · intro state inside
    rcases exists_tuple inside with ⟨tuple, named⟩
    rcases twins.soundRight.reached state tuple named with ⟨word, rfl⟩
    have setNamed := (twins.keys state word).mpr named
    refine ⟨_, Nfa.status?_toDfa setNamed, verdict_singleton pattern ?_⟩
    rw [← follow_eq_tupleAfter]
    exact named

end PatternSet

end Munch
