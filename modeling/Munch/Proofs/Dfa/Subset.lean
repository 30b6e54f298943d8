import Mathlib.Data.Finset.Powerset
import Munch.Dfa.Scan
import Munch.Dfa.Subset
import Munch.Proofs.Dfa.Numbering
import Munch.Proofs.Nfa.Walk

/-!
# The deterministic automaton follows all paths

The sets that walks can reach are numbered completely, because there are no more
of them than subsets of the states. So the state after a word stands for the set
of all states to which paths lead that spell the word, and its verdict is the
verdict on that set.
-/

namespace Munch

namespace Nfa

variable {nfa : Nfa}

theorem start_fits (nfa : Nfa) : nfa.Fits nfa.start :=
  activate_fits _

/-- The sets after the first byte of each stretch tell the set after every
byte. -/
theorem readEach_covers (nfa : Nfa) :
    Numbering.Covers nfa.stretches (nfa.readEach nfa.stretches) nfa.read where
  bytes := by
    intro byte
    have listed := mem_allBytes byte
    rw [← Stretch.flatMap_bytes_stretches
      (nfa.states.toList.map (·.transitions))] at listed
    exact List.mem_flatMap.mp listed
  listed := readEach_eq_map nfa nfa.stretches
  alike := fun active _ member _ inside => read_first active member inside

/-- The members of a set of a walk as a finite set. -/
def memberSet (active : StateSet) : Finset Nat :=
  active.toList.toFinset

theorem mem_memberSet {active : StateSet} {state : Nat} :
    state ∈ memberSet active ↔ active.contains state = true := by
  rw [memberSet, List.mem_toFinset, StateSet.mem_toList]

/-- A walk can only go through as many sets as the states have subsets. -/
theorem read_bounded (nfa : Nfa) :
    Numbering.Bounded nfa.read nfa.start (2 ^ nfa.size) := by
  intro keys nodup reached
  have fits : ∀ key ∈ keys, nfa.Fits key := by
    intro key member
    rcases reached key member with ⟨word, rfl⟩
    exact readWord_fits (start_fits nfa) word
  have injective : (keys.map memberSet).Nodup := by
    apply List.Nodup.map_on ?_ nodup
    intro left leftMem right rightMem same
    apply (fits left leftMem).ext (fits right rightMem)
    intro state
    rw [← mem_memberSet, same, mem_memberSet]
  have subsets : (keys.map memberSet).toFinset ⊆
      (Finset.range nfa.size).powerset := by
    intro set member
    rw [List.mem_toFinset, List.mem_map] at member
    rcases member with ⟨key, keyMem, rfl⟩
    rw [Finset.mem_powerset]
    intro state stateMem
    exact Finset.mem_range.mpr ((fits key keyMem).below state
      (mem_memberSet.mp stateMem))
  have count := Finset.card_le_card subsets
  rwa [List.toFinset_card_of_nodup injective, List.length_map,
    Finset.card_powerset, Finset.card_range] at count

theorem reachableSets_complete (nfa : Nfa) :
    Numbering.Complete nfa.read nfa.start nfa.reachableSets :=
  Numbering.explore_complete (readEach_covers nfa) (read_bounded nfa)

theorem sizes_reachableSets (nfa : Nfa) :
    (nfa.reachableSets.keys.map nfa.status).size =
      nfa.reachableSets.rows.size := by
  rw [Array.size_map, (reachableSets_complete nfa).rows_size]

/-- A word leads the deterministic automaton to the number of the set that a
walk keeps after it. -/
theorem getElem?_run_toDfa (nfa : Nfa) (word : Bytes) :
    nfa.reachableSets.keys[nfa.toDfa.run Dfa.initial word]? =
      some (nfa.readWord nfa.start word) :=
  Numbering.getElem?_run (reachableSets_complete nfa) (sizes_reachableSets nfa)
    word Dfa.initial nfa.start (reachableSets_complete nfa).initial

/-- The state of a set carries the verdict on it. -/
theorem status?_toDfa {state : Nat} {active : StateSet}
    (named : nfa.reachableSets.keys[state]? = some active) :
    nfa.toDfa.status? state = some (nfa.status active) := by
  rw [toDfa, Numbering.status?_toDfa (sizes_reachableSets nfa),
    Array.getElem?_map, named]
  rfl

/-- After a word the deterministic automaton is in a state that carries the
verdict on the set that a walk keeps after it. -/
theorem status?_run_toDfa (nfa : Nfa) (word : Bytes) :
    nfa.toDfa.status? (nfa.toDfa.run Dfa.initial word) =
      some (nfa.status (nfa.readWord nfa.start word)) :=
  status?_toDfa (getElem?_run_toDfa nfa word)

/-- Every word leads the deterministic automaton to one of its states. -/
theorem run_toDfa_lt (nfa : Nfa) (word : Bytes) :
    nfa.toDfa.run Dfa.initial word < nfa.toDfa.size :=
  Dfa.lt_size_of_status? (status?_run_toDfa nfa word)

theorem verdict_run_toDfa (nfa : Nfa) (word : Bytes) :
    nfa.toDfa.verdict id (nfa.toDfa.run Dfa.initial word) =
      nfa.status (nfa.readWord nfa.start word) := by
  rw [Dfa.verdict, status?_run_toDfa]
  rfl

theorem lt_size_of_accept {state : Nat}
    (accepts : (nfa.flags state).accept = true) :
    state < nfa.size := by
  by_contra outside
  rw [flags, getElem?_eq_none (Nat.not_lt.mp outside)] at accepts
  cases accepts

/-- A word is accepted when a path from an initial to an accepting state spells
it. -/
theorem status_start_eq_accept_iff {word : Bytes} :
    nfa.status (nfa.readWord nfa.start word) = .accept ↔
      ∃ target, nfa.PathFrom (nfa.statesWith .onlyStart) word target ∧
        (nfa.flags target).accept = true := by
  rw [status_eq_accept_iff]
  constructor
  · intro accepted
    rcases accepted with ⟨target, member, accepts⟩
    exact ⟨target, (contains_readWord.mp member).2, accepts⟩
  · intro accepted
    rcases accepted with ⟨target, path, accepts⟩
    exact ⟨target, contains_readWord.mpr ⟨lt_size_of_accept accepts, path⟩,
      accepts⟩

end Nfa

end Munch
