import Munch.Dfa.Numbering
import Munch.Nfa.Walk

/-!
# From nondeterministic to deterministic

The states of the deterministic automaton are the sets of states that a walk of
the nondeterministic one can reach. The set in which walks begin is state 0.
-/

namespace Munch

namespace Nfa

/-- The sets that walks can reach, numbered. There are no more of them than
subsets of the states. -/
def reachableSets (nfa : Nfa) : Numbering StateSet :=
  let stretches := nfa.stretches
  .explore stretches (nfa.readEach stretches) nfa.start (Nat.pow 2 nfa.size)

/-- The deterministic automaton that follows all walks at once. -/
def toDfa (nfa : Nfa) : Dfa Status :=
  let numbering := nfa.reachableSets
  numbering.toDfa (numbering.keys.map nfa.status)

/-- The moves of a state, free or on any byte, that lead to a state. -/
def allMoves (nfa : Nfa) (state : Nat) : List Nat :=
  match nfa.states[state]? with
  | some found => nfa.existing (found.epsilons ++ found.transitions.toList)
  | none => []

/-- The states that some walk comes to. -/
def reachable (nfa : Nfa) : StateSet :=
  nfa.gather nfa.allMoves (nfa.statesWith .onlyStart)

/-- Whether all moves from a state lead to a state. -/
def stays (nfa : Nfa) (state : Nat) : Bool :=
  match nfa.states[state]? with
  | some found =>
      found.epsilons.all (· < nfa.size) && found.transitions.all (· < nfa.size)
  | none => true

/-- `toDfa`, refused when some walk meets a number that is no state. The walks
together follow every move of every state that one of them comes to. -/
def toDfa? (nfa : Nfa) : Option (Dfa Status) :=
  if nfa.reachable.toList.all nfa.stays then some nfa.toDfa else none

end Nfa

end Munch
