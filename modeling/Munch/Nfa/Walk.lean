import Munch.Byte.Stretch
import Munch.Nfa
import Munch.Dfa.Status

/-!
# Walking a nondeterministic automaton

A walk keeps the set of all states that the automaton may be in. The set is
always closed under free moves: whatever a member can move to freely is a member
too. Reading a byte moves every member and closes the result again.

A target past the end of the automaton is no state. The total operations skip
it; the checked ones (`start?`, `read?`) refuse the walk that meets one.
-/

namespace Munch

namespace Nfa

/-- The free moves of a state, none for a state that does not exist. -/
def epsilons (nfa : Nfa) (state : Nat) : List Nat :=
  match nfa.states[state]? with
  | some found => found.epsilons
  | none => []

/-- Where a state goes on a byte, if it exists. -/
def target? (nfa : Nfa) (state : Nat) (byte : UInt8) : Option Nat :=
  match nfa.states[state]? with
  | some found => some (found.transitions.get byte)
  | none => none

/-- The marks of a state, none for a state that does not exist. -/
def flags (nfa : Nfa) (state : Nat) : Flags :=
  match nfa.states[state]? with
  | some found => found.flags
  | none => .none

/-- The listed numbers that are states of the automaton. -/
def existing (nfa : Nfa) (states : List Nat) : List Nat :=
  states.filter (· < nfa.size)

/-- The free moves of a state that lead to a state. -/
def freeMoves (nfa : Nfa) (state : Nat) : List Nat :=
  nfa.existing (nfa.epsilons state)

/-- All listed states and everything that moves lead to from them. A round that is
not the last adds a state, so there are no more rounds than states, and one to
notice the end. -/
def gather (nfa : Nfa) (moves : Nat → List Nat) (states : List Nat) : StateSet :=
  let (reached, frontier) := (StateSet.empty nfa.size).insertNew (nfa.existing states)
  reached.spread moves (nfa.size + 1) frontier

/-- The set of the listed states and all that they can reach freely. -/
def activate (nfa : Nfa) (states : List Nat) : StateSet :=
  nfa.gather nfa.freeMoves states

/-- The set in which a walk begins: the initial states and all that they can
reach freely. -/
def start (nfa : Nfa) : StateSet :=
  nfa.activate (nfa.statesWith .onlyStart)

/-- The states that are members. -/
def members (nfa : Nfa) (active : StateSet) : List NfaState :=
  active.toList.filterMap (nfa.states[·]?)

/-- Where the members go on a byte. -/
def targets (nfa : Nfa) (active : StateSet) (byte : UInt8) : List Nat :=
  (nfa.members active).map (·.transitions.get byte)

/-- The set after reading a byte. -/
def read (nfa : Nfa) (active : StateSet) (byte : UInt8) : StateSet :=
  nfa.activate (nfa.targets active byte)

/-- The alphabet, cut into stretches of bytes on which all states move alike. -/
def stretches (nfa : Nfa) : List Stretch :=
  Stretch.stretches (nfa.states.toList.map (·.transitions))

/-- The sets after reading the first byte of each stretch. Where the members go to
the same states on neighbouring stretches, the set is made once. -/
def readEach (nfa : Nfa) (stretches : List Stretch) (active : StateSet) : List StateSet :=
  let members := nfa.members active
  mapRuns nfa.activate
    (stretches.map fun stretch => members.map (·.transitions.get stretch.first))

@[simp] theorem readEach_eq_map (nfa : Nfa) (stretches : List Stretch) (active : StateSet) :
    nfa.readEach stretches active = stretches.map fun stretch => nfa.read active stretch.first := by
  simp [readEach, read, targets, Function.comp_def]

theorem mem_states_of_mem_members {nfa : Nfa} {active : StateSet} {member : NfaState}
    (listed : member ∈ nfa.members active) : member ∈ nfa.states := by
  rcases List.mem_filterMap.mp listed with ⟨_, _, found⟩
  exact Array.mem_of_getElem? found

/-- All bytes of a stretch lead to the same set. -/
theorem read_first {nfa : Nfa} (active : StateSet) {stretch : Stretch}
    (member : stretch ∈ nfa.stretches) {byte : UInt8} (inside : byte ∈ stretch.bytes) :
    nfa.read active stretch.first = nfa.read active byte := by
  simp only [read, targets]
  congr 1
  refine List.map_congr_left fun state listed => Stretch.get_first ?_ member inside
  exact List.mem_map.mpr
    ⟨state, Array.mem_toList_iff.mpr (mem_states_of_mem_members listed), rfl⟩

/-- The set after reading a word. -/
def readWord (nfa : Nfa) (active : StateSet) (word : Bytes) : StateSet :=
  word.foldl nfa.read active

/-- The number of members that carry all the given marks. -/
def countWith (nfa : Nfa) (active : StateSet) (flags : Flags) : Nat :=
  active.toList.countP fun state => (nfa.flags state).contains flags

/-- What a set of states says about the word read so far: it is accepted when
some member accepts; nothing that begins with it can be accepted when all
members reject; otherwise it is open. -/
def status (nfa : Nfa) (active : StateSet) : Status :=
  if nfa.countWith active .onlyAccept > 0 then .accept
  else if active.size = nfa.countWith active .onlyReject then .reject
  else .pass

/-- Whether every free move of the members leads to a state. -/
def staysFreely (nfa : Nfa) (active : StateSet) : Bool :=
  active.toList.all fun state => (nfa.epsilons state).all (· < nfa.size)

/-- `activate`, refused when it meets a number that is no state. -/
def activate? (nfa : Nfa) (states : List Nat) : Option StateSet :=
  let active := nfa.activate states
  if states.all (· < nfa.size) && nfa.staysFreely active then some active else none

/-- `start`, refused when it meets a number that is no state. -/
def start? (nfa : Nfa) : Option StateSet :=
  nfa.activate? (nfa.statesWith .onlyStart)

/-- `read`, refused when it meets a number that is no state. -/
def read? (nfa : Nfa) (active : StateSet) (byte : UInt8) : Option StateSet :=
  nfa.activate? (nfa.targets active byte)

/-- The sets that a walk goes through: the given one, and the one after each
byte. Refused when it meets a number that is no state. -/
def trail? (nfa : Nfa) : StateSet → Bytes → Option (List StateSet)
  | active, [] => some [active]
  | active, byte :: word => do
      let next ← nfa.read? active byte
      let rest ← nfa.trail? next word
      some (active :: rest)

/-- Whether all targets of an automaton are states. -/
def InRange (nfa : Nfa) : Prop :=
  ∀ state ∈ nfa.states,
    (∀ byte, state.transitions.get byte < nfa.size) ∧ ∀ next ∈ state.epsilons, next < nfa.size

end Nfa

end Munch
