import Munch.Span
import Munch.StateSet

/-!
# Nondeterministic automata

An automaton is an array of states. A state has three marks, a total table of
transitions and a list of free moves to other states, the order of which is the
order in which the moves were added.

Targets are plain numbers: an automaton under construction may point past its
end. Editing a state that does not exist is refused, and so is a walk that would
step onto one (`Munch.Nfa.Walk`).
-/

namespace Munch

/-- The marks of an automaton state. Any combination may occur. -/
structure Flags where
  start : Bool := false
  accept : Bool := false
  reject : Bool := false
  deriving DecidableEq, Repr, Inhabited

namespace Flags

/-- No mark. -/
def none : Flags := {}

/-- The mark of an initial state. -/
def onlyStart : Flags := { start := true }

/-- The mark of an accepting state. -/
def onlyAccept : Flags := { accept := true }

/-- The mark of a state from which nothing can be accepted. -/
def onlyReject : Flags := { reject := true }

/-- The marks of an initial state that accepts. -/
def startAccept : Flags := { start := true, accept := true }

/-- Whether every mark of `wanted` is present. No mark is always present. -/
def contains (flags wanted : Flags) : Bool :=
  (!wanted.start || flags.start) && (!wanted.accept || flags.accept) &&
    (!wanted.reject || flags.reject)

/-- The marks of either. -/
def union (flags added : Flags) : Flags :=
  ⟨flags.start || added.start, flags.accept || added.accept, flags.reject || added.reject⟩

/-- The marks that are not among `removed`. -/
def remove (flags removed : Flags) : Flags :=
  ⟨flags.start && !removed.start, flags.accept && !removed.accept,
    flags.reject && !removed.reject⟩

/-- The marks as a number: initial 1, accepting 2, rejecting 4. -/
def code (flags : Flags) : Nat :=
  flags.start.toNat + 2 * flags.accept.toNat + 4 * flags.reject.toNat

/-- The marks with a given number; higher bits do not count. -/
def ofCode (code : Nat) : Flags :=
  ⟨code.testBit 0, code.testBit 1, code.testBit 2⟩

@[simp] theorem ofCode_code (flags : Flags) : ofCode flags.code = flags := by
  rcases flags with ⟨_ | _, _ | _, _ | _⟩ <;> rfl

end Flags

/-- One state of a nondeterministic automaton. -/
structure NfaState where
  flags : Flags
  transitions : ByteTable Nat
  epsilons : List Nat
  deriving DecidableEq

namespace NfaState

/-- A state without marks and free moves, all of whose transitions go to 0. -/
def blank : NfaState :=
  ⟨.none, .const 0, []⟩

end NfaState

/-- A nondeterministic automaton. -/
structure Nfa where
  states : Array NfaState
  deriving DecidableEq

namespace Nfa

/-- An automaton of blank states. -/
def blank (size : Nat) : Nfa :=
  ⟨Array.replicate size .blank⟩

/-- The number of states. -/
def size (nfa : Nfa) : Nat :=
  nfa.states.size

/-- Change one state, or nothing when there is no such state. -/
def modify? (nfa : Nfa) (state : Nat) (change : NfaState → NfaState) : Option Nfa :=
  if state < nfa.size then some ⟨nfa.states.modify state change⟩ else none

/-- Give a state its marks and send all its transitions to one target. Free
moves that the state already has stay. -/
def setState? (nfa : Nfa) (state : Nat) (flags : Flags) (target : Nat) :
    Option Nfa :=
  nfa.modify? state fun old => { old with flags := flags, transitions := .const target }

/-- Give a state its marks. -/
def setFlags? (nfa : Nfa) (state : Nat) (flags : Flags) : Option Nfa :=
  nfa.modify? state fun old => { old with flags := flags }

/-- Add marks to a state. -/
def addFlags? (nfa : Nfa) (state : Nat) (flags : Flags) : Option Nfa :=
  nfa.modify? state fun old => { old with flags := old.flags.union flags }

/-- Redirect one transition. -/
def setTransition? (nfa : Nfa) (state : Nat) (byte : UInt8) (target : Nat) :
    Option Nfa :=
  nfa.modify? state fun old => { old with transitions := old.transitions.set byte target }

/-- Add a free move behind those that the state already has. -/
def addEpsilon? (nfa : Nfa) (source target : Nat) : Option Nfa :=
  nfa.modify? source fun old => { old with epsilons := old.epsilons ++ [target] }

/-- The states that carry all the given marks, in ascending order. -/
def statesWith (nfa : Nfa) (flags : Flags) : List Nat :=
  (List.range nfa.size).filter fun state =>
    match nfa.states[state]? with
    | some found => found.flags.contains flags
    | none => false

/-- Take marks off the states `first, …, first + count - 1` wherever all of them
are present, and report where, in ascending order. Refused when one of these
states does not exist. -/
def takeFlagsFrom? (flags : Flags) : (count : Nat) → (first : Nat) → Nfa →
    Option (List Nat × Nfa)
  | 0, _, nfa => some ([], nfa)
  | count + 1, first, nfa =>
      match nfa.states[first]? with
      | none => none
      | some found =>
          if found.flags.contains flags then do
            let nfa ← nfa.setFlags? first (found.flags.remove flags)
            let (taken, nfa) ← takeFlagsFrom? flags count (first + 1) nfa
            some (first :: taken, nfa)
          else
            takeFlagsFrom? flags count (first + 1) nfa

/-- Take marks off the states of a stretch wherever all of them are present, and
report where, in ascending order. An empty stretch is never refused. -/
def takeFlags? (nfa : Nfa) (span : Span) (flags : Flags) : Option (List Nat × Nfa) :=
  takeFlagsFrom? flags span.length span.first nfa

end Nfa

end Munch
