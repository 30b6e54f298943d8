import Munch.Byte.Table
import Munch.Dfa.Status

/-!
# Deterministic automata

A deterministic automaton is an array of states, each with a verdict and a total
table of transitions. State 0 is the initial one. The verdict type is a
parameter: a single pattern needs a `Status`, a set of patterns also names the
patterns that accept.

The checked operations (`status?`, `next?`, `setStatus?`, `setTransition?`)
refuse a state that does not exist.
-/

namespace Munch

/-- One state of a deterministic automaton. -/
structure DfaState (σ : Type) where
  status : σ
  transitions : ByteTable Nat
  deriving DecidableEq

/-- A deterministic automaton with verdicts in `σ`. -/
structure Dfa (σ : Type) where
  states : Array (DfaState σ)
  deriving DecidableEq

namespace Dfa

variable {σ : Type}

/-- The automaton without states. -/
def empty : Dfa σ := ⟨#[]⟩

/-- The number of the initial state. -/
def initial : Nat := 0

/-- The number of states. -/
def size (dfa : Dfa σ) : Nat :=
  dfa.states.size

/-- Add a state behind the others. Its transitions all go to the initial state
until they are set. -/
def push (dfa : Dfa σ) (status : σ) : Dfa σ :=
  ⟨dfa.states.push ⟨status, .const initial⟩⟩

/-- The verdict of a state. -/
@[inline] def status? (dfa : Dfa σ) (state : Nat) : Option σ :=
  dfa.states[state]?.map (·.status)

theorem lt_size_of_status? {dfa : Dfa σ} {state : Nat} {status : σ}
    (found : dfa.status? state = some status) : state < dfa.size := by
  rw [status?, Option.map_eq_some_iff] at found
  rcases found with ⟨entry, lookup, _⟩
  exact (Array.getElem?_eq_some_iff.mp lookup).1

/-- Where a state goes on a byte. -/
@[inline] def next? (dfa : Dfa σ) (state : Nat) (byte : UInt8) : Option Nat :=
  dfa.states[state]?.map (·.transitions.get byte)

/-- Where a state goes on a byte; a state that does not exist starts over. -/
@[inline] def next (dfa : Dfa σ) (state : Nat) (byte : UInt8) : Nat :=
  (dfa.next? state byte).getD initial

/-- Where a state goes on a word. -/
def run (dfa : Dfa σ) (state : Nat) (word : Bytes) : Nat :=
  word.foldl dfa.next state

/-- Change one state, or nothing when there is no such state. -/
def modify? (dfa : Dfa σ) (state : Nat) (change : DfaState σ → DfaState σ) :
    Option (Dfa σ) :=
  if state < dfa.size then some ⟨dfa.states.modify state change⟩ else none

/-- Give a state its verdict. -/
def setStatus? (dfa : Dfa σ) (state : Nat) (status : σ) : Option (Dfa σ) :=
  dfa.modify? state fun old => { old with status := status }

/-- Redirect one transition. -/
def setTransition? (dfa : Dfa σ) (source : Nat) (byte : UInt8) (target : Nat) :
    Option (Dfa σ) :=
  dfa.modify? source fun old => { old with transitions := old.transitions.set byte target }

/-- Whether a state accepts, if it exists. -/
def accepts? (dfa : Dfa Status) (state : Nat) : Option Bool :=
  (dfa.status? state).map (· == .accept)

/-- Whether a state rejects, if it exists. -/
def rejects? (dfa : Dfa Status) (state : Nat) : Option Bool :=
  (dfa.status? state).map (· == .reject)

end Dfa

end Munch
