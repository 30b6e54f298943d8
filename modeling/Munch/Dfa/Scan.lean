import Munch.Dfa

/-!
# Scanning a text

A scan runs a deterministic automaton along a text and asks which prefixes are
accepted. It stops at a rejecting state, because nothing further can be accepted
there. The verdict type is a parameter; `verdict` reads the status out of it.
-/

namespace Munch

namespace Dfa

variable {σ : Type}

/-- A prefix of a text that is accepted: its length, and the state after it. -/
structure Hit where
  length : Nat
  state : Nat
  deriving DecidableEq, Repr

/-- The verdict of a state. A state that does not exist rejects. -/
@[inline] def verdict (dfa : Dfa σ) (status : σ → Status) (state : Nat) : Status :=
  ((dfa.status? state).map status).getD .reject

/-- The longest accepted prefix, when `length` bytes have led to `state` and
`best` is the longest accepted prefix among the shorter ones. -/
def longestFrom (dfa : Dfa σ) (status : σ → Status) :
    (state length : Nat) → (best : Option Hit) → Bytes → Option Hit
  | state, length, best, text =>
      match dfa.verdict status state with
      | .reject => best
      | verdict =>
          let best := if verdict = .accept then some ⟨length, state⟩ else best
          match text with
          | [] => best
          | byte :: text =>
              dfa.longestFrom status (dfa.next state byte) (length + 1) best text

/-- The longest accepted prefix of a text. -/
def longest (dfa : Dfa σ) (status : σ → Status) (text : Bytes) : Option Hit :=
  dfa.longestFrom status initial 0 none text

/-- The length of the shortest accepted prefix, when `length` bytes have led to
`state` and none of the shorter ones is accepted. -/
def shortestFrom (dfa : Dfa σ) (status : σ → Status) :
    (state length : Nat) → Bytes → Option Nat
  | state, length, text =>
      match dfa.verdict status state with
      | .accept => some length
      | .reject => none
      | .pass =>
          match text with
          | [] => none
          | byte :: text => dfa.shortestFrom status (dfa.next state byte) (length + 1) text

/-- The length of the shortest accepted prefix of a text. -/
def shortest (dfa : Dfa σ) (status : σ → Status) (text : Bytes) : Option Nat :=
  dfa.shortestFrom status initial 0 text

end Dfa

end Munch
