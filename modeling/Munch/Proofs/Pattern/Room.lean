import Munch.Proofs.Pattern.Automaton

/-!
# The room that a pattern takes

A pattern is laid out wherever the states that it needs exist (`lay?_keeps`), so
no part of it asks for a state behind them. It does ask for the last of them,
whatever the pattern is made of: a leaf has its sink there, and a composite has
the last state of its last child there, or else its own sink. So where the last
state is missing, nothing is laid out.
-/

namespace Munch

namespace Nfa

variable {nfa after : Nfa} {change : NfaState → NfaState}

/-- A state that was changed is there, and no state was added or lost. -/
theorem modify?_eq_some {state : Nat}
    (edited : nfa.modify? state change = some after) :
    state < nfa.size ∧ after.size = nfa.size := by
  rw [modify?] at edited
  split at edited
  next inside =>
      cases edited
      exact ⟨inside, Array.size_modify⟩
  next => cases edited

theorem layPair?_room {offset : Nat} {flags : Flags}
    (laid : layPair? offset flags nfa = some after) :
    offset + 2 ≤ nfa.size ∧ after.size = nfa.size := by
  simp only [layPair?, Option.bind_eq_bind, Option.bind_eq_some_iff] at laid
  rcases laid with ⟨entered, entry, sink⟩
  have first := modify?_eq_some entry
  have last := modify?_eq_some sink
  omega

theorem laySteps?_size {sink here : Nat} {bytes : Bytes}
    (laid : laySteps? sink here bytes nfa = some after) :
    after.size = nfa.size := by
  induction bytes generalizing here nfa with
  | nil =>
      cases laid
      rfl
  | cons byte bytes ih =>
      simp only [laySteps?, Option.bind_eq_bind, Option.bind_eq_some_iff]
        at laid
      rcases laid with ⟨_, next, _, step, rest⟩
      rw [ih rest, (modify?_eq_some step).2, (modify?_eq_some next).2]

theorem layLiteral?_room {offset : Nat} {bytes : Bytes}
    (laid : layLiteral? offset bytes nfa = some after) :
    offset + (bytes.length + 2) ≤ nfa.size := by
  simp only [layLiteral?, Option.bind_eq_bind, Option.bind_eq_some_iff] at laid
  rcases laid with ⟨_, entry, _, steps, marked, accept, sink⟩
  have size : marked.size = nfa.size := by
    rw [(modify?_eq_some accept).2, laySteps?_size steps,
      (modify?_eq_some entry).2]
  have last := (modify?_eq_some sink).1
  omega

theorem layBranches?_size {source target : Nat} {bytes : Bytes}
    (laid : layBranches? source target bytes nfa = some after) :
    after.size = nfa.size := by
  induction bytes generalizing nfa with
  | nil =>
      cases laid
      rfl
  | cons byte bytes ih =>
      simp only [layBranches?, Option.bind_eq_bind, Option.bind_eq_some_iff]
        at laid
      rcases laid with ⟨_, branch, rest⟩
      rw [ih rest, (modify?_eq_some branch).2]

theorem layCharset?_room {offset : Nat} {bytes : Bytes}
    (laid : layCharset? offset bytes nfa = some after) :
    offset + 3 ≤ nfa.size := by
  simp only [layCharset?, Option.bind_eq_bind, Option.bind_eq_some_iff] at laid
  rcases laid with ⟨_, entry, _, branches, marked, accept, sink⟩
  have size : marked.size = nfa.size := by
    rw [(modify?_eq_some accept).2, layBranches?_size branches,
      (modify?_eq_some entry).2]
  have last := (modify?_eq_some sink).1
  omega

end Nfa

namespace Pattern

open Nfa

variable {nfa after : Nfa}

/-- Whether a pattern is laid out only where all states that it needs are
there. -/
def AsksForRoom (pattern : Pattern) : Prop :=
  ∀ {offset : Nat} {nfa after : Nfa}, pattern.lay? offset nfa = some after →
    offset + pattern.needed ≤ nfa.size

/-- Where the states are there, laying out neither adds nor loses any. -/
theorem size_of_lay? {pattern : Pattern} {offset : Nat}
    (room : offset + pattern.needed ≤ nfa.size)
    (laid : pattern.lay? offset nfa = some after) : after.size = nfa.size := by
  rcases lay?_keeps pattern offset room nfa rfl with ⟨kept, same, size⟩
  rw [laid, Option.some.injEq] at same
  rw [same, size]

/-- What one child asks for, a row of children asks for as a whole. -/
theorem room_of_layAll? {child : Pattern} {children : List Pattern}
    (each : ∀ other ∈ child :: children, other.AsksForRoom) {offset : Nat}
    (laid : layAll? (child :: children) offset nfa = some after) :
    offset + neededAll (child :: children) ≤ nfa.size := by
  induction children generalizing child offset nfa with
  | nil =>
      rcases Option.bind_eq_some_iff.mp laid with ⟨_, laidChild, _⟩
      exact each child List.mem_cons_self laidChild
  | cons next children ih =>
      rw [List.forall_mem_cons] at each
      rcases Option.bind_eq_some_iff.mp laid with ⟨row, laidChild, laidRest⟩
      have room := each.1 laidChild
      have rest := ih each.2 laidRest
      rw [size_of_lay? room laidChild, Nat.add_assoc] at rest
      exact rest

/-- A pattern asks for all states that it needs. The leaves ask for their sinks,
and composites leave the asking to their children, in front of which they need
no more than their own pair. -/
theorem asksForRoom (pattern : Pattern) : pattern.AsksForRoom := by
  intro offset nfa after laid
  induction pattern using Pattern.induction generalizing offset nfa after with
  | epsilon => exact (layPair?_room laid).1
  | literal bytes => exact layLiteral?_room laid
  | charset bytes => exact layCharset?_room laid
  | concatenate children each =>
      cases children with
      | nil => exact (layPair?_room laid).1
      | cons child children =>
          rw [lay?_concatenate_cons] at laid
          rcases Option.bind_eq_some_iff.mp laid with ⟨row, laidRow, _⟩
          exact room_of_layAll? each laidRow
  | alternate children each =>
      cases children with
      | nil => exact (layPair?_room laid).1
      | cons child children =>
          rw [lay?_alternate_cons] at laid
          rcases Option.bind_eq_some_iff.mp laid with ⟨row, laidRow, _⟩
          have room := room_of_layAll? each laidRow
          rw [Nat.add_assoc] at room
          exact room
  | star inner ih =>
      rcases Option.bind_eq_some_iff.mp laid with ⟨gate, laidGate, laid⟩
      rcases Option.bind_eq_some_iff.mp laid with ⟨one, laidInner, _⟩
      have room := ih laidInner
      rw [(layPair?_room laidGate).2, Nat.add_assoc] at room
      exact room

/-- A pattern is refused exactly where the automaton ends before the last of the
states that it needs, whatever stands in those that are there. -/
theorem lay?_eq_none_iff (pattern : Pattern) (offset : Nat) (nfa : Nfa) :
    pattern.lay? offset nfa = none ↔ nfa.size < offset + pattern.needed := by
  constructor
  · intro refused
    by_contra short
    rcases lay?_keeps pattern offset (Nat.not_lt.mp short) nfa rfl
      with ⟨after, laid, _⟩
    rw [refused] at laid
    cases laid
  · intro short
    rw [Option.eq_none_iff_forall_not_mem]
    intro after laid
    exact Nat.not_le.mpr short (asksForRoom pattern laid)

end Pattern

end Munch
