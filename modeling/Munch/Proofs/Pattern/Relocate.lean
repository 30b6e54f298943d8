import Munch.Proofs.Dfa.States
import Munch.Proofs.Nfa.Rename
import Munch.Proofs.Pattern.WellFormed

/-!
# Where a pattern stands leaves no trace

Among blank states a pattern is laid out as its own automaton, with all moves
counted from where it begins. So it is its own automaton under other names
(`lay?_blank_renames`), and becomes the same deterministic automaton wherever it
stands.
-/

namespace Munch

namespace Pattern

open Nfa Block

/-- A pattern laid out among blank states is its automaton under other names,
and all of its targets are states. -/
theorem lay?_blank_renames (pattern : Pattern) {offset size : Nat}
    (fits : offset + pattern.needed ≤ size) :
    ∃ nfa, pattern.lay? offset (.blank size) = some nfa ∧ nfa.InRange ∧
      Renames (offset + ·) pattern.toNfa nfa := by
  have laidOut := lay?_eq_place pattern offset (.blank size)
    (by rwa [size_blank])
  rw [← length_block] at fits
  refine ⟨_, laidOut, inRange_place_blank (wellFormed_block pattern).closed fits,
    ?_, ?_, ?_⟩
  · intro one _ other _ same
    exact Nat.add_left_cancel same
  · intro state found lookup
    rw [getElem?_toNfa] at lookup
    refine ⟨_, getElem?_edit_place_of_bare (by rwa [size_blank])
      (bare_blank size _) lookup, NfaState.flags_shift offset found, ?_, ?_⟩
    · intro byte
      rw [NfaState.transitions_shift, ByteTable.get_map]
    · intro target
      rw [NfaState.epsilons_shift]
  · intro state found lookup unnamed
    rcases place_blank_cases fits lookup
      with rfl | ⟨index, written, rfl, known, rfl⟩
    · rfl
    · have below := (List.getElem?_eq_some_iff.mp known).1
      rw [length_block, ← size_toNfa] at below
      exact absurd rfl (unnamed index below)

/-- Made deterministic, an automaton does not tell what its states are called or
where they stand. If the states of one are found in another under new names, free
moves in any order and repetition, and none of the others there is an initial
one, then both become the same automaton, state for state. In particular a
pattern laid out anywhere among blank states becomes the automaton that it
compiles to. -/
theorem toDfa?_of_renames :
    (∀ (rename : Nat → Nat) (left right : Nfa), left.InRange → right.InRange →
      Renames rename left right →
        ∃ dfa, left.toDfa? = some dfa ∧ right.toDfa? = some dfa) ∧
    ∀ (pattern : Pattern) (offset size : Nat),
      offset + pattern.needed ≤ size →
        ∃ nfa, pattern.lay? offset (.blank size) = some nfa ∧
          nfa.toDfa? = some pattern.compile.dfa := by
  constructor
  · intro rename left right leftInRange rightInRange renames
    exact ⟨left.toDfa, leftInRange.toDfa?_eq_some,
      renames.toDfa?_eq leftInRange rightInRange⟩
  · intro pattern offset size fits
    rcases lay?_blank_renames pattern fits
      with ⟨nfa, laidOut, inRange, renames⟩
    exact ⟨nfa, laidOut, renames.toDfa?_eq (inRange_toNfa pattern) inRange⟩

/-- The pendulum with its two states called 2 and 0, its free move doubled, and a
further state that no walk comes to. -/
def rehung : Nfa :=
  ⟨#[⟨.onlyAccept, .const 2, []⟩, ⟨.onlyReject, .const 0, [1, 0]⟩,
    ⟨.onlyStart, .const 0, [2, 2]⟩]⟩

theorem renames_rehung :
    Renames (fun state => if state = 0 then 2 else 0) pendulum rehung := by
  refine ⟨by decide, ?_, ?_⟩
  · intro state found lookup
    rcases state with _ | _ | state
    · cases lookup
      refine ⟨_, rfl, rfl, fun byte => ?_, fun target => ?_⟩
      · simp [pendulum, rehung]
      · simp [pendulum, rehung]
    · cases lookup
      refine ⟨_, rfl, rfl, fun byte => ?_, fun target => ?_⟩
      · simp [pendulum, rehung]
      · simp [pendulum, rehung, eq_comm]
    · simp [pendulum] at lookup
  · intro state found lookup unnamed
    rcases state with _ | _ | _ | state
    · exact absurd rfl (unnamed 1 (by decide))
    · cases lookup
      rfl
    · exact absurd rfl (unnamed 0 (by decide))
    · simp [rehung] at lookup

theorem inRange_rehung : rehung.InRange := by
  intro state listed
  simp only [rehung, List.mem_toArray, List.mem_cons, List.not_mem_nil,
    or_false] at listed
  rcases listed with rfl | rfl | rfl <;> simp [rehung, Nfa.size]

/-- The pendulum under other names, and one byte laid out from the fourth of
ten blank states on. -/
theorem toDfa?_rehung :
    (pendulum.InRange ∧ rehung.InRange ∧
      Renames (fun state => if state = 0 then 2 else 0) pendulum rehung ∧
      ∃ dfa, pendulum.toDfa? = some dfa ∧ rehung.toDfa? = some dfa) ∧
    3 + (byte 97).needed ≤ 10 ∧
      ∃ nfa, (byte 97).lay? 3 (.blank 10) = some nfa ∧
        nfa.toDfa? = some (byte 97).compile.dfa := by
  refine ⟨⟨inRange_pendulum, inRange_rehung, renames_rehung, ?_⟩, by decide, ?_⟩
  · exact toDfa?_of_renames.1 _ _ _ inRange_pendulum inRange_rehung
      renames_rehung
  · exact toDfa?_of_renames.2 (byte 97) 3 10 (by decide)

end Pattern

end Munch
