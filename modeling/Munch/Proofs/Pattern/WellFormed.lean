import Munch.Proofs.Nfa.Trail
import Munch.Proofs.Pattern.Block
import Munch.Regex

/-!
# The automaton of a pattern is well formed

The block of a pattern is well formed, and the automaton has no other states. So
all moves lead to states of the automaton, and nothing that is made from it ever
meets a number that is no state: not the walks, not the construction of the
deterministic automaton, and not its runs.
-/

namespace Munch

namespace Pattern

open Nfa Block

/-- All targets are states when a closed block stands among blank states. -/
theorem inRange_place_blank {block : Block} (closed : block.Closed)
    {offset size : Nat} (fits : offset + block.length ≤ size) :
    ((Nfa.blank size).edit (place offset block)).InRange := by
  intro found member
  rcases Array.mem_iff_getElem?.mp member with ⟨state, lookup⟩
  have inside := (Array.getElem?_eq_some_iff.mp lookup).1
  rw [← Nfa.size, size_edit, size_blank] at inside
  rw [size_edit, size_blank]
  rcases place_blank_cases fits lookup
    with rfl | ⟨index, written, rfl, known, rfl⟩
  · constructor
    · intro byte
      rw [NfaState.blank, ByteTable.get_const]
      exact Nat.zero_lt_of_lt inside
    · intro target move
      cases move
  · constructor
    · intro byte
      have below := closed.transitions index written known byte
      rw [NfaState.transitions_shift, ByteTable.get_map]
      exact (Nat.add_lt_add_left below offset).trans_le fits
    · intro target move
      rw [NfaState.epsilons_shift, List.mem_map] at move
      rcases move with ⟨target, move, rfl⟩
      have below := (closed.epsilons index written known target move).lt_length
      exact (Nat.add_lt_add_left below offset).trans_le fits

theorem inRange_toNfa (pattern : Pattern) : pattern.toNfa.InRange := by
  rw [toNfa_eq_place]
  apply inRange_place_blank (wellFormed_block pattern).closed
  rw [length_block, Nat.zero_add]

/-- The automaton of a pattern has the states that the pattern needs, and all
moves lead to them. Its first state is its only initial one, and some state
accepts. A state that rejects has no other mark, every byte leads back to it, and
it has no free move and is the target of none. So no walk is refused, nor is the
construction of the deterministic automaton, which has a state for every word. -/
theorem wellFormed_toNfa (pattern : Pattern) :
    (pattern.lay? 0 (.blank pattern.needed) = some pattern.toNfa ∧
      pattern.toNfa.size = pattern.needed ∧ 0 < pattern.needed) ∧
    (∀ (state : Nat) (found : NfaState),
      pattern.toNfa.states[state]? = some found →
        (∀ byte, found.transitions.get byte < pattern.needed) ∧
        (∀ target ∈ found.epsilons, target < pattern.needed) ∧
        (found.flags.start = true ↔ state = 0) ∧
        (found.flags.reject = true →
          found.flags.start = false ∧ found.flags.accept = false ∧
          (∀ byte, found.transitions.get byte = state) ∧
          found.epsilons = [] ∧
          ∀ other ∈ pattern.toNfa.states, state ∉ other.epsilons)) ∧
    (∃ found ∈ pattern.toNfa.states, found.flags.accept = true) ∧
    pattern.toNfa.toDfa? = some pattern.compile.dfa ∧
    pattern.toNfa.start? = some pattern.toNfa.start ∧
    ∀ word, (pattern.toNfa.trail? pattern.toNfa.start word).isSome = true ∧
      pattern.compile.dfa.run Dfa.initial word < pattern.compile.dfa.size := by
  have formed := wellFormed_block pattern
  have inRange := inRange_toNfa pattern
  have positive : 0 < pattern.needed := by
    rw [← length_block]
    exact formed.length_pos
  refine ⟨⟨lay?_blank pattern, size_toNfa pattern, positive⟩, ?_, ?_,
    inRange.toDfa?_eq_some, inRange.start?_eq_some, ?_⟩
  · intro state found lookup
    rw [getElem?_toNfa] at lookup
    rw [← length_block]
    refine ⟨formed.closed.transitions state found lookup, ?_,
      formed.start state found lookup, ?_⟩
    · intro target move
      exact (formed.closed.epsilons state found lookup target move).lt_length
    · intro rejects
      have sink := formed.closed.sink state found lookup rejects
      have unreached := formed.closed.notMem_epsilons lookup rejects
      subst sink
      refine ⟨rfl, rfl, ByteTable.get_const state, rfl, ?_⟩
      intro other member
      exact unreached other (mem_toNfa.mp member)
  · rcases formed.accept with ⟨found, member, accepts⟩
    exact ⟨found, mem_toNfa.mpr member, accepts⟩
  · intro word
    rw [inRange.trail?_eq_some]
    exact ⟨rfl, run_toDfa_lt pattern.toNfa word⟩

end Pattern

end Munch
