import Mathlib.Logic.Equiv.Basic
import Munch.Proofs.Dfa.Order
import Munch.Proofs.Dfa.Paths

/-!
# The states are what can be reached

The states of the automaton of a complete numbering are the keys that words lead
to, each under one number (`exists_states`). So no state is left over: a word
leads to each of them (`exists_run_eq`), and each but the initial one is entered
from a state with a smaller number (`exists_entering`).

For the subset construction the keys are the sets that walks can be in
(`Nfa.toDfa?_states`).
-/

namespace Munch

namespace Numbering

variable {κ σ : Type} [BEq κ] [Hashable κ]
variable {step : κ → UInt8 → κ} {first : κ} {numbering : Numbering κ}
variable {verdicts : Array σ}

theorem size_toDfa (complete : Complete step first numbering)
    (sizes : verdicts.size = numbering.rows.size) :
    (numbering.toDfa verdicts).size = numbering.keys.size := by
  rw [toDfa, Dfa.size, Array.size_zipWith, sizes, Nat.min_self,
    complete.rows_size]

theorem exists_key (complete : Complete step first numbering)
    (sizes : verdicts.size = numbering.rows.size) {state : Nat}
    (inside : state < (numbering.toDfa verdicts).size) :
    ∃ key, numbering.keys[state]? = some key := by
  rw [size_toDfa complete sizes] at inside
  exact ⟨_, Array.getElem?_eq_getElem inside⟩

theorem lt_size_toDfa (complete : Complete step first numbering)
    (sizes : verdicts.size = numbering.rows.size) {state : Nat} {key : κ}
    (named : numbering.keys[state]? = some key) :
    state < (numbering.toDfa verdicts).size := by
  rw [size_toDfa complete sizes]
  exact (Array.getElem?_eq_some_iff.mp named).1

/-- A state goes on every byte to the state of the successor of its key. -/
theorem exists_next? (complete : Complete step first numbering)
    (sizes : verdicts.size = numbering.rows.size) {state : Nat} {key : κ}
    (named : numbering.keys[state]? = some key) (byte : UInt8) :
    ∃ next, (numbering.toDfa verdicts).next? state byte = some next ∧
      numbering.keys[next]? = some (step key byte) := by
  rcases complete.rows state key named with ⟨row, found, right⟩
  refine ⟨row.get byte, ?_, right byte⟩
  rw [next?_toDfa sizes, found]
  rfl

/-- The states are the keys that words lead to, each under one number; the first
key is the initial state. -/
theorem exists_states (complete : Complete step first numbering)
    (sizes : verdicts.size = numbering.rows.size) (reached : κ → Prop)
    (words : ∀ key, reached key ↔ ∃ word, key = follow step first word) :
    ∃ keyOf : Fin (numbering.toDfa verdicts).size ≃ { key // reached key },
      (∃ begin : Fin (numbering.toDfa verdicts).size,
        begin.val = Dfa.initial ∧ (keyOf begin).val = first) ∧
      ∀ state : Fin (numbering.toDfa verdicts).size,
        numbering.keys[state.val]? = some (keyOf state).val ∧
        ∀ byte, ∃ next : Fin (numbering.toDfa verdicts).size,
          (numbering.toDfa verdicts).next? state byte = some next.val ∧
          (keyOf next).val = step (keyOf state).val byte := by
  have named := fun state : Fin (numbering.toDfa verdicts).size =>
    exists_key complete sizes state.isLt
  choose key found using named
  let keyAt : Fin (numbering.toDfa verdicts).size → { key // reached key } :=
    fun state => ⟨key state,
      (words _).mpr (complete.reached state (key state) (found state))⟩
  have injective : Function.Injective keyAt := by
    intro one other same
    apply Fin.ext
    apply complete.injective one other (key one) (found one)
    rw [found other]
    exact congrArg some (congrArg Subtype.val same).symm
  have surjective : Function.Surjective keyAt := by
    intro wanted
    rcases (words wanted.val).mp wanted.property with ⟨word, reach⟩
    have lookup :=
      getElem?_run complete sizes word Dfa.initial first complete.initial
    rw [← reach] at lookup
    refine ⟨⟨_, lt_size_toDfa complete sizes lookup⟩, Subtype.ext ?_⟩
    have same := found ⟨_, lt_size_toDfa complete sizes lookup⟩
    rw [lookup] at same
    exact (Option.some.inj same).symm
  have named : ∀ (state : Nat) (inside : _) (wanted : κ),
      numbering.keys[state]? = some wanted →
      key ⟨state, inside⟩ = wanted := by
    intro state inside wanted lookup
    have same := found ⟨state, inside⟩
    rw [lookup] at same
    exact (Option.some.inj same).symm
  refine ⟨Equiv.ofBijective keyAt ⟨injective, surjective⟩, ?_, ?_⟩
  · exact ⟨⟨Dfa.initial, lt_size_toDfa complete sizes complete.initial⟩, rfl,
      named _ _ first complete.initial⟩
  · intro state
    refine ⟨found state, fun byte => ?_⟩
    rcases exists_next? complete sizes (found state) byte
      with ⟨next, goes, lookup⟩
    exact ⟨⟨next, lt_size_toDfa complete sizes lookup⟩, goes,
      named next _ _ lookup⟩

/-- A word leads to every state. -/
theorem exists_run_eq (complete : Complete step first numbering)
    (sizes : verdicts.size = numbering.rows.size) {state : Nat}
    (inside : state < (numbering.toDfa verdicts).size) :
    ∃ word, (numbering.toDfa verdicts).run Dfa.initial word = state := by
  rcases exists_key complete sizes inside with ⟨key, named⟩
  rcases complete.reached state key named with ⟨word, rfl⟩
  refine ⟨word, complete.injective _ _ _ ?_ named⟩
  exact getElem?_run complete sizes word Dfa.initial first complete.initial

/-- Every state but the initial one is entered from a state with a smaller
number. -/
theorem exists_entering (complete : Complete step first numbering)
    (sizes : verdicts.size = numbering.rows.size)
    (descends : Descends step numbering.keys) {state : Nat}
    (inside : state < (numbering.toDfa verdicts).size)
    (later : state ≠ Dfa.initial) :
    ∃ smaller < state, ∃ byte,
      (numbering.toDfa verdicts).next? smaller byte = some state := by
  rcases exists_key complete sizes inside with ⟨key, named⟩
  rcases descends state key named later
    with ⟨smaller, less, parent, byte, parentNamed, rfl⟩
  rcases exists_next? complete sizes parentNamed byte with ⟨next, goes, lookup⟩
  refine ⟨smaller, less, byte, ?_⟩
  rw [goes, complete.injective next state _ lookup named]

end Numbering

namespace Nfa

variable {nfa : Nfa}

theorem reachableSets_descends (nfa : Nfa) :
    Numbering.Descends nfa.read nfa.reachableSets.keys :=
  Numbering.explore_descends (readEach_covers nfa)
    (Stretch.flatMap_bytes_stretches _) _

/-- Sets of walks from the beginning are determined by their members. -/
theorem readWord_start_ext {one other : Bytes}
    (same : ∀ state, (nfa.readWord nfa.start one).contains state =
      (nfa.readWord nfa.start other).contains state) :
    nfa.readWord nfa.start one = nfa.readWord nfa.start other := by
  apply (readWord_fits (start_fits nfa) one).ext
    (readWord_fits (start_fits nfa) other)
  intro state
  rw [same state]

/-- Making an automaton deterministic comes to an end with a state for each set
that a walk is in after some word, and no other. The set of the empty word is
the initial state. A state carries the verdict on its set and goes on each byte
to the state of the set after that byte. All of its moves lead to states; each
state is led to by some word, and from a state with a smaller number if it is
not the initial one. There are no more of them than the states have subsets. -/
theorem toDfa?_states (inRange : nfa.InRange) :
    nfa.reachableSets.pending = [] ∧ ∃ dfa, nfa.toDfa? = some dfa ∧
      (∃ setOf : Fin dfa.size ≃
          { active : StateSet // ∃ word, active = nfa.readWord nfa.start word },
        (∃ begin : Fin dfa.size,
          begin.val = Dfa.initial ∧ (setOf begin).val = nfa.start) ∧
        (∀ one other : Fin dfa.size, one ≠ other →
          ∃ state, (setOf one).val.contains state ≠
            (setOf other).val.contains state) ∧
        ∀ state : Fin dfa.size,
          dfa.status? state = some (nfa.status (setOf state).val) ∧
          ∀ byte, ∃ next : Fin dfa.size,
            dfa.next? state byte = some next.val ∧
            (setOf next).val = nfa.read (setOf state).val byte) ∧
      (∀ state < dfa.size, ∃ word, dfa.run Dfa.initial word = state) ∧
      (∀ state < dfa.size, ∀ byte, ∃ next < dfa.size,
        dfa.next? state byte = some next) ∧
      (∀ state < dfa.size, state ≠ Dfa.initial →
        ∃ smaller < state, ∃ byte, dfa.next? smaller byte = some state) ∧
      dfa.size ≤ 2 ^ nfa.size := by
  have ended := Numbering.explore_sound (readEach_covers nfa) (read_bounded nfa)
  have complete := reachableSets_complete nfa
  have sizes := sizes_reachableSets nfa
  refine ⟨ended.2, nfa.reachableSets.toDfa (nfa.reachableSets.keys.map
    nfa.status), inRange.toDfa?_eq_some, ?_, ?_, ?_, ?_, ?_⟩
  · rcases Numbering.exists_states complete sizes
      (fun active => ∃ word, active = nfa.readWord nfa.start word)
      (fun _ => Iff.rfl) with ⟨setOf, begins, states⟩
    refine ⟨setOf, begins, ?_, ?_⟩
    · intro one other differ
      by_contra same
      apply differ
      apply setOf.injective
      apply Subtype.ext
      rcases (setOf one).property with ⟨oneWord, oneReach⟩
      rcases (setOf other).property with ⟨otherWord, otherReach⟩
      rw [oneReach, otherReach] at same ⊢
      apply readWord_start_ext
      intro state
      by_contra differs
      exact same ⟨state, differs⟩
    · intro state
      refine ⟨?_, (states state).2⟩
      have entry := Numbering.status?_toDfa sizes state.val
      rw [Array.getElem?_map, (states state).1] at entry
      exact entry
  · intro state inside
    exact Numbering.exists_run_eq complete sizes inside
  · intro state inside byte
    rcases Numbering.exists_key complete sizes inside with ⟨active, named⟩
    rcases Numbering.exists_next? complete sizes named byte
      with ⟨next, goes, lookup⟩
    exact ⟨next, Numbering.lt_size_toDfa complete sizes lookup, goes⟩
  · intro state inside later
    exact Numbering.exists_entering complete sizes (reachableSets_descends nfa)
      inside later
  · rw [Numbering.size_toDfa complete sizes]
    exact ended.1.size_le (read_bounded nfa)

/-- Any byte leads from the initial state, which moves freely to itself, to an
accepting one, and from there back. -/
def pendulum : Nfa :=
  ⟨#[⟨.onlyStart, .const 1, [0]⟩, ⟨.onlyAccept, .const 0, []⟩]⟩

theorem inRange_pendulum : pendulum.InRange := by
  intro state listed
  simp only [pendulum, List.mem_toArray, List.mem_cons, List.not_mem_nil,
    or_false] at listed
  rcases listed with rfl | rfl <;> simp [pendulum, Nfa.size]

/-- The automaton that follows the pendulum begins with an open state. -/
theorem toDfa?_pendulum :
    pendulum.InRange ∧ pendulum.reachableSets.pending = [] ∧
      ∃ dfa, pendulum.toDfa? = some dfa ∧ dfa.size ≤ 4 ∧
        dfa.status? Dfa.initial = some .pass ∧
        ∀ state < dfa.size, ∃ word, dfa.run Dfa.initial word = state := by
  rcases toDfa?_states inRange_pendulum
    with ⟨ended, dfa, made, ⟨setOf, ⟨begin, initial, start⟩, _, states⟩,
      reached, _, _, few⟩
  refine ⟨inRange_pendulum, ended, dfa, made, few, ?_, reached⟩
  have opened : pendulum.status pendulum.start = .pass := by decide +kernel
  have entry := (states begin).1
  rwa [initial, start, opened] at entry

end Nfa

end Munch
