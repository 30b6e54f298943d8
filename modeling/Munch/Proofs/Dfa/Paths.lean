import Munch.Proofs.Dfa.Subset

/-!
# The deterministic automaton in terms of paths

Any automaton of which all targets are states can be made deterministic, not
only that of a pattern: it may have several initial states or none, states that
accept and reject, and cycles of free moves. The state that a word leads to is
determined by the states that paths from an initial state reach when they spell
that word, so paths alone say what it carries.
-/

namespace Munch

namespace Nfa

variable {nfa : Nfa}

/-- Whether a path from some initial state spells the word and leads to a
state. -/
def Reaches (nfa : Nfa) (word : Bytes) (state : Nat) : Prop :=
  ∃ source, (nfa.flags source).start = true ∧ nfa.Path source word state

/-! ## Targets that are states -/

namespace InRange

theorem epsilon_lt (inRange : nfa.InRange) {state target : Nat}
    (move : target ∈ nfa.epsilons state) : target < nfa.size := by
  rw [epsilons] at move
  split at move
  next found lookup =>
      exact (inRange found (Array.mem_of_getElem? lookup)).2 target move
  next => cases move

theorem target_lt (inRange : nfa.InRange) {state target : Nat} {byte : UInt8}
    (step : nfa.target? state byte = some target) : target < nfa.size := by
  rw [target?] at step
  split at step
  next found lookup =>
      rw [← Option.some.inj step]
      exact (inRange found (Array.mem_of_getElem? lookup)).1 byte
  next => cases step

/-- A path never leaves the automaton. -/
theorem path_lt (inRange : nfa.InRange) {source target : Nat} {word : Bytes}
    (path : nfa.Path source word target) (inside : source < nfa.size) :
    target < nfa.size := by
  induction path with
  | here => exact inside
  | free move _ ih => exact ih (inRange.epsilon_lt move)
  | read step _ ih => exact ih (inRange.target_lt step)

/-- A path can go on with any word. -/
theorem exists_path (inRange : nfa.InRange) (word : Bytes) {source : Nat}
    (inside : source < nfa.size) : ∃ target, nfa.Path source word target := by
  induction word generalizing source with
  | nil => exact ⟨source, .here⟩
  | cons byte word ih =>
      have step := target?_eq (Array.getElem?_eq_getElem inside) byte
      rcases ih (inRange.target_lt step) with ⟨target, rest⟩
      exact ⟨target, .read step rest⟩

theorem stays (inRange : nfa.InRange) (state : Nat) :
    nfa.stays state = true := by
  rw [Nfa.stays]
  split
  next found lookup =>
      have targets := inRange found (Array.mem_of_getElem? lookup)
      rw [Bool.and_eq_true, List.all_eq_true, ByteTable.all_eq_true]
      exact ⟨fun target listed => decide_eq_true (targets.2 target listed),
        fun byte => decide_eq_true (targets.1 byte)⟩
  next => rfl

/-- No walk meets a number that is no state, so nothing is refused. -/
theorem toDfa?_eq_some (inRange : nfa.InRange) :
    nfa.toDfa? = some nfa.toDfa := by
  rw [toDfa?, if_pos]
  rw [List.all_eq_true]
  intro state _
  exact inRange.stays state

end InRange

/-! ## Reached states are active -/

theorem mem_statesWith_onlyStart {state : Nat} :
    state ∈ nfa.statesWith .onlyStart ↔ (nfa.flags state).start = true := by
  rw [statesWith, List.mem_filter, List.mem_range, Nfa.flags]
  cases lookup : nfa.states[state]? with
  | none =>
      simp [Flags.none]
  | some found =>
      have inside := (Array.getElem?_eq_some_iff.mp lookup).1
      simp [Nfa.size, inside]

theorem lt_size_of_start {state : Nat}
    (starts : (nfa.flags state).start = true) : state < nfa.size := by
  have listed := mem_statesWith_onlyStart.mpr starts
  rw [statesWith, List.mem_filter, List.mem_range] at listed
  exact listed.1

/-- After a word exactly the states that paths reach are active. -/
theorem contains_readWord_start (inRange : nfa.InRange) {word : Bytes}
    {state : Nat} :
    (nfa.readWord nfa.start word).contains state = true ↔
      nfa.Reaches word state := by
  rw [start, contains_readWord, PathFrom, Reaches]
  simp only [mem_statesWith_onlyStart]
  constructor
  · intro active
    exact active.2
  · intro reached
    rcases reached with ⟨source, starts, path⟩
    exact ⟨inRange.path_lt path (lt_size_of_start starts), source, starts, path⟩

/-! ## Verdicts -/

/-- An automaton all targets of which are states can be made deterministic. A
word leads to a state that accepts when a path that spells the word reaches an
accepting state, rejects when none does and all states so reached reject, and is
open otherwise. -/
theorem toDfa?_verdicts (inRange : nfa.InRange) :
    ∃ dfa, nfa.toDfa? = some dfa ∧ ∀ word, ∃ status,
      dfa.status? (dfa.run Dfa.initial word) = some status ∧
      (status = .accept ↔
        ∃ state, nfa.Reaches word state ∧ (nfa.flags state).accept = true) ∧
      (status = .reject ↔
        (¬∃ state, nfa.Reaches word state ∧
          (nfa.flags state).accept = true) ∧
        ∀ state, nfa.Reaches word state →
          (nfa.flags state).reject = true) ∧
      (status = .pass ↔
        (¬∃ state, nfa.Reaches word state ∧
          (nfa.flags state).accept = true) ∧
        ∃ state, nfa.Reaches word state ∧
          (nfa.flags state).reject = false) := by
  refine ⟨nfa.toDfa, inRange.toDfa?_eq_some, ?_⟩
  intro word
  have accepts :
      nfa.status (nfa.readWord nfa.start word) = .accept ↔
        ∃ state, nfa.Reaches word state ∧
          (nfa.flags state).accept = true := by
    simp only [status_eq_accept_iff, contains_readWord_start inRange]
  have rejects :
      nfa.status (nfa.readWord nfa.start word) = .reject ↔
        (¬∃ state, nfa.Reaches word state ∧
          (nfa.flags state).accept = true) ∧
        ∀ state, nfa.Reaches word state →
          (nfa.flags state).reject = true := by
    rw [status_eq_reject_iff, Ne, accepts]
    simp only [contains_readWord_start inRange]
  refine ⟨_, status?_run_toDfa nfa word, accepts, rejects, ?_⟩
  have undecided : nfa.status (nfa.readWord nfa.start word) = .pass ↔
      nfa.status (nfa.readWord nfa.start word) ≠ .accept ∧
        nfa.status (nfa.readWord nfa.start word) ≠ .reject := by
    cases nfa.status (nfa.readWord nfa.start word) <;> simp
  rw [undecided, Ne, accepts, Ne, rejects]
  constructor
  · intro both
    refine ⟨both.1, ?_⟩
    by_contra none
    apply both.2
    refine ⟨both.1, ?_⟩
    intro state reached
    by_contra live
    exact none ⟨state, reached, Bool.eq_false_of_not_eq_true live⟩
  · intro both
    refine ⟨both.1, ?_⟩
    intro all
    rcases both.2 with ⟨state, reached, live⟩
    rw [all.2 state reached] at live
    cases live

/-- Two initial states move freely to each other; any byte leads to a state that
both accepts and rejects, and any further byte back. -/
def tangle : Nfa :=
  ⟨#[⟨.onlyStart, .const 2, [1]⟩, ⟨.onlyStart, .const 2, [0]⟩,
    ⟨⟨false, true, true⟩, .const 1, []⟩]⟩

/-- A state that accepts wins over its own mark of rejection. -/
theorem toDfa?_tangle :
    tangle.InRange ∧ ∃ dfa, tangle.toDfa? = some dfa ∧
      dfa.status? (dfa.run Dfa.initial []) = some .pass ∧
      dfa.status? (dfa.run Dfa.initial [97]) = some .accept := by
  have inRange : tangle.InRange := by
    intro state listed
    simp only [tangle, List.mem_toArray, List.mem_cons, List.not_mem_nil,
      or_false] at listed
    rcases listed with rfl | rfl | rfl <;> simp [tangle, Nfa.size]
  rcases toDfa?_verdicts inRange with ⟨dfa, made, verdicts⟩
  refine ⟨inRange, dfa, made, ?_, ?_⟩
  · rcases verdicts [] with ⟨status, found, _, _, pass⟩
    rw [found, pass.mpr]
    refine ⟨?_, 0, ⟨0, rfl, .here⟩, rfl⟩
    intro accepted
    rcases accepted with ⟨state, reached, accepts⟩
    have active := (contains_readWord_start inRange).mpr reached
    have inside := lt_size_of_accept accepts
    match state, inside with
    | 0, _ => cases accepts
    | 1, _ => cases accepts
    | 2, _ => exact absurd active (by decide +kernel)
  · rcases verdicts [97] with ⟨status, found, accept, _, _⟩
    rw [found, accept.mpr ⟨2, ⟨0, rfl, .read rfl .here⟩, rfl⟩]

end Nfa

end Munch
