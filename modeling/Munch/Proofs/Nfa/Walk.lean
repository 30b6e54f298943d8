import Munch.Nfa.Path
import Munch.Proofs.StateSet

/-!
# Walks keep what paths reach

The set that a walk keeps after a word consists of the states to which paths
lead that spell the word. The closure under free moves is a saturation by
rounds, the path relation is a derivation; `contains_readWord` says that they
agree, for every set of states to begin with.

No assumption is made on the targets. A path that leaves the automaton cannot
come back, so it never reaches a state.
-/

namespace Munch

namespace Nfa

variable {nfa : Nfa}

/-! ## Paths in an automaton -/

theorem flags_eq {state : Nat} {found : NfaState}
    (lookup : nfa.states[state]? = some found) :
    nfa.flags state = found.flags := by
  rw [flags, lookup]

theorem epsilons_eq {state : Nat} {found : NfaState}
    (lookup : nfa.states[state]? = some found) :
    nfa.epsilons state = found.epsilons := by
  rw [epsilons, lookup]

theorem target?_eq {state : Nat} {found : NfaState}
    (lookup : nfa.states[state]? = some found)
    (byte : UInt8) : nfa.target? state byte =
      some (found.transitions.get byte) := by
  rw [target?, lookup]

theorem getElem?_eq_none {state : Nat} (outside : nfa.size ≤ state) :
    nfa.states[state]? = none :=
  Array.getElem?_eq_none outside

theorem epsilons_eq_nil {state : Nat} (outside : nfa.size ≤ state) :
    nfa.epsilons state = [] := by
  rw [epsilons, getElem?_eq_none outside]

theorem target?_eq_none {state : Nat} (outside : nfa.size ≤ state)
    (byte : UInt8) :
    nfa.target? state byte = none := by
  rw [target?, getElem?_eq_none outside]

/-- Where there is no state a path cannot go on. -/
theorem Path.target_eq_source {source target : Nat} {word : Bytes}
    (path : nfa.Path source word target) (outside : nfa.size ≤ source) :
    target = source := by
  cases path with
  | here => rfl
  | free move _ =>
      rw [epsilons_eq_nil outside] at move
      cases move
  | read step _ =>
      rw [target?_eq_none outside] at step
      cases step

theorem Path.source_lt_size {source target : Nat} {word : Bytes}
    (path : nfa.Path source word target) (inside : target < nfa.size) :
    source < nfa.size := by
  by_contra outside
  rw [path.target_eq_source (Nat.not_lt.mp outside)] at inside
  exact outside inside

/-- A path that reads a byte moves freely, reads it, and goes on. -/
theorem path_cons {source target : Nat} {byte : UInt8} {word : Bytes} :
    nfa.Path source (byte :: word) target ↔
      ∃ before behind, nfa.Path source [] before ∧
        nfa.target? before byte = some behind ∧
        nfa.Path behind word target := by
  constructor
  · intro path
    generalize equal : byte :: word = spelled at path
    induction path with
    | here => cases equal
    | free move _ ih =>
        rcases ih equal with ⟨before, behind, first, step, rest⟩
        exact ⟨before, behind, .free move first, step, rest⟩
    | read step rest _ =>
        cases equal
        exact ⟨_, _, .here, step, rest⟩
  · intro split
    rcases split with ⟨before, behind, first, step, rest⟩
    exact first.append (.read step rest)

/-! ## Free moves -/

/-- Following free moves to a state is a path that spells nothing. -/
theorem reachable_freeMoves_iff_path {source target : Nat}
    (inside : source < nfa.size) :
    Relation.ReflTransGen (StateSet.Move nfa.freeMoves) source target ↔
      target < nfa.size ∧ nfa.Path source [] target := by
  constructor
  · intro reach
    induction reach with
    | refl => exact ⟨inside, .here⟩
    | tail _ move ih =>
        rcases List.mem_filter.mp move with ⟨listed, exists_⟩
        exact ⟨of_decide_eq_true exists_, ih.2.append (.free listed .here)⟩
  · intro both
    rcases both with ⟨targetInside, path⟩
    generalize equal : ([] : Bytes) = word at path
    induction path with
    | here => exact .refl
    | @free source middle target word move rest ih =>
        have middleInside := rest.source_lt_size targetInside
        apply Relation.ReflTransGen.head ?_ (ih middleInside targetInside equal)
        exact List.mem_filter.mpr ⟨move, decide_eq_true middleInside⟩
    | read => cases equal

/-! ## Sets of states -/

/-- What every set of a walk has in common: room for the states of the
automaton, and members that are states. Such sets differ only in their
members. -/
structure Fits (nfa : Nfa) (active : StateSet) : Prop where
  limit : active.limit = nfa.size
  words : active.words.size = (StateSet.empty nfa.size).words.size
  below : ∀ state, active.contains state = true → state < nfa.size

theorem Fits.ext {left right : StateSet} (leftFits : nfa.Fits left)
    (rightFits : nfa.Fits right)
    (agree : ∀ state, left.contains state = true ↔
      right.contains state = true) : left = right := by
  apply StateSet.ext (leftFits.limit.trans rightFits.limit.symm)
    (leftFits.words.trans rightFits.words.symm)
  intro state
  rw [Bool.eq_iff_iff]
  exact agree state

theorem mem_existing {states : List Nat} {state : Nat} :
    state ∈ nfa.existing states ↔ state ∈ states ∧ state < nfa.size := by
  rw [existing, List.mem_filter, decide_eq_true_iff]

section Gather

variable {moves : Nat → List Nat} {states : List Nat}

theorem gather_reachable
    (inside : ∀ state, ∀ target ∈ moves state, target < nfa.size) :
    nfa.Fits (nfa.gather moves states) ∧
      ∀ target, (nfa.gather moves states).contains target = true ↔
        ∃ source ∈ states, source < nfa.size ∧
          Relation.ReflTransGen (StateSet.Move moves) source target := by
  have added :=
    StateSet.insertNew_added (.empty nfa.size) (nfa.existing states) (by
    intro state member
    exact (mem_existing.mp member).2.trans_le (StateSet.le_room_empty nfa.size))
  have first : ∀ state,
      ((StateSet.empty nfa.size).insertNew (nfa.existing states)).1.contains
      state = true ↔ state ∈ states ∧ state < nfa.size := by
    intro state
    rw [added.contains, StateSet.contains_empty, mem_existing]
    simp
  have spreading : StateSet.Spreading moves nfa.size
      ((StateSet.empty nfa.size).insertNew (nfa.existing states)).1
      ((StateSet.empty nfa.size).insertNew (nfa.existing states)).2 := by
    constructor
    · rw [added.room]
      exact StateSet.le_room_empty nfa.size
    · intro state member
      exact ((first state).mp member).2
    · intro state member
      exact (added.contains state).mpr
        (.inr ((added.mem_fresh state).mp member).1)
    · intro state member
      left
      apply (added.mem_fresh state).mpr
      exact ⟨mem_existing.mpr ((first state).mp member),
        StateSet.contains_empty nfa.size⟩
  have result :=
    StateSet.spread_reachable inside (nfa.size + 1) _ _ spreading (by omega)
  have members : ∀ target, (nfa.gather moves states).contains target = true ↔
      ∃ source ∈ states, source < nfa.size ∧
        Relation.ReflTransGen (StateSet.Move moves) source target := by
    intro target
    apply (result.2.2 target).trans
    constructor
    · intro reach
      rcases reach with ⟨source, member, path⟩
      exact ⟨source, ((first source).mp member).1,
        ((first source).mp member).2, path⟩
    · intro reach
      rcases reach with ⟨source, listed, below, path⟩
      exact ⟨source, (first source).mpr ⟨listed, below⟩, path⟩
  refine ⟨⟨result.1.trans added.limit, result.2.1.trans added.words, ?_⟩,
    members⟩
  intro state member
  rcases (members state).mp member with ⟨source, _, below, path⟩
  cases path with
  | refl => exact below
  | tail _ move => exact inside _ _ move

end Gather

theorem freeMoves_lt (state : Nat) :
    ∀ target ∈ nfa.freeMoves state, target < nfa.size :=
  fun _ member => (mem_existing.mp member).2

theorem activate_fits (states : List Nat) : nfa.Fits (nfa.activate states) :=
  (gather_reachable freeMoves_lt).1

theorem contains_activate {states : List Nat} {target : Nat} :
    (nfa.activate states).contains target = true ↔
      target < nfa.size ∧ nfa.PathFrom states [] target := by
  rw [activate, (gather_reachable freeMoves_lt).2]
  constructor
  · intro reach
    rcases reach with ⟨source, listed, below, path⟩
    rw [reachable_freeMoves_iff_path below] at path
    exact ⟨path.1, source, listed, path.2⟩
  · intro reach
    rcases reach with ⟨inside, source, listed, path⟩
    have below := path.source_lt_size inside
    exact ⟨source, listed, below, (reachable_freeMoves_iff_path below).mpr
      ⟨inside, path⟩⟩

theorem mem_targets {active : StateSet} {byte : UInt8} {target : Nat} :
    target ∈ nfa.targets active byte ↔
      ∃ state, active.contains state = true ∧
        nfa.target? state byte = some target := by
  simp only [targets, members, List.mem_map, List.mem_filterMap,
    StateSet.mem_toList, target?]
  constructor
  · intro listed
    rcases listed with ⟨found, ⟨state, member, lookup⟩, rfl⟩
    exact ⟨state, member, by rw [lookup]⟩
  · intro listed
    rcases listed with ⟨state, member, step⟩
    split at step
    next found lookup => exact ⟨found, ⟨state, member, lookup⟩,
      Option.some.inj step⟩
    next => cases step

/-! ## Whole words -/

@[simp] theorem readWord_nil (active : StateSet) :
    nfa.readWord active [] = active := rfl

@[simp] theorem readWord_cons (active : StateSet) (byte : UInt8)
    (word : Bytes) :
    nfa.readWord active (byte :: word) =
      nfa.readWord (nfa.read active byte) word := rfl

theorem readWord_fits {active : StateSet} (fits : nfa.Fits active)
    (word : Bytes) :
    nfa.Fits (nfa.readWord active word) := by
  induction word generalizing active with
  | nil => exact fits
  | cons byte word ih => exact ih (activate_fits _)

/-- After a word a walk is in the states to which paths lead that spell the
word. -/
theorem contains_readWord {states : List Nat} {word : Bytes} {target : Nat} :
    (nfa.readWord (nfa.activate states) word).contains target = true ↔
      target < nfa.size ∧ nfa.PathFrom states word target := by
  induction word generalizing states with
  | nil => exact contains_activate
  | cons byte word ih =>
      rw [readWord_cons, read, ih]
      constructor
      · intro reach
        rcases reach with ⟨inside, middle, listed, rest⟩
        rcases mem_targets.mp listed with ⟨before, member, step⟩
        rcases contains_activate.mp member with ⟨_, source, sourceMem, first⟩
        exact ⟨inside, source, sourceMem, first.append (.read step rest)⟩
      · intro reach
        rcases reach with ⟨inside, source, sourceMem, path⟩
        rcases path_cons.mp path with ⟨before, behind, first, step, rest⟩
        have below : before < nfa.size := by
          by_contra outside
          rw [target?_eq_none (Nat.not_lt.mp outside)] at step
          cases step
        refine ⟨inside, behind, mem_targets.mpr ⟨before, ?_, step⟩, rest⟩
        exact contains_activate.mpr ⟨below, source, sourceMem, first⟩

/-! ## The verdict on a set -/

@[simp] theorem contains_onlyAccept (flags : Flags) :
    flags.contains .onlyAccept = flags.accept := by
  simp [Flags.contains, Flags.onlyAccept]

@[simp] theorem contains_onlyReject (flags : Flags) :
    flags.contains .onlyReject = flags.reject := by
  simp [Flags.contains, Flags.onlyReject]

@[simp] theorem contains_onlyStart (flags : Flags) :
    flags.contains .onlyStart = flags.start := by
  simp [Flags.contains, Flags.onlyStart]

theorem status_eq_accept_iff {active : StateSet} :
    nfa.status active = .accept ↔
      ∃ state, active.contains state = true ∧
        (nfa.flags state).accept = true := by
  have counted : nfa.countWith active .onlyAccept > 0 ↔
      ∃ state, active.contains state = true ∧
        (nfa.flags state).accept = true := by
    rw [countWith, gt_iff_lt, List.countP_pos_iff]
    simp
  rw [← counted, status]
  split
  next positive => simp [positive]
  next zero => split <;> simp [zero]

theorem status_eq_reject_iff {active : StateSet} :
    nfa.status active = .reject ↔
      nfa.status active ≠ .accept ∧
        ∀ state, active.contains state = true →
          (nfa.flags state).reject = true := by
  have counted : active.size = nfa.countWith active .onlyReject ↔
      ∀ state, active.contains state = true →
        (nfa.flags state).reject = true := by
    rw [countWith, StateSet.size_eq_length, eq_comm, List.countP_eq_length]
    simp
  rw [← counted, status]
  split
  next => simp
  next =>
      split
      next all => simp [all]
      next some => simp [some]

end Nfa

end Munch
