import Munch.Proofs.Dfa.Order
import Munch.Proofs.Dfa.Paths

/-!
# Names of states leave no trace

An automaton can be found again in another one, under other names and among
other states. As long as none of those others is an initial state, the walks of
the two are in corresponding sets after every word (`Renames.contains_readWord`).
So the same words lead to the same set in both, and since the numbers of a
deterministic automaton depend on nothing else, both are made deterministic to
one and the same automaton (`Renames.toDfa_eq`).
-/

namespace Munch

/-- Whether a state has the marks of another and its moves under new names. The
order and the repetition of free moves do not count. -/
structure NfaState.Renamed (rename : Nat → Nat) (found image : NfaState) :
    Prop where
  flags : image.flags = found.flags
  transitions : ∀ byte,
    image.transitions.get byte = rename (found.transitions.get byte)
  epsilons : ∀ target, target ∈ image.epsilons ↔
    target ∈ found.epsilons.map rename

namespace Nfa

/-- Whether the states of one automaton are found in another under new names,
different ones for different states, and no other state there is an initial
one. -/
structure Renames (rename : Nat → Nat) (left right : Nfa) : Prop where
  injective : ∀ one < left.size, ∀ other < left.size,
    rename one = rename other → one = other
  states : ∀ (state : Nat) (found : NfaState),
    left.states[state]? = some found →
      ∃ image, right.states[rename state]? = some image ∧
        found.Renamed rename image
  quiet : ∀ (state : Nat) (found : NfaState),
    right.states[state]? = some found →
      (∀ source < left.size, rename source ≠ state) →
        found.flags.start = false

namespace Renames

variable {rename : Nat → Nat} {left right : Nfa}

/-! ## Paths -/

section State

variable (renames : Renames rename left right) {state : Nat}
  (inside : state < left.size)
include renames inside

theorem exists_image :
    ∃ found image, left.states[state]? = some found ∧
      right.states[rename state]? = some image ∧
      found.Renamed rename image := by
  have lookup : left.states[state]? = some left.states[state] :=
    Array.getElem?_eq_getElem inside
  rcases renames.states state _ lookup with ⟨image, imageLookup, renamed⟩
  exact ⟨_, image, lookup, imageLookup, renamed⟩

theorem flags_eq : right.flags (rename state) = left.flags state := by
  rcases renames.exists_image inside
    with ⟨found, image, lookup, imageLookup, renamed⟩
  rw [Nfa.flags_eq lookup, Nfa.flags_eq imageLookup, renamed.flags]

theorem mem_epsilons {target : Nat} :
    target ∈ right.epsilons (rename state) ↔
      ∃ next ∈ left.epsilons state, rename next = target := by
  rcases renames.exists_image inside
    with ⟨found, image, lookup, imageLookup, renamed⟩
  rw [epsilons_eq lookup, epsilons_eq imageLookup, renamed.epsilons,
    List.mem_map]

theorem target?_eq (byte : UInt8) :
    right.target? (rename state) byte =
      (left.target? state byte).map rename := by
  rcases renames.exists_image inside
    with ⟨found, image, lookup, imageLookup, renamed⟩
  rw [Nfa.target?_eq lookup, Nfa.target?_eq imageLookup, renamed.transitions]
  rfl

end State

/-- Paths can be followed under the new names. -/
theorem path (renames : Renames rename left right) (inRange : left.InRange)
    {source target : Nat} {word : Bytes} (inside : source < left.size)
    (path : left.Path source word target) :
    right.Path (rename source) word (rename target) := by
  induction path with
  | here => exact .here
  | free move _ ih =>
      have next := (renames.mem_epsilons inside).mpr ⟨_, move, rfl⟩
      exact .free next (ih (inRange.epsilon_lt move))
  | @read source middle target byte word step _ ih =>
      have next := renames.target?_eq inside byte
      rw [step] at next
      exact .read next (ih (inRange.target_lt step))

/-- A path from a state under its new name never leaves the new names. -/
theorem exists_path (renames : Renames rename left right)
    (inRange : left.InRange) {source target : Nat} {word : Bytes}
    (path : right.Path source word target) :
    ∀ state < left.size, rename state = source →
      ∃ reached, rename reached = target ∧ left.Path state word reached := by
  induction path with
  | here =>
      intro state _ named
      exact ⟨state, named, .here⟩
  | free move _ ih =>
      intro state inside named
      subst named
      rcases (renames.mem_epsilons inside).mp move with ⟨next, leftMove, named⟩
      rcases ih next (inRange.epsilon_lt leftMove) named
        with ⟨reached, reachedNamed, rest⟩
      exact ⟨reached, reachedNamed, .free leftMove rest⟩
  | @read source middle target byte word step _ ih =>
      intro state inside named
      subst named
      rw [renames.target?_eq inside, Option.map_eq_some_iff] at step
      rcases step with ⟨next, leftStep, named⟩
      rcases ih next (inRange.target_lt leftStep) named
        with ⟨reached, reachedNamed, rest⟩
      exact ⟨reached, reachedNamed, .read leftStep rest⟩

/-- An initial state on the right is one on the left under its new name. -/
theorem exists_start (renames : Renames rename left right) {state : Nat}
    (starts : (right.flags state).start = true) :
    ∃ source, rename source = state ∧ (left.flags source).start = true := by
  by_contra unnamed
  have inside : state < right.size := lt_size_of_start starts
  have lookup : right.states[state]? = some right.states[state] :=
    Array.getElem?_eq_getElem inside
  have quiet := renames.quiet state _ lookup fun source inside named => by
    rw [← named, renames.flags_eq inside] at starts
    exact unnamed ⟨source, named, starts⟩
  rw [Nfa.flags_eq lookup, quiet] at starts
  cases starts

/-- What paths reach on the right is what they reach on the left, under its new
name. -/
theorem reaches_iff (renames : Renames rename left right)
    (inRange : left.InRange) {word : Bytes} {target : Nat} :
    right.Reaches word target ↔
      ∃ state, rename state = target ∧ left.Reaches word state := by
  constructor
  · intro reached
    rcases reached with ⟨source, starts, path⟩
    rcases renames.exists_start starts with ⟨origin, named, leftStarts⟩
    rcases renames.exists_path inRange path origin
        (lt_size_of_start leftStarts) named
      with ⟨state, stateNamed, leftPath⟩
    exact ⟨state, stateNamed, origin, leftStarts, leftPath⟩
  · intro reached
    rcases reached with ⟨state, rfl, source, starts, path⟩
    have inside := lt_size_of_start starts
    refine ⟨rename source, ?_, renames.path inRange inside path⟩
    rw [renames.flags_eq inside]
    exact starts

/-! ## Sets and verdicts -/

section Walks

variable (renames : Renames rename left right) (leftInRange : left.InRange)
  (rightInRange : right.InRange)
include renames leftInRange rightInRange

/-- After each word the states of the one walk are those of the other under
their new names. -/
theorem contains_readWord {word : Bytes} {target : Nat} :
    (right.readWord right.start word).contains target = true ↔
      ∃ state < left.size, rename state = target ∧
        (left.readWord left.start word).contains state = true := by
  rw [contains_readWord_start rightInRange, renames.reaches_iff leftInRange]
  constructor
  · intro reached
    rcases reached with ⟨state, named, leftReached⟩
    rcases leftReached with ⟨source, starts, path⟩
    refine ⟨state, leftInRange.path_lt path (lt_size_of_start starts), named, ?_⟩
    exact (contains_readWord_start leftInRange).mpr ⟨source, starts, path⟩
  · intro active
    rcases active with ⟨state, _, named, member⟩
    exact ⟨state, named, (contains_readWord_start leftInRange).mp member⟩

theorem contains_readWord_rename {word : Bytes} {state : Nat}
    (inside : state < left.size) :
    (right.readWord right.start word).contains (rename state) = true ↔
      (left.readWord left.start word).contains state = true := by
  rw [renames.contains_readWord leftInRange rightInRange]
  constructor
  · intro active
    rcases active with ⟨other, otherInside, named, member⟩
    rwa [← renames.injective other otherInside state inside named]
  · intro member
    exact ⟨state, inside, rfl, member⟩

/-- Words lead to one set under the old names exactly if they do under the new
ones. -/
theorem mergesAlike :
    Numbering.MergesAlike left.read left.start right.read right.start := by
  intro one other
  change left.readWord left.start one = left.readWord left.start other ↔
    right.readWord right.start one = right.readWord right.start other
  constructor
  · intro same
    apply (readWord_fits (start_fits right) one).ext
      (readWord_fits (start_fits right) other)
    intro state
    rw [renames.contains_readWord leftInRange rightInRange,
      renames.contains_readWord leftInRange rightInRange, same]
  · intro same
    have oneFits := readWord_fits (start_fits left) one
    have otherFits := readWord_fits (start_fits left) other
    apply oneFits.ext otherFits
    intro state
    by_cases inside : state < left.size
    · rw [← renames.contains_readWord_rename leftInRange rightInRange inside,
        ← renames.contains_readWord_rename leftInRange rightInRange inside, same]
    · constructor
      · intro member
        exact absurd (oneFits.below state member) inside
      · intro member
        exact absurd (otherFits.below state member) inside

/-- What holds of the marks of all active states on one side holds of them on
the other. -/
theorem forall_active_iff (word : Bytes) (property : Flags → Prop) :
    (∀ state, (right.readWord right.start word).contains state = true →
        property (right.flags state)) ↔
      ∀ state, (left.readWord left.start word).contains state = true →
        property (left.flags state) := by
  constructor
  · intro all state member
    have inside :=
      (readWord_fits (start_fits left) word).below state member
    rw [← renames.flags_eq inside]
    apply all
    exact (renames.contains_readWord_rename leftInRange rightInRange
      inside).mpr member
  · intro all state member
    rcases (renames.contains_readWord leftInRange rightInRange).mp member
      with ⟨source, inside, rfl, leftMember⟩
    rw [renames.flags_eq inside]
    exact all source leftMember

theorem status_readWord (word : Bytes) :
    left.status (left.readWord left.start word) =
      right.status (right.readWord right.start word) := by
  have accepts : left.status (left.readWord left.start word) = .accept ↔
      right.status (right.readWord right.start word) = .accept := by
    have none := renames.forall_active_iff leftInRange rightInRange word
      fun flags => ¬flags.accept = true
    rw [status_eq_accept_iff, status_eq_accept_iff]
    simpa using (not_congr none).symm
  have rejects : left.status (left.readWord left.start word) = .reject ↔
      right.status (right.readWord right.start word) = .reject := by
    rw [status_eq_reject_iff, status_eq_reject_iff, Ne, Ne, accepts,
      renames.forall_active_iff leftInRange rightInRange word
        fun flags => flags.reject = true]
  exact Status.eq_of_iff accepts rejects

/-- An automaton is made deterministic to the same states, with the same
verdicts and transitions, whatever its states are called and wherever they
stand. -/
theorem toDfa_eq : left.toDfa = right.toDfa := by
  have twins := Numbering.explore_twins
    (readEach_covers left) (Stretch.flatMap_bytes_stretches _)
    (read_bounded left)
    (readEach_covers right) (Stretch.flatMap_bytes_stretches _)
    (read_bounded right)
    (renames.mergesAlike leftInRange rightInRange)
  have rows : left.reachableSets.rows = right.reachableSets.rows := twins.rows
  have verdicts : left.reachableSets.keys.map left.status =
      right.reachableSets.keys.map right.status :=
    twins.map_keys (renames.status_readWord leftInRange rightInRange)
  rw [toDfa, toDfa, Numbering.toDfa, Numbering.toDfa, rows, verdicts]

theorem toDfa?_eq : right.toDfa? = some left.toDfa := by
  rw [renames.toDfa_eq leftInRange rightInRange]
  exact rightInRange.toDfa?_eq_some

end Walks

end Renames

end Nfa

end Munch
