import Mathlib.Data.Set.Card
import Munch.Proofs.Dfa.Paths

/-!
# Walks from any set of states

A walk may begin in any states, not only in the initial ones. While it reads a
word, byte by byte, it is in the states to which paths lead that spell what has
been read, and it counts them rightly. Before the first byte these are the
states it begins in and what they can reach freely, the least set that has them
and is closed under free moves.
-/

namespace Munch

namespace Nfa

variable {nfa : Nfa}

/-! ## Counting members -/

/-- Members with a property are counted as the set of such states has them. -/
theorem countP_toList_eq_ncard (active : StateSet) (test : Nat → Bool) :
    active.toList.countP test =
      {state | active.contains state = true ∧ test state = true}.ncard := by
  have listed :
      ((active.toList.filter test).toFinset : Set Nat) =
        {state | active.contains state = true ∧ test state = true} := by
    ext state
    simp
  rw [← listed, Set.ncard_coe_finset,
    List.toFinset_card_of_nodup (active.toList_nodup.filter test),
    List.countP_eq_length_filter]

/-- What a walk says of itself when it is in exactly the given states: which
they are, how many, and how many of them accept and reject. -/
structure Tracks (nfa : Nfa) (active : StateSet) (reached : Set Nat) :
    Prop where
  contains : ∀ state, active.contains state = true ↔ state ∈ reached
  size : active.size = reached.ncard
  accepting : nfa.countWith active .onlyAccept =
    {state ∈ reached | (nfa.flags state).accept = true}.ncard
  rejecting : nfa.countWith active .onlyReject =
    {state ∈ reached | (nfa.flags state).reject = true}.ncard

theorem tracks_of_contains {active : StateSet} {reached : Set Nat}
    (agree : ∀ state, active.contains state = true ↔ state ∈ reached) :
    nfa.Tracks active reached where
  contains := agree
  size := by
    have counted := countP_toList_eq_ncard active fun _ => true
    simp only [List.countP_true, and_true, agree, Set.ofPred_mem_eq] at counted
    rw [StateSet.size_eq_length, counted]
  accepting := by
    rw [countWith, countP_toList_eq_ncard]
    simp only [agree, contains_onlyAccept]
  rejecting := by
    rw [countWith, countP_toList_eq_ncard]
    simp only [agree, contains_onlyReject]

/-! ## Nothing is refused -/

namespace InRange

theorem staysFreely (inRange : nfa.InRange) (active : StateSet) :
    nfa.staysFreely active = true := by
  rw [Nfa.staysFreely, List.all_eq_true]
  intro state _
  rw [List.all_eq_true]
  intro target move
  exact decide_eq_true (inRange.epsilon_lt move)

theorem activate?_eq_some (inRange : nfa.InRange) {states : List Nat}
    (inside : ∀ state ∈ states, state < nfa.size) :
    nfa.activate? states = some (nfa.activate states) := by
  have all : states.all (· < nfa.size) = true := by
    rw [List.all_eq_true]
    intro state listed
    exact decide_eq_true (inside state listed)
  rw [activate?, all, inRange.staysFreely, Bool.and_self, if_pos rfl]

theorem start?_eq_some (inRange : nfa.InRange) :
    nfa.start? = some nfa.start := by
  apply inRange.activate?_eq_some
  intro state listed
  rw [statesWith, List.mem_filter, List.mem_range] at listed
  exact listed.1

theorem read?_eq_some (inRange : nfa.InRange) (active : StateSet)
    (byte : UInt8) :
    nfa.read? active byte = some (nfa.read active byte) := by
  apply inRange.activate?_eq_some
  intro target listed
  rcases mem_targets.mp listed with ⟨state, _, step⟩
  exact inRange.target_lt step

/-- The sets that a walk goes through are those after the beginnings of its
word. -/
theorem trail?_eq_some (inRange : nfa.InRange) (active : StateSet)
    (word : Bytes) :
    nfa.trail? active word =
      some ((List.range (word.length + 1)).map fun count =>
        nfa.readWord active (word.take count)) := by
  induction word generalizing active with
  | nil => rfl
  | cons byte word ih =>
      rw [trail?, inRange.read?_eq_some]
      simp only [bind, Option.bind_some, ih]
      rw [List.length_cons, @List.range_succ_eq_map (word.length + 1),
        List.map_cons, List.map_map]
      rfl

/-- The states that paths reach are states, so a walk knows all of them. -/
theorem tracks_readWord (inRange : nfa.InRange) {states : List Nat}
    (inside : ∀ state ∈ states, state < nfa.size) (word : Bytes) :
    nfa.Tracks (nfa.readWord (nfa.activate states) word)
      {state | nfa.PathFrom states word state} := by
  apply tracks_of_contains
  intro state
  rw [contains_readWord]
  constructor
  · intro reached
    exact reached.2
  · intro path
    rcases path with ⟨source, listed, path⟩
    exact ⟨inRange.path_lt path (inside source listed), source, listed, path⟩

end InRange

/-! ## Free moves -/

/-- A set that is closed under free moves holds whatever paths that read nothing
lead to from its members. -/
theorem Path.mem_of_closed {closed : Set Nat}
    (moves : ∀ source ∈ closed, ∀ target ∈ nfa.epsilons source,
      target ∈ closed)
    {source target : Nat} (path : nfa.Path source [] target)
    (member : source ∈ closed) : target ∈ closed := by
  -- The induction needs a word that varies, although only the empty one occurs.
  generalize equal : ([] : Bytes) = word at path
  induction path with
  | here => exact member
  | free move _ ih => exact ih (moves _ member _ move) equal
  | read => cases equal

/-- It does not matter in which order, and how often, the states are listed that
a walk begins in. -/
theorem activate_congr {left right : List Nat}
    (same : ∀ state, state ∈ left ↔ state ∈ right) :
    nfa.activate left = nfa.activate right := by
  apply (activate_fits left).ext (activate_fits right)
  intro state
  rw [contains_activate, contains_activate, PathFrom, PathFrom]
  simp only [same]

/-- From any states, a walk goes through one set for each beginning of its word:
the states that paths reach when they spell that beginning. The first of these
sets is the least one that has the states it begins in and is closed under free
moves. A walk from the initial states is the ordinary one. -/
theorem trail?_tracks (inRange : nfa.InRange) {states : List Nat}
    (inside : ∀ state ∈ states, state < nfa.size) (word : Bytes) :
    ∃ first trail, nfa.activate? states = some first ∧
      nfa.trail? first word = some trail ∧
      trail.length = word.length + 1 ∧
      (∀ count active, trail[count]? = some active →
        nfa.Tracks active
          {state | nfa.PathFrom states (word.take count) state}) ∧
      ((∀ state ∈ states, first.contains state = true) ∧
        (∀ source, first.contains source = true →
          ∀ target ∈ nfa.epsilons source, first.contains target = true) ∧
        ∀ closed : Set Nat, (∀ state ∈ states, state ∈ closed) →
          (∀ source ∈ closed, ∀ target ∈ nfa.epsilons source,
            target ∈ closed) →
          ∀ state, first.contains state = true → state ∈ closed) ∧
      ((∀ state, state ∈ states ↔ (nfa.flags state).start = true) →
        nfa.start? = some first) := by
  have beginning := (inRange.tracks_readWord inside []).contains
  refine ⟨nfa.activate states, _, inRange.activate?_eq_some inside,
    inRange.trail?_eq_some _ word, by simp, ?_, ⟨?_, ?_, ?_⟩, ?_⟩
  · intro count active found
    rw [List.getElem?_map, Option.map_eq_some_iff] at found
    rcases found with ⟨read, place, rfl⟩
    rcases List.getElem?_eq_some_iff.mp place with ⟨_, same⟩
    rw [List.getElem_range] at same
    rw [same]
    exact inRange.tracks_readWord inside _
  · intro state listed
    exact (beginning state).mpr ⟨state, listed, .here⟩
  · intro source member target move
    rcases (beginning source).mp member with ⟨origin, listed, path⟩
    exact (beginning target).mpr
      ⟨origin, listed, path.append (.free move .here)⟩
  · intro closed includes moves state member
    rcases (beginning state).mp member with ⟨origin, listed, path⟩
    exact path.mem_of_closed moves (includes origin listed)
  · intro starts
    have initial : nfa.activate states =
        nfa.activate (nfa.statesWith .onlyStart) := by
      apply activate_congr
      intro state
      rw [starts, mem_statesWith_onlyStart]
    rw [start?, initial]
    apply inRange.activate?_eq_some
    intro state listed
    exact lt_size_of_start (mem_statesWith_onlyStart.mp listed)

/-- Two states move freely to each other. Any byte leads from the first of them
to itself, from the second to a third state that both accepts and rejects, and
from there to the second. -/
def roundabout : Nfa :=
  ⟨#[⟨.onlyStart, .const 0, [1]⟩, ⟨.onlyReject, .const 2, [0]⟩,
    ⟨⟨false, true, true⟩, .const 1, []⟩]⟩

theorem inRange_roundabout : roundabout.InRange := by
  intro state listed
  simp only [roundabout, List.mem_toArray, List.mem_cons, List.not_mem_nil,
    or_false] at listed
  rcases listed with rfl | rfl | rfl <;> simp [roundabout, Nfa.size]

/-- Walking from a state that is not initial: behind one byte all three states
are active, two of which reject and one of which accepts. -/
theorem trail?_roundabout :
    roundabout.InRange ∧ (∀ state ∈ [1, 1], state < roundabout.size) ∧
      ∃ before behind, roundabout.activate? [1, 1] = some before ∧
        roundabout.trail? before [97] = some [before, behind] ∧
        before.toList = [0, 1] ∧ behind.toList = [0, 1, 2] ∧
        {state | roundabout.PathFrom [1, 1] [97] state}.ncard = 3 ∧
        {state ∈ {state | roundabout.PathFrom [1, 1] [97] state} |
          (roundabout.flags state).reject = true}.ncard = 2 := by
  have inside : ∀ state ∈ [1, 1], state < roundabout.size := by decide
  rcases trail?_tracks inRange_roundabout inside [97] with
    ⟨first, trail, activated, walked, -, tracks, -, -⟩
  have before : first = ⟨3, #[0b011]⟩ := by
    apply Option.some.inj
    rw [← activated]
    decide +kernel
  have sets : trail = [⟨3, #[0b011]⟩, ⟨3, #[0b111]⟩] := by
    apply Option.some.inj
    rw [← walked, before]
    decide +kernel
  subst before sets
  have tracked := tracks 1 ⟨3, #[0b111]⟩ rfl
  refine ⟨inRange_roundabout, inside, _, _, activated, walked,
    by decide +kernel, by decide +kernel, ?_, ?_⟩
  · exact tracked.size.symm.trans (by decide +kernel)
  · exact tracked.rejecting.symm.trans (by decide +kernel)

end Nfa

end Munch
