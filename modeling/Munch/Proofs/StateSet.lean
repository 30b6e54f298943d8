import Mathlib.Data.List.Induction
import Mathlib.Logic.Relation
import Munch.Proofs.StateSet.Word

/-!
# Packed sets behave as sets

What is packed into words is seen through `contains` only. Every operation says
what it does to the members, the list of members is ascending and complete, and
two sets with the same room are equal as soon as they have the same members.
-/

namespace Munch

namespace StateSet

variable {set : StateSet} {state other : Nat}

/-! ## Members -/

theorem lt_room_of_contains (member : set.contains state = true) :
    state < set.room := by
  rw [contains] at member
  split at member
  next word found =>
      have below := (Array.getElem?_eq_some_iff.mp found).1
      rw [room, Nat.mul_comm]
      exact (Nat.div_lt_iff_lt_mul (by decide)).mp below
  next => cases member

theorem div_lt_size (room : state < set.room) :
    state / wordBits < set.words.size := by
  rw [StateSet.room, Nat.mul_comm] at room
  exact (Nat.div_lt_iff_lt_mul (by decide)).mpr room

theorem mod_lt_wordBits (state : Nat) : state % wordBits < wordBits :=
  Nat.mod_lt _ (by decide)

theorem contains_eq_test :
    set.contains state =
      Word.test (set.words[state / wordBits]?.getD 0) (state % wordBits) := by
  rw [contains]
  split
  next word found => rw [found, Option.getD_some]
  next missing => rw [missing, Option.getD_none,
    Word.test_zero (mod_lt_wordBits state)]

@[simp] theorem contains_empty (limit : Nat) :
    (empty limit).contains state = false := by
  rw [contains_eq_test, empty, Array.getElem?_replicate]
  split
  next => exact Word.test_zero (mod_lt_wordBits state)
  next => exact Word.test_zero (mod_lt_wordBits state)

@[simp] theorem limit_empty (limit : Nat) : (empty limit).limit = limit := rfl

theorem le_room_empty (limit : Nat) : limit ≤ (empty limit).room := by
  simp only [room, empty, Array.size_replicate, wordBits]
  omega

@[simp] theorem limit_insert : (set.insert state).limit = set.limit := rfl

@[simp] theorem size_words_insert :
    (set.insert state).words.size = set.words.size := by
  rw [insert, Array.size_modify]

@[simp] theorem room_insert : (set.insert state).room = set.room := by
  rw [room, size_words_insert, room]

theorem contains_insert (room : state < set.room) :
    (set.insert state).contains other =
      (set.contains other || decide (state = other)) := by
  rw [contains_eq_test, contains_eq_test, insert, Array.getElem?_modify]
  by_cases sameWord : state / wordBits = other / wordBits
  · have found := Array.getElem?_eq_getElem (div_lt_size room)
    rw [if_pos sameWord, ← sameWord, found, Option.map_some, Option.getD_some,
      Option.getD_some,
      Word.test_or_bit _ (mod_lt_wordBits state) (mod_lt_wordBits other)]
    congr 1
    rw [decide_eq_decide]
    constructor
    · intro sameBit
      rw [← Nat.div_add_mod state wordBits, ← Nat.div_add_mod other wordBits,
        sameWord, sameBit]
    · intro same
      rw [same]
  · have different : state ≠ other := fun same => sameWord (by rw [same])
    rw [if_neg sameWord, decide_eq_false different, Bool.or_false]

@[simp] theorem limit_clear : set.clear.limit = set.limit := rfl

@[simp] theorem size_words_clear : set.clear.words.size = set.words.size := by
  rw [clear, Array.size_map]

@[simp] theorem contains_clear : set.clear.contains state = false := by
  rw [contains, clear, Array.getElem?_map]
  cases set.words[state / wordBits]? with
  | none => rfl
  | some word => exact Word.test_zero (mod_lt_wordBits state)

/-- Where a bit of a word stands in the set. -/
theorem contains_at {index bit : Nat} (inWords : index < set.words.size)
    (inWord : bit < wordBits) :
    set.contains (wordBits * index + bit) =
      Word.test set.words[index] bit := by
  have place : (wordBits * index + bit) / wordBits = index := by
    rw [Nat.mul_add_div (by decide), Nat.div_eq_of_lt inWord, Nat.add_zero]
  rw [contains, place, Array.getElem?_eq_getElem inWords, Nat.mul_add_mod,
    Nat.mod_eq_of_lt inWord]

theorem isEmpty_iff :
    set.isEmpty = true ↔ ∀ state, set.contains state = false := by
  rw [isEmpty, Array.all_eq_true]
  constructor
  · intro zero state
    rw [contains]
    split
    next word found =>
        rcases Array.getElem?_eq_some_iff.mp found with ⟨below, rfl⟩
        rw [beq_iff_eq.mp (zero _ below)]
        exact Word.test_zero (mod_lt_wordBits state)
    next => rfl
  · intro none index below
    rw [beq_iff_eq]
    apply Word.ext
    intro bit inWord
    rw [← contains_at below inWord, none, Word.test_zero inWord]

/-! ## The list of members -/

@[simp] theorem mem_toList : state ∈ set.toList ↔
    set.contains state = true := by
  simp only [toList, List.mem_flatMap, List.mem_map, Word.mem_bits, Prod.exists,
    List.mem_zipIdx_iff_getElem?, Array.getElem?_toList]
  constructor
  · intro listed
    rcases listed with ⟨word, index, found, bit, ⟨below, set⟩, rfl⟩
    rcases Array.getElem?_eq_some_iff.mp found with ⟨inWords, rfl⟩
    rwa [contains_at inWords below]
  · intro member
    have found :=
      Array.getElem?_eq_getElem (div_lt_size (lt_room_of_contains member))
    rw [contains_eq_test, found, Option.getD_some] at member
    exact ⟨_, state / wordBits, found, state % wordBits,
      ⟨mod_lt_wordBits state, member⟩, Nat.div_add_mod state wordBits⟩

/-- The members are listed in strictly ascending order, so none is listed
twice. -/
theorem toList_ascending (set : StateSet) : set.toList.Pairwise (· < ·) := by
  rw [toList, List.pairwise_flatMap]
  constructor
  · intro entry _
    rw [List.pairwise_map]
    exact (Word.bits_ascending entry.1).imp fun less =>
      Nat.add_lt_add_left less _
  · have indices : (set.words.toList.zipIdx.map Prod.snd).Pairwise (· < ·) := by
      rw [List.zipIdx_map_snd]
      exact List.pairwise_lt_range'
    rw [List.pairwise_map] at indices
    apply indices.imp
    intro left right less lower lowerMem higher higherMem
    rcases List.mem_map.mp lowerMem with ⟨lowBit, lowBitMem, rfl⟩
    rcases List.mem_map.mp higherMem with ⟨highBit, _, rfl⟩
    have below := (Word.mem_bits.mp lowBitMem).1
    have words := Nat.mul_le_mul_left wordBits (Nat.succ_le_of_lt less)
    rw [Nat.mul_succ] at words
    omega

theorem toList_nodup (set : StateSet) : set.toList.Nodup :=
  set.toList_ascending.imp Nat.ne_of_lt

theorem size_eq_length (set : StateSet) : set.size = set.toList.length := by
  have counts := congrArg (List.map Word.ones)
    (List.zipIdx_map_fst 0 set.words.toList)
  rw [List.map_map] at counts
  have sum : set.size = (set.words.toList.map Word.ones).sum := by
    rw [List.sum_eq_foldr, List.foldr_map]
    rfl
  rw [sum, toList, List.length_flatMap, ← counts]
  simp [Function.comp_def, Word.length_bits]

/-! ## Equal sets -/

/-- A set is determined by its limit, its room and its members. -/
theorem ext {left right : StateSet} (limit : left.limit = right.limit)
    (words : left.words.size = right.words.size)
    (agree : ∀ state, left.contains state = right.contains state) :
    left = right := by
  cases left with
  | mk leftLimit leftWords =>
      cases right with
      | mk rightLimit rightWords =>
          simp only at limit words
          subst limit
          congr 1
          apply Array.ext words
          intro index leftBelow rightBelow
          apply Word.ext
          intro bit inWord
          have bits := agree (wordBits * index + bit)
          rwa [contains_at leftBelow inWord, contains_at rightBelow inWord]
            at bits

/-! ## Adding several states -/

/-- What `insertNew` leaves behind: the same room, the listed states added, and
the list of those that were not members before. -/
structure Added (set : StateSet) (states : List Nat)
    (result : StateSet × List Nat) : Prop where
  limit : result.1.limit = set.limit
  words : result.1.words.size = set.words.size
  contains : ∀ state, result.1.contains state = true ↔
    set.contains state = true ∨ state ∈ states
  nodup : result.2.Nodup
  mem_fresh : ∀ state, state ∈ result.2 ↔
    state ∈ states ∧ set.contains state = false

theorem Added.room {states : List Nat} {result : StateSet × List Nat}
    (added : Added set states result) : result.1.room = set.room := by
  rw [StateSet.room, added.words, StateSet.room]

theorem insertNew_added (set : StateSet) (states : List Nat)
    (room : ∀ state ∈ states, state < set.room) :
    Added set states (set.insertNew states) := by
  induction states using List.reverseRecOn with
  | nil => exact ⟨rfl, rfl, by simp [insertNew],
    List.nodup_nil, by simp [insertNew]⟩
  | append_singleton states state ih =>
      have added := ih fun earlier member =>
        room earlier (List.mem_append_left _ member)
      have fits : state < (set.insertNew states).1.room := by
        rw [added.room]
        exact room state (List.mem_append_right _ List.mem_cons_self)
      have unfolded : set.insertNew (states ++ [state]) =
          if (set.insertNew states).1.contains state then set.insertNew states
          else ((set.insertNew states).1.insert state,
            state :: (set.insertNew states).2) := by
        rw [insertNew, List.foldl_append]
        rfl
      rw [unfolded]
      by_cases known : (set.insertNew states).1.contains state = true
      · rw [if_pos known]
        have already := (added.contains state).mp known
        refine ⟨added.limit, added.words, fun other => ?_, added.nodup,
          fun other => ?_⟩
        · rw [added.contains, List.mem_append, List.mem_singleton]
          grind
        · rw [added.mem_fresh, List.mem_append, List.mem_singleton]
          grind
      · rw [if_neg known]
        rw [added.contains, not_or] at known
        refine ⟨added.limit, ?_, fun other => ?_, ?_, fun other => ?_⟩
        · rw [size_words_insert, added.words]
        · rw [contains_insert fits, Bool.or_eq_true, decide_eq_true_iff,
            added.contains, List.mem_append, List.mem_singleton, or_assoc,
              @eq_comm _ state other]
        · apply List.nodup_cons.mpr
          exact ⟨fun member => known.2 ((added.mem_fresh state).mp member).1,
            added.nodup⟩
        · rw [List.mem_cons, added.mem_fresh, List.mem_append,
            List.mem_singleton]
          grind

theorem size_of_added {states : List Nat} {result : StateSet × List Nat}
    (added : Added set states result) :
    result.1.size = set.size + result.2.length := by
  rw [size_eq_length, size_eq_length, ← List.length_append]
  apply List.Perm.length_eq
  apply (List.perm_ext_iff_of_nodup result.1.toList_nodup ?_).mpr
  · intro state
    rw [mem_toList, added.contains, List.mem_append, mem_toList,
      added.mem_fresh]
    grind
  · apply List.nodup_append.mpr
    refine ⟨set.toList_nodup, added.nodup, ?_⟩
    intro left leftMem right rightMem same
    subst same
    rw [mem_toList, ((added.mem_fresh left).mp rightMem).2] at leftMem
    cases leftMem

theorem size_le_of_below {limit : Nat}
    (below : ∀ state, set.contains state = true → state < limit) :
    set.size ≤ limit := by
  rw [size_eq_length, ← List.length_range (n := limit)]
  apply List.Subperm.length_le
  apply List.subperm_of_subset set.toList_nodup
  intro state member
  exact List.mem_range.mpr (below state (mem_toList.mp member))

/-! ## Following moves -/

section Spread

variable {moves : Nat → List Nat} {limit : Nat}

/-- A step along one of the moves. -/
def Move (moves : Nat → List Nat) (source target : Nat) : Prop :=
  target ∈ moves source

/-- What holds before each round: all members lie below the limit, those of the
frontier among them, and only members of the frontier may have moves that lead
to something new. -/
structure Spreading (moves : Nat → List Nat) (limit : Nat) (reached : StateSet)
    (frontier : List Nat) : Prop where
  room : limit ≤ reached.room
  below : ∀ state, reached.contains state = true → state < limit
  frontier_mem : ∀ state ∈ frontier, reached.contains state = true
  settled : ∀ state, reached.contains state = true → state ∈ frontier ∨
    ∀ target ∈ moves state, reached.contains target = true

theorem Spreading.next {reached : StateSet} {frontier : List Nat}
    (spreading : Spreading moves limit reached frontier)
    (inside : ∀ state, ∀ target ∈ moves state, target < limit)
    {result : StateSet × List Nat}
    (added : Added reached (frontier.flatMap moves) result) :
    Spreading moves limit result.1 result.2 where
  room := by
    rw [added.room]
    exact spreading.room
  below := by
    intro state member
    rcases (added.contains state).mp member with old | new
    · exact spreading.below state old
    · rcases List.mem_flatMap.mp new with ⟨source, _, move⟩
      exact inside source state move
  frontier_mem := by
    intro state member
    exact (added.contains state).mpr
      (.inr ((added.mem_fresh state).mp member).1)
  settled := by
    intro state member
    by_cases old : reached.contains state = true
    · right
      intro target move
      rcases spreading.settled state old with active | settled
      · exact (added.contains target).mpr
          (.inr (List.mem_flatMap.mpr ⟨state, active, move⟩))
      · exact (added.contains target).mpr (.inl (settled target move))
    · left
      rcases (added.contains state).mp member with known | new
      · exact absurd known old
      · exact (added.mem_fresh state).mpr ⟨new, Bool.eq_false_iff.mpr old⟩

/-- Whatever a round adds is one move away from what was there, so moves reach
the same before and after. -/
theorem Spreading.reach_iff {reached : StateSet} {frontier : List Nat}
    (spreading : Spreading moves limit reached frontier)
    {result : StateSet × List Nat}
    (added : Added reached (frontier.flatMap moves) result) (target : Nat) :
    (∃ source, result.1.contains source = true ∧
        Relation.ReflTransGen (Move moves) source target) ↔
      ∃ source, reached.contains source = true ∧
        Relation.ReflTransGen (Move moves) source target := by
  constructor
  · rintro ⟨source, member, path⟩
    rcases (added.contains source).mp member with old | new
    · exact ⟨source, old, path⟩
    · rcases List.mem_flatMap.mp new with ⟨origin, active, move⟩
      exact ⟨origin, spreading.frontier_mem origin active, .head move path⟩
  · rintro ⟨source, member, path⟩
    exact ⟨source, (added.contains source).mpr (.inl member), path⟩

/-- With an empty frontier no move leads out of what is reached. -/
theorem Spreading.closed {reached : StateSet}
    (spreading : Spreading moves limit reached []) {source target : Nat}
    (member : reached.contains source = true)
    (path : Relation.ReflTransGen (Move moves) source target) :
    reached.contains target = true := by
  induction path with
  | refl => exact member
  | tail _ move ih =>
      exact ((spreading.settled _ ih).resolve_left List.not_mem_nil) _ move

/-- With a round for every state that is not reached yet, `spread` ends with
exactly what moves can reach. -/
theorem spread_reachable
    (inside : ∀ state, ∀ target ∈ moves state, target < limit) :
    (rounds : Nat) → (reached : StateSet) → (frontier : List Nat) →
    Spreading moves limit reached frontier → limit < rounds + reached.size →
    let result := spread moves rounds reached frontier
    result.limit = reached.limit ∧ result.words.size = reached.words.size ∧
      ∀ target, result.contains target = true ↔
        ∃ source, reached.contains source = true ∧
          Relation.ReflTransGen (Move moves) source target
  | 0, reached, frontier, spreading, enough => by
      have bounded := size_le_of_below spreading.below
      omega
  | rounds + 1, reached, frontier, spreading, enough => by
      have targetsRoom : ∀ target ∈ frontier.flatMap moves,
          target < reached.room := by
        intro target member
        rcases List.mem_flatMap.mp member with ⟨source, _, move⟩
        exact (inside source target move).trans_le spreading.room
      have added := insertNew_added reached (frontier.flatMap moves) targetsRoom
      have next := spreading.next inside added
      have grown := size_of_added added
      rw [spread]
      split
      next result equal =>
          rw [equal] at added next
          refine ⟨added.limit, added.words, fun target => ?_⟩
          rw [← spreading.reach_iff added]
          constructor
          · intro member
            exact ⟨target, member, .refl⟩
          · rintro ⟨source, member, path⟩
            exact next.closed member path
      next result state fresh equal =>
          rw [equal] at added next grown
          rw [List.length_cons] at grown
          have rest :=
            spread_reachable inside rounds result (state :: fresh) next
              (by simp only at grown; omega)
          refine ⟨rest.1.trans added.limit, rest.2.1.trans added.words,
            fun target => ?_⟩
          rw [rest.2.2 target]
          exact spreading.reach_iff added target

end Spread

end StateSet

end Munch
