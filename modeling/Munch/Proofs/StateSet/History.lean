import Mathlib.Data.Set.Card
import Munch.Proofs.StateSet

/-!
# Sets and their history

Sets stand side by side, each with a limit of its own. A call adds a state to one
of them or empties it. At any time a set is what its history says, a finite set
of numbers: those that were added to it since it was last emptied. Nothing else
of the history is left in it, so two sets with the same limit and the same
members are equal.
-/

namespace Munch

namespace StateSet

/-- A call on one of several sets, which is named by its place. -/
inductive Call where
  | insert (place state : Nat)
  | clear (place : Nat)

namespace Call

/-- The place of the set that is called. -/
def place : Call → Nat
  | insert place _ => place
  | clear place => place

/-- Whether there is a set to call, and a state to be added lies below its
limit. -/
def Fits (limits : List Nat) : Call → Prop
  | insert place state => ∃ limit, limits[place]? = some limit ∧ state < limit
  | clear place => place < limits.length

theorem Fits.place_lt {limits : List Nat} {call : Call}
    (fits : call.Fits limits) : call.place < limits.length := by
  cases call with
  | insert place state =>
      rcases fits with ⟨limit, found, -⟩
      exact (List.getElem?_eq_some_iff.mp found).1
  | clear place => exact fits

/-- What the set that is called does. An insertion is answered. -/
def serve? : Call → StateSet → Option (Option Bool × StateSet)
  | insert _ state, set => do
      let (fresh, set) ← set.insert? state
      some (some fresh, set)
  | clear _, set => some (none, set.clear)

/-- Call one of the sets; the others stay as they are. -/
def make? (call : Call) (sets : List StateSet) :
    Option (Option Bool × List StateSet) := do
  let set ← sets[call.place]?
  let (answer, set) ← call.serve? set
  some (answer, sets.set call.place set)

/-- Make calls one after another. The answers come with the sets that are left
behind. -/
def makeAll? : (calls : List Call) → (sets : List StateSet) →
    Option (List (Option Bool) × List StateSet)
  | [], sets => some ([], sets)
  | call :: calls, sets => do
      let (answer, sets) ← call.make? sets
      let (answers, sets) ← makeAll? calls sets
      some (answer :: answers, sets)

/-- A state that was added to the set at a place, which was not emptied since. -/
def Kept (calls : List Call) (place state : Nat) : Prop :=
  ∃ earlier later, calls = earlier ++ .insert place state :: later ∧
    .clear place ∉ later

@[simp] theorem not_kept_nil {place state : Nat} : ¬Kept [] place state := by
  rintro ⟨earlier, later, split, -⟩
  simp at split

/-- What one more call does to the states that are kept. -/
theorem kept_concat {calls : List Call} {call : Call} {place state : Nat} :
    Kept (calls ++ [call]) place state ↔
      call = .insert place state ∨
        (Kept calls place state ∧ call ≠ .clear place) := by
  constructor
  · rintro ⟨earlier, later, split, since⟩
    rcases List.eq_nil_or_concat later with rfl | ⟨later, last, rfl⟩
    · left
      exact List.singleton_inj.mp (List.append_inj' split rfl).2
    · right
      rw [List.concat_eq_append, List.mem_append, not_or,
        List.mem_singleton] at since
      rw [List.concat_eq_append, ← List.cons_append,
        ← List.append_assoc] at split
      have parts := List.append_inj' split rfl
      rw [List.singleton_inj.mp parts.2]
      exact ⟨⟨earlier, later, parts.1, since.1⟩, Ne.symm since.2⟩
  · rintro (rfl | ⟨⟨earlier, later, rfl, since⟩, other⟩)
    · exact ⟨calls, [], rfl, List.not_mem_nil⟩
    · refine ⟨earlier, later ++ [call], by simp, ?_⟩
      rw [List.mem_append, not_or, List.mem_singleton]
      exact ⟨since, other.symm⟩

end Call

open Call

variable {limit : Nat} {members : Nat → Prop} {set : StateSet}

/-! ## One set -/

/-- A set with a given limit and the room for it, and with given members. -/
structure Records (limit : Nat) (members : Nat → Prop) (set : StateSet) :
    Prop where
  limit_eq : set.limit = limit
  words : set.words.size = (empty limit).words.size
  contains : ∀ state, set.contains state = true ↔ members state

namespace Records

theorem ofEmpty (limit : Nat) : Records limit (fun _ => False) (empty limit) :=
  ⟨rfl, rfl, by simp⟩

theorem clear (records : Records limit members set) :
    Records limit (fun _ => False) set.clear :=
  ⟨limit_clear.trans records.limit_eq, size_words_clear.trans records.words,
    by simp⟩

theorem lt_room (records : Records limit members set) {state : Nat}
    (below : state < limit) : state < set.room := by
  rw [room, records.words]
  exact below.trans_le (le_room_empty limit)

theorem insert (records : Records limit members set) {state : Nat}
    (below : state < limit) :
    Records limit (fun other => state = other ∨ members other)
      (set.insert state) where
  limit_eq := records.limit_eq
  words := size_words_insert.trans records.words
  contains other := by
    rw [contains_insert (records.lt_room below), Bool.or_eq_true,
      decide_eq_true_iff, records.contains, or_comm]

theorem congr (records : Records limit members set) {others : Nat → Prop}
    (same : ∀ state, members state ↔ others state) :
    Records limit others set :=
  ⟨records.limit_eq, records.words,
    fun state => (records.contains state).trans (same state)⟩

/-- Nothing of a set but its limit and its members can be told apart. -/
theorem eq_iff {otherLimit : Nat} {others : Nat → Prop} {other : StateSet}
    (left : Records limit members set)
    (right : Records otherLimit others other) :
    set = other ↔
      limit = otherLimit ∧ ∀ state, members state ↔ others state := by
  constructor
  · rintro rfl
    refine ⟨left.limit_eq.symm.trans right.limit_eq, fun state => ?_⟩
    rw [← left.contains, right.contains]
  · rintro ⟨rfl, same⟩
    apply ext (left.limit_eq.trans right.limit_eq.symm)
      (left.words.trans right.words.symm)
    intro state
    rw [Bool.eq_iff_iff, left.contains, right.contains, same]

end Records

/-- All that can be asked of a set agrees with a collection of numbers: which are
members, the list of the members, how many they are, and whether there is none.
A number below the limit is never refused. -/
structure Shows (limit : Nat) (members : Set Nat) (set : StateSet) : Prop where
  limit_eq : set.limit = limit
  contains : ∀ state < limit, ∃ answer, set.contains? state = some answer ∧
    (answer = true ↔ state ∈ members)
  listed : ∀ state, state ∈ set.toList ↔ state ∈ members
  ascending : set.toList.Pairwise (· < ·)
  size : set.size = members.ncard
  isEmpty : set.isEmpty = true ↔ members = ∅

theorem Records.shows (records : Records limit members set) :
    Shows limit {state | members state} set where
  limit_eq := records.limit_eq
  contains state below := by
    refine ⟨set.contains state, ?_, records.contains state⟩
    rw [contains?, if_pos (records.lt_room below)]
  listed state := by
    rw [mem_toList, records.contains, Set.mem_ofPred_eq]
  ascending := set.toList_ascending
  size := by
    have all : {state | members state} = ↑set.toList.toFinset := by
      ext state
      rw [List.coe_toFinset, Set.mem_ofPred_eq, Set.mem_ofPred_eq, mem_toList,
        records.contains]
    rw [all, Set.ncard_coe_finset, List.toFinset_card_of_nodup set.toList_nodup,
      size_eq_length]
  isEmpty := by
    rw [isEmpty_iff, Set.eq_empty_iff_forall_notMem]
    apply forall_congr'
    intro state
    rw [Set.mem_ofPred_eq, ← records.contains, Bool.not_eq_true]

/-! ## Sets side by side -/

/-- The sets that calls leave behind: each with its limit, and with the states
that are kept. -/
structure Tracks (limits : List Nat) (calls : List Call)
    (sets : List StateSet) : Prop where
  length : sets.length = limits.length
  records : ∀ {place limit set}, limits[place]? = some limit →
    sets[place]? = some set → Records limit (Kept calls place) set

/-- An insertion is answered by whether the state was not kept before. -/
def Answered (earlier : List Call) (call : Call) (answer : Option Bool) : Prop :=
  ∀ place state, call = .insert place state →
    ∃ fresh, answer = some fresh ∧
      (fresh = true ↔ ¬Kept earlier place state)

variable {limits : List Nat} {sets : List StateSet} {earlier : List Call}

theorem tracks_empty (limits : List Nat) :
    Tracks limits [] (limits.map empty) where
  length := List.length_map _
  records {place limit set} known found := by
    rw [List.getElem?_map, known, Option.map_some, Option.some.injEq] at found
    subst found
    exact (Records.ofEmpty limit).congr fun state => by simp

/-- The set that is called answers as its history tells, and then has the members
of the history with the call. -/
theorem Records.serve? {call : Call}
    (records : Records limit (Kept earlier call.place) set)
    (known : limits[call.place]? = some limit) (fits : call.Fits limits) :
    ∃ answer next, call.serve? set = some (answer, next) ∧
      Answered earlier call answer ∧
      Records limit (Kept (earlier ++ [call]) call.place) next := by
  cases call with
  | insert place state =>
      rcases fits with ⟨other, found, below⟩
      have same : other = limit := Option.some.inj (found.symm.trans known)
      subst same
      refine ⟨some (!set.contains state), set.insert state, ?_, ?_, ?_⟩
      · rw [Call.serve?, insert?, if_pos (records.lt_room below)]
        rfl
      · rintro _ _ ⟨⟩
        refine ⟨_, rfl, ?_⟩
        rw [Bool.not_eq_true', ← Bool.not_eq_true, records.contains]
        rfl
      · apply (records.insert below).congr
        intro other
        rw [kept_concat]
        simp [Call.place]
  | clear place =>
      refine ⟨none, set.clear, rfl, ?_, ?_⟩
      · rintro _ _ ⟨⟩
      · apply records.clear.congr
        intro state
        rw [kept_concat]
        simp [Call.place]

/-- A call is answered as the history tells, and changes the history of no other
set. -/
theorem Tracks.make? (tracks : Tracks limits earlier sets) {call : Call}
    (fits : call.Fits limits) :
    ∃ answer next, call.make? sets = some (answer, next) ∧
      Answered earlier call answer ∧
      Tracks limits (earlier ++ [call]) next := by
  have inLimits : call.place < limits.length := fits.place_lt
  have inSets : call.place < sets.length := tracks.length.symm ▸ inLimits
  have known := List.getElem?_eq_getElem inLimits
  have found := List.getElem?_eq_getElem inSets
  rcases (tracks.records known found).serve? known fits with
    ⟨answer, next, served, answered, records⟩
  refine ⟨answer, sets.set call.place next, ?_, answered, ?_, ?_⟩
  · rw [Call.make?, found, Option.bind_eq_bind, Option.bind_some, served]
    rfl
  · rw [List.length_set, tracks.length]
  · intro place limit set inPlace left
    by_cases called : call.place = place
    · subst called
      rw [List.getElem?_set_self inSets, Option.some.injEq] at left
      rw [known, Option.some.injEq] at inPlace
      subst left inPlace
      exact records
    · rw [List.getElem?_set_ne called] at left
      apply (tracks.records inPlace left).congr
      intro state
      rw [kept_concat]
      have elsewhere : call ≠ .insert place state ∧ call ≠ .clear place := by
        constructor <;> rintro rfl <;> exact called rfl
      simp [elsewhere]

/-- All calls are answered as the history up to them tells. -/
theorem Tracks.makeAll? (tracks : Tracks limits earlier sets) (calls : List Call)
    (fits : ∀ call ∈ calls, call.Fits limits) :
    ∃ answers left, makeAll? calls sets = some (answers, left) ∧
      Tracks limits (earlier ++ calls) left ∧
      ∀ before call behind, calls = before ++ call :: behind →
        ∃ answer, answers[before.length]? = some answer ∧
          Answered (earlier ++ before) call answer := by
  -- The calls that are made become history for those that are left.
  induction calls generalizing earlier sets with
  | nil =>
      refine ⟨[], sets, rfl, by rwa [List.append_nil], ?_⟩
      intro before call behind split
      simp at split
  | cons call calls ih =>
      rcases tracks.make? (fits call List.mem_cons_self) with
        ⟨answer, next, made, answered, after⟩
      rcases ih after fun later member =>
          fits later (List.mem_cons_of_mem call member) with
        ⟨answers, left, rest, onward, each⟩
      rw [List.append_assoc, List.singleton_append] at onward
      refine ⟨answer :: answers, left, ?_, onward, ?_⟩
      · rw [Call.makeAll?, made, Option.bind_eq_bind, Option.bind_some]
        dsimp only
        rw [rest]
        rfl
      · intro before other behind split
        cases before with
        | nil =>
            rw [List.nil_append, List.cons.injEq] at split
            rw [← split.1, List.append_nil]
            exact ⟨answer, rfl, answered⟩
        | cons first before =>
            rw [List.cons_append, List.cons.injEq] at split
            rcases each before other behind split.2 with ⟨found, listed, right⟩
            rw [List.append_assoc, List.singleton_append, split.1] at right
            exact ⟨found, listed, right⟩

/-- Sets with any limits, through any calls that insert states below the limits
and empty sets: all calls succeed, and an insertion is answered by whether the
state was not a member. What is left shows in each place, by every operation, the
states that were inserted there and not cleared since. Two of the sets are equal
if and only if they have the same limit and the same members. -/
theorem makeAll?_shows (limits : List Nat) (calls : List Call)
    (fits : ∀ call ∈ calls, call.Fits limits) :
    ∃ answers sets, makeAll? calls (limits.map empty) = some (answers, sets) ∧
      (∀ earlier place state later,
        calls = earlier ++ .insert place state :: later →
        ∃ fresh, answers[earlier.length]? = some (some fresh) ∧
          (fresh = true ↔ ¬Kept earlier place state)) ∧
      sets.length = limits.length ∧
      (∀ place limit set, limits[place]? = some limit →
        sets[place]? = some set →
        Shows limit {state | Kept calls place state} set) ∧
      ∀ left right leftSet rightSet, sets[left]? = some leftSet →
        sets[right]? = some rightSet →
        ((leftSet == rightSet) = true ↔ limits[left]? = limits[right]? ∧
          ∀ state, Kept calls left state ↔ Kept calls right state) := by
  rcases (tracks_empty limits).makeAll? calls fits with
    ⟨answers, sets, made, tracks, each⟩
  rw [List.nil_append] at tracks
  refine ⟨answers, sets, made, ?_, tracks.length, ?_, ?_⟩
  · intro earlier place state later split
    rcases each earlier _ later split with ⟨answer, listed, answered⟩
    rcases answered place state rfl with ⟨fresh, rfl, told⟩
    exact ⟨fresh, listed, told⟩
  · intro place limit set known found
    exact (tracks.records known found).shows
  · intro left right leftSet rightSet leftFound rightFound
    have leftKnown := List.getElem?_eq_getElem
      (tracks.length ▸ (List.getElem?_eq_some_iff.mp leftFound).1)
    have rightKnown := List.getElem?_eq_getElem
      (tracks.length ▸ (List.getElem?_eq_some_iff.mp rightFound).1)
    rw [beq_iff_eq, leftKnown, rightKnown, Option.some.injEq]
    exact (tracks.records leftKnown leftFound).eq_iff
      (tracks.records rightKnown rightFound)

/-- Two sets that come to the same members on different ways, on both sides of
the borders between words. -/
def twoWays : List Call :=
  [.insert 0 7, .insert 1 129, .clear 0, .insert 0 64, .insert 1 63,
    .insert 0 63, .insert 0 64, .insert 1 64, .insert 0 129]

theorem makeAll?_twoWays :
    (∀ call ∈ twoWays, call.Fits [130, 130]) ∧
      ∃ answers left right,
        makeAll? twoWays [empty 130, empty 130] =
          some (answers, [left, right]) ∧
        answers = [some true, some true, none, some true, some true, some true,
          some false, some true, some true] ∧
        left.toList = [63, 64, 129] ∧ (left == right) = true ∧
        {state | Kept twoWays 0 state}.ncard = 3 ∧
        ∀ state, Kept twoWays 0 state ↔ Kept twoWays 1 state := by
  have fits : ∀ call ∈ twoWays, call.Fits [130, 130] := by
    simp [twoWays, Call.Fits]
  rcases makeAll?_shows [130, 130] twoWays fits with
    ⟨answers, sets, made, -, -, shows, equal⟩
  have outcome : (answers, sets) =
      ([some true, some true, none, some true, some true, some true,
        some false, some true, some true],
        [⟨130, #[0x8000000000000000, 1, 2]⟩,
          ⟨130, #[0x8000000000000000, 1, 2]⟩]) := by
    apply Option.some.inj
    rw [← made]
    decide +kernel
  rw [Prod.mk.injEq] at outcome
  rcases outcome with ⟨rfl, rfl⟩
  refine ⟨fits, _, _, _, made, rfl, by decide +kernel, beq_self_eq_true _,
    ?_, ?_⟩
  · exact (shows 0 130 _ rfl rfl).size.symm.trans (by decide +kernel)
  · exact ((equal 0 1 _ _ rfl rfl).mp (beq_self_eq_true _)).2

end StateSet

end Munch
