import Mathlib.Data.List.Nodup
import Munch.Dfa.Numbering

/-!
# The numbering is complete

Numbering what can be reached keeps one invariant, `Sound`: numbers and keys
name each other, every key is what some word leads to, and the row of every
number that does not wait for its expansion is right. Meeting a key keeps it and
so does expanding one, which also brings the end one expansion nearer. So a run
that may expand as many keys as there are leaves nothing pending (`Complete`),
and the automaton of such a numbering follows the keys (`getElem?_run`).
-/

namespace Munch

namespace Numbering

variable {κ : Type}

/-- The key that a word leads to. -/
def follow (step : κ → UInt8 → κ) (first : κ) (word : Bytes) : κ :=
  word.foldl step first

theorem follow_concat (step : κ → UInt8 → κ) (first : κ) (word : Bytes)
    (byte : UInt8) :
    follow step first (word ++ [byte]) =
      step (follow step first word) byte := by
  rw [follow, List.foldl_append]
  rfl

/-- A row that leads from a key to the numbers of its successors. -/
def RowOf (step : κ → UInt8 → κ) (keys : Array κ) (key : κ)
    (row : ByteTable Nat) : Prop :=
  ∀ byte, keys[row.get byte]? = some (step key byte)

/-- Whatever words lead to is among `limit` keys. -/
def Bounded (step : κ → UInt8 → κ) (first : κ) (limit : Nat) : Prop :=
  ∀ keys : List κ, keys.Nodup →
    (∀ key ∈ keys, ∃ word, key = follow step first word) →
    keys.length ≤ limit

/-- What makes a list of successors, one for each stretch, stand for one
successor on each byte. -/
structure Covers (stretches : List Stretch) (successors : κ → List κ)
    (step : κ → UInt8 → κ) : Prop where
  bytes : ∀ byte, ∃ stretch ∈ stretches, byte ∈ stretch.bytes
  listed : ∀ key, successors key = stretches.map fun stretch =>
    step key stretch.first
  alike : ∀ key, ∀ stretch ∈ stretches, ∀ byte ∈ stretch.bytes,
    step key stretch.first = step key byte

theorem Covers.zip_successors {stretches : List Stretch}
    {successors : κ → List κ} {step : κ → UInt8 → κ}
    (covers : Covers stretches successors step) (key : κ) :
    stretches.zip (successors key) =
      stretches.map fun stretch => (stretch, step key stretch.first) := by
  rw [covers.listed]
  apply List.ext_getElem
  · simp
  · intro index _ _
    simp

theorem getElem?_push_eq_some_iff {keys : Array κ} {key other : κ}
    {number : Nat} :
    (keys.push key)[number]? = some other ↔
      keys[number]? = some other ∨ number = keys.size ∧ key = other := by
  rw [Array.getElem?_push]
  split
  next last =>
      rw [last, Array.getElem?_size, Option.some.injEq]
      simp
  next notLast => simp [notLast]

variable [BEq κ] [Hashable κ]

/-- What holds while keys are being numbered. The number in `current` is the one
that is being expanded, if there is one: it is not pending any more, and its row
is not ready yet. -/
structure Sound (step : κ → UInt8 → κ) (first : κ) (current : List Nat)
    (numbering : Numbering κ) : Prop where
  initial : numbering.keys[0]? = some first
  numbers_iff : ∀ (key : κ) (number : Nat),
    numbering.numbers[key]? = some number ↔ numbering.keys[number]? = some key
  rows_size : numbering.rows.size = numbering.keys.size
  reached : ∀ (number : Nat) (key : κ), numbering.keys[number]? = some key →
    ∃ word, key = follow step first word
  pending_keys : ∀ entry ∈ numbering.pending,
    numbering.keys[entry.1]? = some entry.2
  unsettled_nodup : (current ++ numbering.pending.map Prod.fst).Nodup
  settled : ∀ (number : Nat) (key : κ), numbering.keys[number]? = some key →
    number ∉ current → number ∉ numbering.pending.map Prod.fst →
      ∃ row, numbering.rows[number]? = some row ∧
        RowOf step numbering.keys key row

theorem Sound.injective {step : κ → UInt8 → κ} {first : κ} {current : List Nat}
    {numbering : Numbering κ}
    (sound : Sound step first current numbering) {left right : Nat} {key : κ}
    (leftKey : numbering.keys[left]? = some key)
    (rightKey : numbering.keys[right]? = some key) :
    left = right := by
  have one := (sound.numbers_iff key left).mpr leftKey
  rw [(sound.numbers_iff key right).mpr rightKey] at one
  exact (Option.some.inj one).symm

theorem Sound.size_le {step : κ → UInt8 → κ} {first : κ} {current : List Nat}
    {numbering : Numbering κ}
    (sound : Sound step first current numbering) {limit : Nat}
    (bounded : Bounded step first limit) : numbering.keys.size ≤ limit := by
  rw [← Array.length_toList]
  apply bounded
  · rw [List.nodup_iff_getElem?_ne_getElem?]
    intro left right less inside equal
    have found := List.getElem?_eq_getElem inside
    rw [found] at equal
    rw [Array.getElem?_toList] at equal found
    exact Nat.ne_of_lt less (sound.injective equal found)
  · intro key member
    rcases List.getElem?_of_mem member with ⟨number, found⟩
    rw [Array.getElem?_toList] at found
    exact sound.reached number key found

/-- A number that no key has yet does not wait for its expansion. -/
theorem Sound.size_notMem_unsettled {step : κ → UInt8 → κ} {first : κ}
    {current : List Nat} {numbering : Numbering κ}
    (sound : Sound step first current numbering)
    (below : ∀ number ∈ current, number < numbering.keys.size) :
    numbering.keys.size ∉ current ++ numbering.pending.map Prod.fst := by
  intro member
  rcases List.mem_append.mp member with active | waiting
  · exact Nat.lt_irrefl _ (below _ active)
  · rcases List.mem_map.mp waiting with ⟨entry, entryMem, equal⟩
    have found := sound.pending_keys entry entryMem
    rw [equal, Array.getElem?_size] at found
    cases found

/-- The key that is expanded next is the one that its number names. -/
theorem Sound.named_of_pending {step : κ → UInt8 → κ} {first : κ}
    {current : List Nat} {numbering : Numbering κ}
    (sound : Sound step first current numbering) {number : Nat} {key : κ}
    {pending : List (Nat × κ)}
    (waiting : numbering.pending = (number, key) :: pending) :
    numbering.keys[number]? = some key := by
  apply sound.pending_keys (number, key)
  rw [waiting]
  exact List.mem_cons_self

/-- Taking the next key off the list of those that wait makes it the one that is
being expanded. -/
theorem Sound.pop {step : κ → UInt8 → κ} {first : κ} {numbering : Numbering κ}
    (sound : Sound step first [] numbering) {number : Nat} {key : κ}
    {pending : List (Nat × κ)}
    (waiting : numbering.pending = (number, key) :: pending) :
    Sound step first [number] { numbering with pending := pending } where
  initial := sound.initial
  numbers_iff := sound.numbers_iff
  rows_size := sound.rows_size
  reached := sound.reached
  pending_keys entry member := by
    apply sound.pending_keys
    rw [waiting]
    exact List.mem_cons_of_mem _ member
  unsettled_nodup := by
    have unsettled := sound.unsettled_nodup
    rw [waiting] at unsettled
    simpa using unsettled
  settled other otherKey found notCurrent notPending := by
    apply sound.settled other otherKey found List.not_mem_nil
    rw [waiting, List.map_cons, List.mem_cons, not_or]
    exact ⟨fun same => notCurrent (List.mem_singleton.mpr same), notPending⟩

/-- With its row entered the key that is being expanded is settled. -/
theorem Sound.settle {step : κ → UInt8 → κ} {first : κ}
    {numbering : Numbering κ} {number : Nat} {key : κ}
    (sound : Sound step first [number] numbering)
    (named : numbering.keys[number]? = some key) {row : ByteTable Nat}
    (right : RowOf step numbering.keys key row) :
    Sound step first []
      { numbering with rows := numbering.rows.setIfInBounds number row } where
  initial := sound.initial
  numbers_iff := sound.numbers_iff
  rows_size := by
    rw [Array.size_setIfInBounds]
    exact sound.rows_size
  reached := sound.reached
  pending_keys := sound.pending_keys
  unsettled_nodup := (List.nodup_cons.mp sound.unsettled_nodup).2
  settled other otherKey found _ notPending := by
    have bound := (Array.getElem?_eq_some_iff.mp named).1
    rw [← sound.rows_size] at bound
    simp only [Array.getElem?_setIfInBounds] at found ⊢
    by_cases same : number = other
    · subst same
      rw [named] at found
      cases found
      exact ⟨row, by rw [if_pos rfl, if_pos bound], right⟩
    · rw [if_neg same]
      apply sound.settled other otherKey found ?_ notPending
      rw [List.mem_singleton]
      exact Ne.symm same

/-- Numbers are never given to other keys, and as many keys wait for their
expansion as were added. -/
structure Extends (before after : Numbering κ) : Prop where
  keys : ∀ (number : Nat) (key : κ), before.keys[number]? = some key →
    after.keys[number]? = some key
  balance : after.keys.size + before.pending.length =
    before.keys.size + after.pending.length

theorem Extends.refl (numbering : Numbering κ) : Extends numbering numbering :=
  ⟨fun _ _ found => found, rfl⟩

theorem Extends.trans {first second third : Numbering κ}
    (left : Extends first second)
    (right : Extends second third) : Extends first third where
  keys number key found := right.keys number key (left.keys number key found)
  balance := by
    have one := left.balance
    have two := right.balance
    omega

section Meet

variable [LawfulBEq κ] {step : κ → UInt8 → κ} {first : κ} {current : List Nat}
variable {numbering : Numbering κ}

/-- A key that has no number yet gets the next one and waits for its expansion
before all others. -/
theorem Sound.push (sound : Sound step first current numbering)
    (below : ∀ number ∈ current, number < numbering.keys.size) {key : κ}
    (fresh : numbering.numbers[key]? = none) {word : Bytes}
    (reach : key = follow step first word) (row : ByteTable Nat) :
    Sound step first current
      ⟨numbering.keys.push key, numbering.numbers.insert key numbering.keys.size,
        numbering.rows.push row,
        (numbering.keys.size, key) :: numbering.pending⟩ where
  initial := getElem?_push_eq_some_iff.mpr (.inl sound.initial)
  numbers_iff other number := by
    rw [Std.HashMap.getElem?_insert, getElem?_push_eq_some_iff,
      ← sound.numbers_iff]
    by_cases same : key = other
    · subst same
      simp [fresh, eq_comm]
    · simp [same]
  rows_size := by
    rw [Array.size_push, Array.size_push, sound.rows_size]
  reached number other found := by
    rcases getElem?_push_eq_some_iff.mp found with old | ⟨_, rfl⟩
    · exact sound.reached number other old
    · exact ⟨word, reach⟩
  pending_keys entry member := by
    rcases List.mem_cons.mp member with rfl | old
    · exact getElem?_push_eq_some_iff.mpr (.inr ⟨rfl, rfl⟩)
    · exact getElem?_push_eq_some_iff.mpr (.inl (sound.pending_keys entry old))
  unsettled_nodup := by
    rw [List.map_cons, List.nodup_middle]
    exact List.nodup_cons.mpr
      ⟨sound.size_notMem_unsettled below, sound.unsettled_nodup⟩
  settled number other found notCurrent notPending := by
    rw [List.map_cons, List.mem_cons, not_or] at notPending
    rcases getElem?_push_eq_some_iff.mp found with old | new
    · rcases sound.settled number other old notCurrent notPending.2
        with ⟨settledRow, rowEq, right⟩
      refine ⟨settledRow, getElem?_push_eq_some_iff.mpr (.inl rowEq), ?_⟩
      intro byte
      exact getElem?_push_eq_some_iff.mpr (.inl (right byte))
    · exact absurd new.1 notPending.1

/-- Meeting a key that a word leads to keeps everything and gives the key a
number. -/
theorem meet_sound (sound : Sound step first current numbering)
    (below : ∀ number ∈ current, number < numbering.keys.size) {key : κ}
    {word : Bytes} (reach : key = follow step first word) :
    Sound step first current (numbering.meet key).2 ∧
      Extends numbering (numbering.meet key).2 ∧
      (numbering.meet key).2.keys[(numbering.meet key).1]? = some key := by
  rw [meet]
  split
  next number known =>
      exact ⟨sound, .refl numbering, (sound.numbers_iff key number).mp known⟩
  next fresh =>
      refine ⟨sound.push below fresh reach _, ⟨?_, ?_⟩, ?_⟩
      · intro number old found
        exact getElem?_push_eq_some_iff.mpr (.inl found)
      · rw [Array.size_push, List.length_cons]
        omega
      · exact getElem?_push_eq_some_iff.mpr (.inr ⟨rfl, rfl⟩)

end Meet

section Expand

variable [LawfulBEq κ] {step : κ → UInt8 → κ} {first : κ} {current : List Nat}

/-- Meeting the successors of a key stretch by stretch enters them into its row:
a byte whose entry is right stays so, and a byte of one of the stretches gets
the right entry. -/
theorem meetAll_sound {target : UInt8 → κ} (pairs : List (Stretch × κ)) :
    ∀ (row : ByteTable Nat) (numbering : Numbering κ),
      Sound step first current numbering →
    (∀ number ∈ current, number < numbering.keys.size) →
    (∀ pair ∈ pairs, ∀ byte ∈ pair.1.bytes, pair.2 = target byte) →
    (∀ pair ∈ pairs, ∃ word, pair.2 = follow step first word) →
    Sound step first current (numbering.meetAll row pairs).2 ∧
      Extends numbering (numbering.meetAll row pairs).2 ∧
      ∀ byte, (numbering.keys[row.get byte]? = some (target byte) ∨
          ∃ pair ∈ pairs, byte ∈ pair.1.bytes) →
        (numbering.meetAll row pairs).2.keys[
          (numbering.meetAll row pairs).1.get byte]? =
          some (target byte) := by
  induction pairs with
  | nil =>
      intro row numbering sound _ _ _
      refine ⟨sound, .refl numbering, fun byte right => ?_⟩
      rcases right with right | covered
      · exact right
      · rcases covered with ⟨_, member, _⟩
        cases member
  | cons pair pairs ih =>
      intro row numbering sound below alike reached
      rcases pair with ⟨stretch, key⟩
      rcases reached _ List.mem_cons_self with ⟨word, reach⟩
      rcases meet_sound sound below reach with ⟨metSound, metExtends, metKey⟩
      have metBelow : ∀ number ∈ current,
          number < (numbering.meet key).2.keys.size := by
        intro number member
        have found := metExtends.keys number _
          (Array.getElem?_eq_getElem (below number member))
        exact (Array.getElem?_eq_some_iff.mp found).1
      rcases ih (stretch.bytes.foldl
          (fun row byte => row.set byte (numbering.meet key).1) row)
        (numbering.meet key).2 metSound metBelow
        (fun other member => alike other (List.mem_cons_of_mem _ member))
        (fun other member => reached other (List.mem_cons_of_mem _ member))
        with ⟨restSound, restExtends, restRow⟩
      refine ⟨restSound, metExtends.trans restExtends, fun byte right =>
        restRow byte ?_⟩
      rw [ByteTable.get_foldl_set]
      by_cases inside : byte ∈ stretch.bytes
      · left
        rw [if_pos inside, metKey]
        exact congrArg some (alike _ List.mem_cons_self byte inside)
      · rw [if_neg inside]
        rcases right with right | covered
        · exact .inl (metExtends.keys _ _ right)
        · rcases covered with ⟨other, member, otherInside⟩
          rcases List.mem_cons.mp member with rfl | member
          · exact absurd otherInside inside
          · exact .inr ⟨other, member, otherInside⟩

variable {stretches : List Stretch} {successors : κ → List κ}

/-- Expanding the key that is being expanded settles its row. -/
theorem expand_sound (covers : Covers stretches successors step)
    {numbering : Numbering κ}
    {number : Nat} {key : κ} (sound : Sound step first [number] numbering)
    (named : numbering.keys[number]? = some key) :
    Sound step first [] (numbering.expand stretches successors number key) ∧
      Extends numbering (numbering.expand stretches successors number key) := by
  rw [expand, covers.zip_successors]
  rcases sound.reached number key named with ⟨word, reach⟩
  rcases meetAll_sound
      (stretches.map fun stretch => (stretch, step key stretch.first))
      (.const Dfa.initial) numbering sound
    (by
      intro other member
      rw [List.mem_singleton.mp member]
      exact (Array.getElem?_eq_some_iff.mp named).1)
    (by
      intro pair member byte inside
      rcases List.mem_map.mp member with ⟨stretch, stretchMem, rfl⟩
      exact covers.alike key stretch stretchMem byte inside)
    (by
      intro pair member
      rcases List.mem_map.mp member with ⟨stretch, stretchMem, rfl⟩
      exact ⟨word ++ [stretch.first], by rw [follow_concat, ← reach]⟩)
    with ⟨metSound, metExtends, metRow⟩
  have stillNamed := metExtends.keys number key named
  refine ⟨metSound.settle stillNamed fun byte => ?_,
    ⟨metExtends.keys, metExtends.balance⟩⟩
  rcases covers.bytes byte with ⟨stretch, stretchMem, inside⟩
  exact metRow byte
    (.inr ⟨_, List.mem_map_of_mem stretchMem, inside⟩)

end Expand

section Run

variable [LawfulBEq κ] {step : κ → UInt8 → κ} {first : κ}
variable {stretches : List Stretch} {successors : κ → List κ} {limit : Nat}

/-- With an expansion for every key that is not expanded yet, a run leaves
nothing pending. -/
theorem run_sound (covers : Covers stretches successors step)
    (bounded : Bounded step first limit) (bound : Nat) :
    ∀ numbering : Numbering κ, Sound step first [] numbering →
    limit + numbering.pending.length ≤ bound + numbering.keys.size →
    Sound step first [] (run stretches successors bound numbering) ∧
      (run stretches successors bound numbering).pending = [] := by
  induction bound with
  | zero =>
      intro numbering sound enough
      have atMost := sound.size_le bounded
      refine ⟨sound, List.eq_nil_iff_length_eq_zero.mpr ?_⟩
      rw [run]
      omega
  | succ bound ih =>
      intro numbering sound enough
      rw [run]
      split
      next done => exact ⟨sound, done⟩
      next number key pending waiting =>
          have named := sound.named_of_pending waiting
          rcases expand_sound covers (sound.pop waiting) named
            with ⟨nextSound, nextExtends⟩
          apply ih _ nextSound
          have balance := nextExtends.balance
          rw [waiting, List.length_cons] at enough
          simp only at balance ⊢
          omega

/-- What a numbering is when nothing is pending: it names each key that a word
leads to, the first one 0, and its rows lead from key to key. -/
structure Complete (step : κ → UInt8 → κ) (first : κ)
    (numbering : Numbering κ) : Prop where
  initial : numbering.keys[0]? = some first
  injective : ∀ (left right : Nat) (key : κ), numbering.keys[left]? = some key →
    numbering.keys[right]? = some key → left = right
  reached : ∀ (number : Nat) (key : κ), numbering.keys[number]? = some key →
    ∃ word, key = follow step first word
  rows_size : numbering.rows.size = numbering.keys.size
  rows : ∀ (number : Nat) (key : κ), numbering.keys[number]? = some key →
    ∃ row, numbering.rows[number]? = some row ∧
      RowOf step numbering.keys key row

omit [LawfulBEq κ] in
/-- The first key alone, waiting for its expansion. -/
theorem meet_first (first : κ) : (empty.meet first).2 =
    ⟨#[first], (∅ : Std.HashMap κ Nat).insert first 0,
      #[.const Dfa.initial], [(0, first)]⟩ := by
  simp [meet, empty]

theorem meet_first_sound : Sound step first [] (empty.meet first).2 := by
  have only : ∀ (number : Nat) (key : κ), #[first][number]? = some key →
      number = 0 ∧ key = first := by
    intro number key found
    cases number with
    | zero => exact ⟨rfl, (Option.some.inj found).symm⟩
    | succ number => simp at found
  rw [meet_first]
  refine ⟨rfl, ?_, rfl, ?_, ?_, by simp, ?_⟩
  · intro key number
    simp only [Std.HashMap.getElem?_insert]
    by_cases same : first = key
    · subst same
      rw [if_pos BEq.rfl]
      constructor
      · intro equal
        rw [← Option.some.inj equal]
        rfl
      · intro found
        rw [(only number first found).1]
    · rw [if_neg (by simpa using same)]
      constructor
      · intro equal
        simp at equal
      · intro found
        exact absurd (only number key found).2.symm same
  · intro number key found
    exact ⟨[], (only number key found).2⟩
  · intro entry member
    rw [List.mem_singleton.mp member]
    rfl
  · intro number key found _ notPending
    exact absurd (by simp [(only number key found).1]) notPending

/-- An exploration ends: with as many expansions as there are keys at most,
nothing is pending. -/
theorem explore_sound (covers : Covers stretches successors step)
    (bounded : Bounded step first limit) :
    Sound step first [] (explore stretches successors first limit) ∧
      (explore stretches successors first limit).pending = [] :=
  run_sound covers bounded limit _ meet_first_sound (by simp [meet_first])

theorem explore_complete (covers : Covers stretches successors step)
    (bounded : Bounded step first limit) :
    Complete step first (explore stretches successors first limit) := by
  rcases explore_sound covers bounded with ⟨sound, done⟩
  refine ⟨sound.initial, fun _ _ _ => sound.injective, sound.reached,
    sound.rows_size, ?_⟩
  intro number key found
  apply sound.settled number key found List.not_mem_nil
  rw [done]
  exact List.not_mem_nil

end Run

section ToDfa

variable {step : κ → UInt8 → κ} {first : κ} {numbering : Numbering κ}
variable {σ : Type} {verdicts : Array σ}

theorem status?_toDfa (sizes : verdicts.size = numbering.rows.size)
    (number : Nat) :
    (numbering.toDfa verdicts).status? number = verdicts[number]? := by
  simp only [toDfa, Dfa.status?, Array.getElem?_zipWith]
  cases verdict : verdicts[number]? with
  | none => rfl
  | some status =>
      have inside := (Array.getElem?_eq_some_iff.mp verdict).1
      rw [sizes] at inside
      rw [Array.getElem?_eq_getElem inside]
      rfl

theorem next?_toDfa (sizes : verdicts.size = numbering.rows.size)
    (number : Nat) (byte : UInt8) :
    (numbering.toDfa verdicts).next? number byte =
      numbering.rows[number]?.map (·.get byte) := by
  simp only [toDfa, Dfa.next?, Array.getElem?_zipWith]
  cases found : numbering.rows[number]? with
  | none => cases verdicts[number]? <;> rfl
  | some row =>
      have inside := (Array.getElem?_eq_some_iff.mp found).1
      rw [← sizes] at inside
      rw [Array.getElem?_eq_getElem inside]
      rfl

theorem next_toDfa (sizes : verdicts.size = numbering.rows.size) {number : Nat}
    {row : ByteTable Nat} (found : numbering.rows[number]? = some row)
    (byte : UInt8) :
    (numbering.toDfa verdicts).next number byte = row.get byte := by
  rw [Dfa.next, next?_toDfa sizes, found]
  rfl

/-- The automaton of a complete numbering goes from the number of a key to the
number of the key that a word leads to. -/
theorem getElem?_run (complete : Complete step first numbering)
    (sizes : verdicts.size = numbering.rows.size) (word : Bytes) :
    ∀ (number : Nat) (key : κ), numbering.keys[number]? = some key →
      numbering.keys[(numbering.toDfa verdicts).run number word]? =
        some (follow step key word) := by
  induction word with
  | nil =>
      intro number key found
      exact found
  | cons byte word ih =>
      intro number key found
      rcases complete.rows number key found with ⟨row, rowEq, right⟩
      rw [Dfa.run, List.foldl_cons, next_toDfa sizes rowEq]
      exact ih (row.get byte) (step key byte) (right byte)

/-- Words lead to one state exactly if they lead to one key. -/
theorem run_eq_run_iff (complete : Complete step first numbering)
    (sizes : verdicts.size = numbering.rows.size) {one other : Bytes} :
    (numbering.toDfa verdicts).run Dfa.initial one =
        (numbering.toDfa verdicts).run Dfa.initial other ↔
      follow step first one = follow step first other := by
  have named := fun word =>
    getElem?_run complete sizes word Dfa.initial first complete.initial
  constructor
  · intro same
    have oneNamed := named one
    rw [same, named other] at oneNamed
    exact (Option.some.inj oneNamed).symm
  · intro same
    have oneNamed := named one
    rw [same] at oneNamed
    exact complete.injective _ _ _ oneNamed (named other)

end ToDfa

end Numbering

end Munch
