import Munch.Proofs.Dfa.Numbering

/-!
# What numbers depend on

To meet the successors of a key stretch by stretch comes to the same as to meet
them byte by byte (`expand_eq`), so how the alphabet is cut has no influence on
the numbers. Two things follow from the order in which keys are met.

A key other than the first is met while a key with a smaller number is being
expanded (`Descends`).

And numbers depend on nothing but which words lead to the same key. Two
explorations that agree on that are twins: after every expansion they have met
the keys of the same words under the same numbers, have the same rows and wait
for the same numbers (`Twins`), whatever their keys are and however they cut
the alphabet.
-/

namespace Munch

namespace Numbering

variable {κ : Type} [BEq κ] [Hashable κ]

/-! ## Byte by byte -/

/-- Meet the successors of a key on bytes, one after another, and enter their
numbers into a row. -/
def meetEach (numbering : Numbering κ) (row : ByteTable Nat)
    (successor : UInt8 → κ) (bytes : Bytes) : ByteTable Nat × Numbering κ :=
  bytes.foldl
    (fun (row, numbering) byte =>
      let (number, numbering) := numbering.meet (successor byte)
      (row.set byte number, numbering))
    (row, numbering)

theorem meetEach_cons (numbering : Numbering κ) (row : ByteTable Nat)
    (successor : UInt8 → κ) (byte : UInt8) (bytes : Bytes) :
    numbering.meetEach row successor (byte :: bytes) =
      (numbering.meet (successor byte)).2.meetEach
        (row.set byte (numbering.meet (successor byte)).1) successor bytes :=
  rfl

theorem meetEach_append (numbering : Numbering κ) (row : ByteTable Nat)
    (successor : UInt8 → κ) (bytes others : Bytes) :
    numbering.meetEach row successor (bytes ++ others) =
      (numbering.meetEach row successor bytes).2.meetEach
        (numbering.meetEach row successor bytes).1 successor others := by
  rw [meetEach, List.foldl_append]
  rfl

/-- Keys that have been met change nothing but the row. -/
theorem meetEach_of_met {numbering : Numbering κ} {successor : UInt8 → κ}
    {number : Nat} (bytes : Bytes)
    (met : ∀ byte ∈ bytes,
      numbering.meet (successor byte) = (number, numbering)) :
    ∀ row : ByteTable Nat, numbering.meetEach row successor bytes =
      (bytes.foldl (fun row byte => row.set byte number) row, numbering) := by
  induction bytes with
  | nil =>
      intro row
      rfl
  | cons byte bytes ih =>
      intro row
      rw [meetEach_cons, met byte List.mem_cons_self, List.foldl_cons]
      apply ih
      intro other member
      exact met other (List.mem_cons_of_mem _ member)

section Lawful

variable [LawfulBEq κ]

/-- A key that is met again has the number that it was given. -/
theorem meet_meet (numbering : Numbering κ) (key : κ) :
    (numbering.meet key).2.meet key = numbering.meet key := by
  cases known : numbering.numbers[key]? with
  | some number => simp [meet, known]
  | none => simp [meet, known]

/-- To meet a key for a whole stretch comes to the same as to meet it for every
byte of the stretch. -/
theorem meetEach_stretch (numbering : Numbering κ) (row : ByteTable Nat)
    {successor : UInt8 → κ} {stretch : Stretch} {key : κ}
    (alike : ∀ byte ∈ stretch.bytes, key = successor byte) :
    numbering.meetEach row successor stretch.bytes =
      (stretch.bytes.foldl
          (fun row byte => row.set byte (numbering.meet key).1) row,
        (numbering.meet key).2) := by
  rw [Stretch.bytes, meetEach_cons, ← alike _ List.mem_cons_self,
    List.foldl_cons]
  apply meetEach_of_met
  intro byte member
  rw [← alike byte (List.mem_cons_of_mem _ member), meet_meet]

theorem meetAll_eq_meetEach (successor : UInt8 → κ)
    (pairs : List (Stretch × κ))
    (alike : ∀ pair ∈ pairs, ∀ byte ∈ pair.1.bytes,
      pair.2 = successor byte) :
    ∀ (row : ByteTable Nat) (numbering : Numbering κ),
      numbering.meetAll row pairs =
        numbering.meetEach row successor
          (pairs.flatMap fun pair => pair.1.bytes) := by
  induction pairs with
  | nil =>
      intro row numbering
      rfl
  | cons pair pairs ih =>
      intro row numbering
      rw [List.flatMap_cons, meetEach_append,
        meetEach_stretch numbering row (alike pair List.mem_cons_self),
        ← ih fun other member => alike other (List.mem_cons_of_mem _ member)]
      rfl

variable {step : κ → UInt8 → κ} {stretches : List Stretch}
variable {successors : κ → List κ}

/-- Expanding a key meets its successors in the order of the bytes. -/
theorem expand_eq (covers : Covers stretches successors step)
    (ordered : stretches.flatMap Stretch.bytes = allBytes) (number : Nat)
    (key : κ) (numbering : Numbering κ) :
    numbering.expand stretches successors number key =
      { (numbering.meetEach (.const Dfa.initial) (step key) allBytes).2 with
        rows := (numbering.meetEach (.const Dfa.initial) (step key)
            allBytes).2.rows.setIfInBounds number
          (numbering.meetEach (.const Dfa.initial) (step key) allBytes).1 } := by
  have side : (stretches.map fun stretch =>
      (stretch, step key stretch.first)).flatMap (fun pair => pair.1.bytes) =
        allBytes := by
    rw [List.flatMap_map]
    exact ordered
  rw [expand, covers.zip_successors, meetAll_eq_meetEach (step key), side]
  intro pair member byte inside
  rcases List.mem_map.mp member with ⟨stretch, listed, rfl⟩
  exact covers.alike key stretch listed byte inside

end Lawful

/-! ## Smaller numbers first -/

/-- Whether every key but the first is a successor of a key with a smaller
number. -/
def Descends (step : κ → UInt8 → κ) (keys : Array κ) : Prop :=
  ∀ (number : Nat) (key : κ), keys[number]? = some key → number ≠ 0 →
    ∃ smaller < number, ∃ parent byte,
      keys[smaller]? = some parent ∧ step parent byte = key

section Descends

variable {step : κ → UInt8 → κ}

omit [BEq κ] [Hashable κ] in
theorem Descends.push {keys : Array κ} (descends : Descends step keys)
    {smaller : Nat} {parent : κ} (named : keys[smaller]? = some parent)
    (byte : UInt8) : Descends step (keys.push (step parent byte)) := by
  intro number key found notFirst
  rcases getElem?_push_eq_some_iff.mp found with old | ⟨last, rfl⟩
  · rcases descends number key old notFirst
      with ⟨less, before, elder, letter, elderNamed, reaches⟩
    exact ⟨less, before, elder, letter,
      getElem?_push_eq_some_iff.mpr (.inl elderNamed), reaches⟩
  · refine ⟨smaller, ?_, parent, byte,
      getElem?_push_eq_some_iff.mpr (.inl named), rfl⟩
    rw [last]
    exact (Array.getElem?_eq_some_iff.mp named).1

theorem Descends.meetEach {number : Nat} {parent : κ} (bytes : Bytes) :
    ∀ (row : ByteTable Nat) (numbering : Numbering κ),
      Descends step numbering.keys →
      numbering.keys[number]? = some parent →
      Descends step
        (numbering.meetEach row (step parent) bytes).2.keys := by
  induction bytes with
  | nil =>
      intro row numbering descends _
      exact descends
  | cons byte bytes ih =>
      intro row numbering descends named
      rw [meetEach_cons]
      cases known : numbering.numbers[step parent byte]? with
      | some other =>
          simp only [meet, known]
          exact ih _ _ descends named
      | none =>
          simp only [meet, known]
          apply ih
          · exact descends.push named byte
          · exact getElem?_push_eq_some_iff.mpr (.inl named)

variable [LawfulBEq κ] {first : κ} {stretches : List Stretch}
variable {successors : κ → List κ}

theorem Descends.expand (covers : Covers stretches successors step)
    (ordered : stretches.flatMap Stretch.bytes = allBytes)
    (numbering : Numbering κ) (descends : Descends step numbering.keys)
    {number : Nat} {key : κ} (named : numbering.keys[number]? = some key) :
    Descends step
      (numbering.expand stretches successors number key).keys := by
  rw [expand_eq covers ordered]
  dsimp only
  exact Descends.meetEach allBytes (.const Dfa.initial) numbering descends named

theorem Descends.run (covers : Covers stretches successors step)
    (ordered : stretches.flatMap Stretch.bytes = allBytes) (bound : Nat) :
    ∀ numbering : Numbering κ, Sound step first [] numbering →
      Descends step numbering.keys →
      Descends step
        (Numbering.run stretches successors bound numbering).keys := by
  induction bound with
  | zero =>
      intro numbering _ descends
      exact descends
  | succ bound ih =>
      intro numbering sound descends
      rw [Numbering.run]
      split
      next => exact descends
      next number key pending waiting =>
          have named := sound.named_of_pending waiting
          have popped := sound.pop waiting
          apply ih _ (expand_sound covers popped named).1
          exact Descends.expand covers ordered
            { numbering with pending := pending } descends named

theorem explore_descends (covers : Covers stretches successors step)
    (ordered : stretches.flatMap Stretch.bytes = allBytes) (bound : Nat) :
    Descends step (explore stretches successors first bound).keys := by
  have sound : Sound step first [] (empty.meet first).2 := meet_first_sound
  apply Descends.run covers ordered bound _ sound
  intro number key found notFirst
  have inside := (Array.getElem?_eq_some_iff.mp found).1
  rw [meet_first] at inside
  exact absurd (Nat.lt_one_iff.mp inside) notFirst

end Descends

/-! ## Twins -/

section Twins

variable {α β : Type} [BEq α] [Hashable α] [BEq β] [Hashable β]

/-- Whether words that lead to one key on the left do so on the right, and the
other way round. -/
def MergesAlike (leftStep : α → UInt8 → α) (leftFirst : α)
    (rightStep : β → UInt8 → β) (rightFirst : β) : Prop :=
  ∀ one other : Bytes,
    follow leftStep leftFirst one = follow leftStep leftFirst other ↔
      follow rightStep rightFirst one = follow rightStep rightFirst other

/-- Two explorations that are at the same point: words that lead to a key with
a number on the left do so on the right, the rows are the same, and the same
numbers wait for their expansion. -/
structure Twins (leftStep : α → UInt8 → α) (leftFirst : α)
    (rightStep : β → UInt8 → β) (rightFirst : β) (current : List Nat)
    (left : Numbering α) (right : Numbering β) : Prop where
  soundLeft : Sound leftStep leftFirst current left
  soundRight : Sound rightStep rightFirst current right
  size : left.keys.size = right.keys.size
  keys : ∀ (number : Nat) (word : Bytes),
    left.keys[number]? = some (follow leftStep leftFirst word) ↔
      right.keys[number]? = some (follow rightStep rightFirst word)
  rows : left.rows = right.rows
  pending : left.pending.map Prod.fst = right.pending.map Prod.fst
  below : ∀ number ∈ current, number < left.keys.size

namespace Twins

variable {leftStep : α → UInt8 → α} {leftFirst : α}
variable {rightStep : β → UInt8 → β} {rightFirst : β}
variable {current : List Nat} {left : Numbering α} {right : Numbering β}

theorem below_right
    (twins : Twins leftStep leftFirst rightStep rightFirst current left right) :
    ∀ number ∈ current, number < right.keys.size := by
  rw [← twins.size]
  exact twins.below

/-- The keys of a word have the same number, or both have none. -/
theorem numbers_eq
    (twins : Twins leftStep leftFirst rightStep rightFirst current left right)
    (word : Bytes) :
    left.numbers[follow leftStep leftFirst word]? =
      right.numbers[follow rightStep rightFirst word]? := by
  apply Option.ext
  intro number
  rw [twins.soundLeft.numbers_iff, twins.soundRight.numbers_iff]
  exact twins.keys number word

/-- What waits first on the left waits first on the right, and its keys there
and here are those of one word. -/
theorem pop
    (twins : Twins leftStep leftFirst rightStep rightFirst [] left right)
    {number : Nat} {key : α} {pending : List (Nat × α)}
    (waiting : left.pending = (number, key) :: pending) :
    ∃ word rightPending, key = follow leftStep leftFirst word ∧
      right.pending =
        (number, follow rightStep rightFirst word) :: rightPending ∧
      Twins leftStep leftFirst rightStep rightFirst [number]
        { left with pending := pending }
        { right with pending := rightPending } := by
  have named := twins.soundLeft.named_of_pending waiting
  rcases twins.soundLeft.reached number key named with ⟨word, rfl⟩
  have same := twins.pending
  rw [waiting, List.map_cons, eq_comm, List.map_eq_cons_iff] at same
  rcases same
    with ⟨⟨other, rightKey⟩, rightPending, rightWaiting, same, rest⟩
  obtain rfl : number = other := same.symm
  have rightNamed := (twins.keys number word).mp named
  rw [twins.soundRight.named_of_pending rightWaiting, Option.some.injEq]
    at rightNamed
  subst rightNamed
  refine ⟨word, rightPending, rfl, rightWaiting,
    ⟨twins.soundLeft.pop waiting, twins.soundRight.pop rightWaiting,
      twins.size, twins.keys, twins.rows, rest.symm, ?_⟩⟩
  intro other active
  rw [List.mem_singleton.mp active]
  exact (Array.getElem?_eq_some_iff.mp named).1

/-- What is the same for the keys of each word is the same for the keys of each
number. -/
theorem map_keys {σ : Type} {ofLeft : α → σ} {ofRight : β → σ}
    (twins : Twins leftStep leftFirst rightStep rightFirst current left right)
    (agree : ∀ word, ofLeft (follow leftStep leftFirst word) =
      ofRight (follow rightStep rightFirst word)) :
    left.keys.map ofLeft = right.keys.map ofRight := by
  apply Array.ext_getElem?
  intro number
  rw [Array.getElem?_map, Array.getElem?_map]
  cases named : left.keys[number]? with
  | none =>
      rw [Array.getElem?_eq_none_iff, twins.size, ← Array.getElem?_eq_none_iff]
        at named
      rw [named]
      rfl
  | some key =>
      rcases twins.soundLeft.reached number key named with ⟨word, rfl⟩
      rw [(twins.keys number word).mp named]
      exact congrArg some (agree word)

variable [LawfulBEq α] [LawfulBEq β]

/-- Twins that meet the keys of one word give them the same number and stay
twins. -/
theorem meet
    (merges : MergesAlike leftStep leftFirst rightStep rightFirst)
    (twins : Twins leftStep leftFirst rightStep rightFirst current left right)
    (word : Bytes) :
    (left.meet (follow leftStep leftFirst word)).1 =
        (right.meet (follow rightStep rightFirst word)).1 ∧
      Twins leftStep leftFirst rightStep rightFirst current
        (left.meet (follow leftStep leftFirst word)).2
        (right.meet (follow rightStep rightFirst word)).2 := by
  have numbers := twins.numbers_eq word
  cases known : left.numbers[follow leftStep leftFirst word]? with
  | some number =>
      rw [known] at numbers
      simp only [Numbering.meet, known, ← numbers]
      exact ⟨trivial, twins⟩
  | none =>
      rw [known] at numbers
      simp only [Numbering.meet, known, ← numbers]
      refine ⟨twins.size, ⟨twins.soundLeft.push twins.below known rfl _,
        twins.soundRight.push twins.below_right numbers.symm rfl _,
        ?_, ?_, ?_, ?_, ?_⟩⟩
      · rw [Array.size_push, Array.size_push, twins.size]
      · intro number other
        rw [getElem?_push_eq_some_iff, getElem?_push_eq_some_iff,
          twins.keys number other, twins.size, merges word other]
      · rw [twins.rows]
      · rw [List.map_cons, List.map_cons, twins.pending, twins.size]
      · intro number active
        rw [Array.size_push]
        exact Nat.lt_succ_of_lt (twins.below number active)

/-- Twins that meet the successors of the key of one word byte by byte enter the
same numbers into their rows. -/
theorem meetEach
    (merges : MergesAlike leftStep leftFirst rightStep rightFirst)
    (word : Bytes) (bytes : Bytes) :
    ∀ (row : ByteTable Nat) (left : Numbering α) (right : Numbering β),
      Twins leftStep leftFirst rightStep rightFirst current left right →
      (left.meetEach row
          (leftStep (follow leftStep leftFirst word)) bytes).1 =
        (right.meetEach row
          (rightStep (follow rightStep rightFirst word)) bytes).1 ∧
      Twins leftStep leftFirst rightStep rightFirst current
        (left.meetEach row
          (leftStep (follow leftStep leftFirst word)) bytes).2
        (right.meetEach row
          (rightStep (follow rightStep rightFirst word)) bytes).2 := by
  induction bytes with
  | nil =>
      intro row left right twins
      exact ⟨rfl, twins⟩
  | cons byte bytes ih =>
      intro row left right twins
      have met := twins.meet merges (word ++ [byte])
      rw [follow_concat, follow_concat] at met
      rw [meetEach_cons, meetEach_cons, met.1]
      exact ih _ _ _ met.2

/-- Explorations begin as twins. -/
theorem first
    (merges : MergesAlike leftStep leftFirst rightStep rightFirst) :
    Twins leftStep leftFirst rightStep rightFirst []
      (empty.meet leftFirst).2 (empty.meet rightFirst).2 := by
  refine ⟨meet_first_sound, meet_first_sound, ?_, ?_, ?_, ?_, ?_⟩
  · rw [meet_first, meet_first]
    rfl
  · intro number word
    rw [meet_first, meet_first]
    cases number with
    | zero =>
        simp only [List.getElem?_toArray, List.getElem?_cons_zero,
          Option.some.injEq]
        exact merges [] word
    | succ number => simp
  · rw [meet_first, meet_first]
  · rw [meet_first, meet_first]
    rfl
  · intro number active
    cases active

section Explore

variable {leftStretches rightStretches : List Stretch}
variable {leftSuccessors : α → List α} {rightSuccessors : β → List β}
variable (coversLeft : Covers leftStretches leftSuccessors leftStep)
  (orderedLeft : leftStretches.flatMap Stretch.bytes = allBytes)
  (coversRight : Covers rightStretches rightSuccessors rightStep)
  (orderedRight : rightStretches.flatMap Stretch.bytes = allBytes)
  (merges : MergesAlike leftStep leftFirst rightStep rightFirst)
include coversLeft orderedLeft coversRight orderedRight merges

/-- Twins stay twins when the keys of one word are expanded. -/
theorem expand {number : Nat} {word : Bytes}
    (twins :
      Twins leftStep leftFirst rightStep rightFirst [number] left right)
    (named : left.keys[number]? = some (follow leftStep leftFirst word)) :
    Twins leftStep leftFirst rightStep rightFirst []
      (left.expand leftStretches leftSuccessors number
        (follow leftStep leftFirst word))
      (right.expand rightStretches rightSuccessors number
        (follow rightStep rightFirst word)) := by
  have rightNamed := (twins.keys number word).mp named
  have soundLeft := (expand_sound coversLeft twins.soundLeft named).1
  have soundRight := (expand_sound coversRight twins.soundRight rightNamed).1
  have met := meetEach merges word allBytes (.const Dfa.initial) left right twins
  rw [expand_eq coversLeft orderedLeft] at soundLeft ⊢
  rw [expand_eq coversRight orderedRight] at soundRight ⊢
  -- Nothing may look into the loops over the alphabet from here on.
  generalize left.meetEach _ _ allBytes = leftMet at met soundLeft ⊢
  generalize right.meetEach _ _ allBytes = rightMet at met soundRight ⊢
  refine ⟨soundLeft, soundRight, met.2.size, met.2.keys, ?_, met.2.pending, ?_⟩
  · rw [met.1, met.2.rows]
  · intro other active
    cases active

theorem run (bound : Nat) :
    ∀ (left : Numbering α) (right : Numbering β),
      Twins leftStep leftFirst rightStep rightFirst [] left right →
      Twins leftStep leftFirst rightStep rightFirst []
        (left.run leftStretches leftSuccessors bound)
        (right.run rightStretches rightSuccessors bound) := by
  induction bound with
  | zero =>
      intro left right twins
      exact twins
  | succ bound ih =>
      intro left right twins
      cases waiting : left.pending with
      | nil =>
          have none := twins.pending
          rw [waiting, List.map_nil, eq_comm, List.map_eq_nil_iff] at none
          simp only [Numbering.run, waiting, none]
          exact twins
      | cons entry pending =>
          rcases entry with ⟨number, key⟩
          have named := twins.soundLeft.named_of_pending waiting
          rcases twins.pop waiting
            with ⟨word, rightPending, rfl, rightWaiting, popped⟩
          simp only [Numbering.run, waiting, rightWaiting]
          apply ih
          exact popped.expand coversLeft orderedLeft coversRight orderedRight
            merges named

end Explore

end Twins

section Bound

variable {stretches : List Stretch} {successors : κ → List κ}

theorem run_run (bound more : Nat) :
    ∀ numbering : Numbering κ,
      run stretches successors more
          (run stretches successors bound numbering) =
        run stretches successors (bound + more) numbering := by
  induction bound with
  | zero =>
      intro numbering
      rw [Nat.zero_add]
      rfl
  | succ bound ih =>
      intro numbering
      rw [Nat.succ_add]
      cases waiting : numbering.pending with
      | nil =>
          simp only [run, waiting]
          cases more <;> simp only [run, waiting]
      | cons entry pending =>
          simp only [run, waiting]
          exact ih _

/-- An exploration that has ended does not change when it may expand more. -/
theorem explore_of_le {first : κ} {limit bound : Nat}
    (done : (explore stretches successors first limit).pending = [])
    (less : limit ≤ bound) :
    explore stretches successors first bound =
      explore stretches successors first limit := by
  rcases Nat.exists_eq_add_of_le less with ⟨more, rfl⟩
  rw [explore, ← run_run, ← explore]
  cases more <;> simp only [run, done]

end Bound

/-- Explorations in which the same words lead to the same key end as twins. -/
theorem explore_twins [LawfulBEq α] [LawfulBEq β]
    {leftStep : α → UInt8 → α} {leftFirst : α}
    {rightStep : β → UInt8 → β} {rightFirst : β}
    {leftStretches rightStretches : List Stretch}
    {leftSuccessors : α → List α} {rightSuccessors : β → List β}
    {leftLimit rightLimit : Nat}
    (coversLeft : Covers leftStretches leftSuccessors leftStep)
    (orderedLeft : leftStretches.flatMap Stretch.bytes = allBytes)
    (boundedLeft : Bounded leftStep leftFirst leftLimit)
    (coversRight : Covers rightStretches rightSuccessors rightStep)
    (orderedRight : rightStretches.flatMap Stretch.bytes = allBytes)
    (boundedRight : Bounded rightStep rightFirst rightLimit)
    (merges : MergesAlike leftStep leftFirst rightStep rightFirst) :
    Twins leftStep leftFirst rightStep rightFirst []
      (explore leftStretches leftSuccessors leftFirst leftLimit)
      (explore rightStretches rightSuccessors rightFirst rightLimit) := by
  have leftDone := (explore_sound coversLeft boundedLeft).2
  have rightDone := (explore_sound coversRight boundedRight).2
  rw [← explore_of_le leftDone (Nat.le_max_left leftLimit rightLimit),
    ← explore_of_le rightDone (Nat.le_max_right leftLimit rightLimit)]
  exact Twins.run coversLeft orderedLeft coversRight orderedRight merges _ _ _
    (.first merges)

end Twins

end Numbering

end Munch
