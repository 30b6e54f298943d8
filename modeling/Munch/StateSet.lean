import Munch.Byte.Table

/-!
# Sets of automaton states

A state is a number below the size of its automaton. A `StateSet` is a set of
states below a fixed limit, one bit each, packed into 64-bit words. The packing
is canonical: two sets with the same limit are equal exactly when they have the
same members, however they came about. That is what lets a set serve as a key.

Room comes in whole words, so the set has room for the states up to the end of
its last word. A state beyond that has no place; the checked operations
(`contains?`, `insert?`) refuse it, the total ones treat it as absent.

`spread` follows moves between states until nothing new is reached.
-/

namespace Munch

/-- The number of states that share a word. -/
def wordBits : Nat := 64

/-- A set of states below `limit`, packed into words. -/
structure StateSet where
  limit : Nat
  words : Array UInt64
  deriving DecidableEq, Hashable

namespace Word

/-- The word with a single bit set. -/
def bit (index : Nat) : UInt64 :=
  1 <<< index.toUInt64

/-- Whether a word has a bit set. -/
def test (word : UInt64) (index : Nat) : Bool :=
  word &&& bit index != 0

/-- The number of bits that are set. -/
def ones (word : UInt64) : Nat :=
  word.toBitVec.cpop.toNat

/-- The word without the lowest bit that is set. -/
def dropLowest (word : UInt64) : UInt64 :=
  word &&& (word - 1)

/-- The position of the lowest bit that is set, the only one that `dropLowest`
clears. -/
def lowest (word : UInt64) : Nat :=
  (word ^^^ dropLowest word).log2.toNat

/-- The positions of at most `most` bits that are set, the lowest first. -/
def bitsUpTo : (most : Nat) → (word : UInt64) → List Nat
  | 0, _ => []
  | most + 1, word =>
      if word = 0 then [] else lowest word :: bitsUpTo most (dropLowest word)

/-- The positions of the bits that are set, in ascending order. -/
def bits (word : UInt64) : List Nat :=
  bitsUpTo wordBits word

end Word

namespace StateSet

/-- The set without members. -/
def empty (limit : Nat) : StateSet :=
  ⟨limit, Array.replicate ((limit + (wordBits - 1)) / wordBits) 0⟩

/-- The number of states the words have room for. -/
def room (set : StateSet) : Nat :=
  wordBits * set.words.size

/-- Whether a state is a member. -/
def contains (set : StateSet) (state : Nat) : Bool :=
  match set.words[state / wordBits]? with
  | some word => Word.test word (state % wordBits)
  | none => false

/-- The set with a state added. A state without a place changes nothing. -/
def insert (set : StateSet) (state : Nat) : StateSet :=
  { set with
    words := set.words.modify (state / wordBits) (· ||| Word.bit (state % wordBits)) }

/-- Whether a state is a member, or nothing when the set has no place for it. -/
def contains? (set : StateSet) (state : Nat) : Option Bool :=
  if state < set.room then some (set.contains state) else none

/-- Add a state and report whether it is new. Nothing when the set has no place
for it. -/
def insert? (set : StateSet) (state : Nat) : Option (Bool × StateSet) :=
  if state < set.room then some (!set.contains state, set.insert state) else none

/-- Add the states of a list, one after another, and report those that were new,
the latest first. -/
def insertNew (set : StateSet) (states : List Nat) : StateSet × List Nat :=
  states.foldl
    (fun (set, fresh) state =>
      if set.contains state then (set, fresh) else (set.insert state, state :: fresh))
    (set, [])

/-- Follow moves from the states of the frontier and from all that are reached for
the first time, round by round, in at most `rounds` rounds. -/
def spread (moves : Nat → List Nat) : (rounds : Nat) → (reached : StateSet) →
    (frontier : List Nat) → StateSet
  | 0, reached, _ => reached
  | rounds + 1, reached, frontier =>
      match reached.insertNew (frontier.flatMap moves) with
      | (reached, []) => reached
      | (reached, state :: fresh) => spread moves rounds reached (state :: fresh)

/-- Remove every member. The limit stays. -/
def clear (set : StateSet) : StateSet :=
  { set with words := set.words.map fun _ => 0 }

/-- The members in ascending order. -/
def toList (set : StateSet) : List Nat :=
  set.words.toList.zipIdx.flatMap fun (word, index) =>
    (Word.bits word).map (wordBits * index + ·)

/-- The number of members. -/
def size (set : StateSet) : Nat :=
  set.words.toList.foldr (fun word count => Word.ones word + count) 0

/-- Whether there is no member. -/
def isEmpty (set : StateSet) : Bool :=
  set.words.all (· == 0)

end StateSet

end Munch
