import Std.Data.HashMap
import Munch.Byte.Stretch
import Munch.Dfa

/-!
# Numbering what can be reached

Both constructions of deterministic automata work alike. There are keys, a first
key and a successor of each key on each byte; the keys that can be reached are
to be numbered. A key gets its number when it is first met, the first key gets
0, and the successors of a key are met in the ascending order of the bytes. Of
the keys that still have to be expanded the newest comes first.

The successors are listed by stretches of bytes on which every key has one and the
same successor. To meet a key again changes nothing, so that comes to the same as
one byte after another.

`Numbering` is the state of that process and `Numbering.explore` runs it to the
end. How many keys there can be at most bounds the number of expansions.
-/

namespace Munch

/-- Keys with their numbers, and the transitions between them found so far. -/
structure Numbering (κ : Type) [BEq κ] [Hashable κ] where
  /-- The key of each number. -/
  keys : Array κ
  /-- The number of each key. -/
  numbers : Std.HashMap κ Nat
  /-- The transitions of each number; those of a number that is not yet expanded
  are not yet meaningful. -/
  rows : Array (ByteTable Nat)
  /-- The numbers that still have to be expanded, with their keys, newest first. -/
  pending : List (Nat × κ)

namespace Numbering

variable {κ : Type} [BEq κ] [Hashable κ]

/-- No key has been met. -/
def empty : Numbering κ :=
  ⟨#[], ∅, #[], []⟩

/-- The number of a key. A key that is met for the first time gets the next free
number and has to be expanded. -/
def meet (numbering : Numbering κ) (key : κ) : Nat × Numbering κ :=
  match numbering.numbers[key]? with
  | some number => (number, numbering)
  | none =>
      let number := numbering.keys.size
      (number,
        { keys := numbering.keys.push key
          numbers := numbering.numbers.insert key number
          rows := numbering.rows.push (.const Dfa.initial)
          pending := (number, key) :: numbering.pending })

/-- Meet keys in turn, each of which stands at all bytes of a stretch, and enter
their numbers into a row. -/
def meetAll (numbering : Numbering κ) (row : ByteTable Nat) (keys : List (Stretch × κ)) :
    ByteTable Nat × Numbering κ :=
  keys.foldl
    (fun (row, numbering) (stretch, key) =>
      let (number, numbering) := numbering.meet key
      (stretch.bytes.foldl (fun row byte => row.set byte number) row, numbering))
    (row, numbering)

/-- Expand one key: meet its successors on every stretch and store its row. -/
def expand (stretches : List Stretch) (successors : κ → List κ) (number : Nat) (key : κ)
    (numbering : Numbering κ) : Numbering κ :=
  let (row, numbering) :=
    numbering.meetAll (.const Dfa.initial) (stretches.zip (successors key))
  { numbering with rows := numbering.rows.setIfInBounds number row }

/-- Expand what is pending, newest first, until nothing is or `bound` keys have
been expanded. -/
def run (stretches : List Stretch) (successors : κ → List κ) :
    (bound : Nat) → Numbering κ → Numbering κ
  | 0, numbering => numbering
  | bound + 1, numbering =>
      match numbering.pending with
      | [] => numbering
      | (number, key) :: pending =>
          run stretches successors bound
            ({ numbering with pending := pending }.expand stretches successors number key)

/-- Number everything that can be reached from a first key, of which there are
at most `bound` keys. The successors of a key are listed by stretch. -/
def explore (stretches : List Stretch) (successors : κ → List κ) (first : κ)
    (bound : Nat) : Numbering κ :=
  run stretches successors bound (empty.meet first).2

/-- The automaton of a numbering: a verdict for each key, and its transitions. -/
def toDfa {σ : Type} (numbering : Numbering κ) (verdicts : Array σ) : Dfa σ :=
  ⟨verdicts.zipWith (fun status row => ⟨status, row⟩) numbering.rows⟩

end Numbering

end Munch
