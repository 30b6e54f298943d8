import Munch.Pattern

/-!
# Matching by definition

The prefixes of a text that a pattern matches, worked out directly on the
pattern without any automaton. The ends of matches are kept as ascending lists
without repetition.

The only loop that is not on the pattern is the one of a star. It goes through
the ends from the lowest on: rounds of a star lead on to higher ends only, so an
end that has been passed is never met again, and there are no more ends than
places in the text.
-/

namespace Munch

/-- The numbers of two ascending lists, ascending and without repetition. -/
def unionAscending : List Nat → List Nat → List Nat
  | [], right => right
  | left, [] => left
  | left :: lefts, right :: rights =>
      if left < right then left :: unionAscending lefts (right :: rights)
      else if right < left then right :: unionAscending (left :: lefts) rights
      else left :: unionAscending lefts rights
  termination_by left right => left.length + right.length

/-- The numbers of several ascending lists, ascending and without repetition. -/
def unionAll : List (List Nat) → List Nat
  | [] => []
  | list :: lists => unionAscending list (unionAll lists)

namespace Pattern

/-- The ends of a star, ascending, where one more round leads from a place to the
ends `inner` gives for it, and `ends` are those known so far that have not been
passed. At most `bound` ends are passed. -/
def starEnds (inner : Nat → List Nat) : (bound : Nat) → (ends : List Nat) → List Nat
  | 0, _ => []
  | _ + 1, [] => []
  | bound + 1, place :: ends =>
      place :: starEnds inner bound (unionAscending ends ((inner place).filter (place < ·)))

mutual

/-- The places where a match of the pattern that begins at `start` can end,
ascending. -/
def ends : Pattern → (text : Array UInt8) → (start : Nat) → List Nat
  | .epsilon, _, start => [start]
  | .literal bytes, text, start =>
      if (text.extract start (start + bytes.length)).toList = bytes then [start + bytes.length]
      else []
  | .charset bytes, text, start =>
      match text[start]? with
      | some byte => if bytes.contains byte then [start + 1] else []
      | none => []
  | .concatenate children, text, start => chainEnds children text [start]
  | .alternate [], _, start => [start]
  | .alternate (child :: children), text, start =>
      unionAscending (child.ends text start) (branchEnds children text start)
  | .star inner, text, start =>
      starEnds (inner.ends text) (text.size + 1) [start]

/-- The places where matches of the children in a row can end, when they begin at
one of `starts`. -/
def chainEnds : List Pattern → (text : Array UInt8) → (starts : List Nat) → List Nat
  | [], _, starts => starts
  | child :: children, text, starts =>
      chainEnds children text (unionAll (starts.map fun start => child.ends text start))

/-- The places where a match of any of the children can end. -/
def branchEnds : List Pattern → (text : Array UInt8) → (start : Nat) → List Nat
  | [], _, _ => []
  | child :: children, text, start =>
      unionAscending (child.ends text start) (branchEnds children text start)

end

/-- The lengths of the prefixes of a text that the pattern matches, ascending. -/
def prefixLengths (pattern : Pattern) (text : Bytes) : List Nat :=
  pattern.ends text.toArray 0

/-- Whether the pattern matches a text as a whole. -/
def isMatch (pattern : Pattern) (text : Bytes) : Bool :=
  (pattern.prefixLengths text).contains text.length

/-- The length of the longest prefix that the pattern matches. -/
def longest (pattern : Pattern) (text : Bytes) : Option Nat :=
  (pattern.prefixLengths text).getLast?

/-- The length of the shortest prefix that the pattern matches. -/
def shortest (pattern : Pattern) (text : Bytes) : Option Nat :=
  (pattern.prefixLengths text).head?

end Pattern

end Munch
