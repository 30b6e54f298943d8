import Munch.Regex

/-!
# Sets of patterns

Several patterns are matched at once by the product of their automata. A product
state is the tuple of component states that one input leads to. Its verdict says
whether some pattern accepts and names all that do: the indices stand, ascending
and side by side, in one table that all states share, and the verdict holds the
stretch of that table.
-/

namespace Munch

/-- The verdict of a product state. -/
structure Verdict where
  status : Status
  /-- Where the accepting patterns begin in the shared table. -/
  start : Nat
  /-- The number of accepting patterns. -/
  count : Nat
  deriving DecidableEq

/-- Patterns collected for a set. The index of a pattern is its place. -/
structure PatternSetBuilder where
  patterns : List Pattern
  deriving DecidableEq

namespace PatternSetBuilder

/-- No pattern yet. -/
def empty : PatternSetBuilder := ⟨[]⟩

/-- The listed patterns, in order. -/
def ofList (patterns : List Pattern) : PatternSetBuilder := ⟨patterns⟩

/-- The number of patterns. -/
def size (builder : PatternSetBuilder) : Nat :=
  builder.patterns.length

/-- Add a pattern behind the others; its index comes with the result. -/
def add (builder : PatternSetBuilder) (pattern : Pattern) : Nat × PatternSetBuilder :=
  (builder.patterns.length, ⟨builder.patterns ++ [pattern]⟩)

/-- A builder with one more pattern. -/
def withPattern (builder : PatternSetBuilder) (pattern : Pattern) : PatternSetBuilder :=
  (builder.add pattern).2

/-- Add several patterns behind the others. -/
def extend (builder : PatternSetBuilder) (patterns : List Pattern) : PatternSetBuilder :=
  ⟨builder.patterns ++ patterns⟩

end PatternSetBuilder

/-- Patterns compiled to be matched at once. -/
structure PatternSet where
  patterns : List Pattern
  components : List Regex
  dfa : Dfa Verdict
  /-- The table of accepting patterns that the verdicts point into. -/
  accepting : Array Nat
  deriving DecidableEq

namespace PatternSet

/-- Advance every component on one byte. -/
def advance (components : List Regex) (states : List Nat) (byte : UInt8) : List Nat :=
  List.zipWith (fun regex state => regex.dfa.next state byte) components states

/-- The alphabet, cut into stretches of bytes on which all components move alike. -/
def stretches (components : List Regex) : List Stretch :=
  Stretch.stretches (components.flatMap fun regex => regex.dfa.states.toList.map (·.transitions))

/-- The tuples that inputs can reach, numbered. There are no more of them than
all tuples of component states. -/
def reachableTuples (components : List Regex) : Numbering (List Nat) :=
  let stretches := stretches components
  .explore stretches
    (fun states => stretches.map fun stretch => advance components states stretch.first)
    (components.map fun _ => Dfa.initial)
    (components.foldr (fun regex count => regex.dfa.size * count) 1)

/-- The verdicts of the components in a tuple of their states. -/
def componentVerdicts (components : List Regex) (states : List Nat) : List Status :=
  List.zipWith (fun regex state => regex.dfa.verdict id state) components states

/-- The indices of the components that accept, ascending. -/
def acceptingIndices (verdicts : List Status) : List Nat :=
  (verdicts.zipIdx.filter fun (status, _) => status == .accept).map (·.2)

/-- The joint verdict: accepted when some component accepts; rejected when there
are components and all of them reject; otherwise open. -/
def jointStatus (verdicts : List Status) : Status :=
  if verdicts.any (· == .accept) then .accept
  else if !verdicts.isEmpty && verdicts.all (· == .reject) then .reject
  else .pass

/-- Lay out the accepting indices of the tuples side by side, in the order of
their numbers, and give each tuple its verdict. -/
def layOutVerdicts (components : List Regex) (tuples : List (List Nat)) :
    Array Verdict × Array Nat :=
  tuples.foldl
    (fun (verdicts, accepting) states =>
      let statuses := componentVerdicts components states
      let indices := acceptingIndices statuses
      (verdicts.push ⟨jointStatus statuses, accepting.size, indices.length⟩,
        accepting ++ indices))
    (#[], #[])

/-- Compile a list of patterns. -/
def ofPatterns (patterns : List Pattern) : PatternSet :=
  let components := patterns.map Pattern.compile
  let numbering := reachableTuples components
  let (verdicts, accepting) := layOutVerdicts components numbering.keys.toList
  ⟨patterns, components, numbering.toDfa verdicts, accepting⟩

/-- The number of product states. -/
def size (set : PatternSet) : Nat :=
  set.dfa.size

/-- The indices that a verdict points to. -/
def indices (set : PatternSet) (verdict : Verdict) : List Nat :=
  (set.accepting.toList.drop verdict.start).take verdict.count

/-- The patterns that accept in a product state, or nothing when there is no such
state. -/
def acceptingTypes? (set : PatternSet) (state : Nat) : Option (List Nat) :=
  (set.dfa.status? state).map set.indices

/-- The patterns that accept in a product state; none in a state that does not
exist. -/
def acceptingTypes (set : PatternSet) (state : Nat) : List Nat :=
  (set.acceptingTypes? state).getD []

/-- A prefix of a text together with all patterns that match it. -/
structure Match where
  length : Nat
  types : List Nat
  deriving DecidableEq, Repr

/-- The longest prefix that some pattern matches. -/
def longest (set : PatternSet) (text : Bytes) : Option Match :=
  (set.dfa.longest (·.status) text).map fun hit =>
    ⟨hit.length, set.acceptingTypes hit.state⟩

end PatternSet

/-- Compile the collected patterns. -/
def PatternSetBuilder.compile (builder : PatternSetBuilder) : PatternSet :=
  .ofPatterns builder.patterns

end Munch
