import Munch.Dfa.Scan
import Munch.Dfa.Subset
import Munch.Pattern.Automaton
import Munch.Span

/-!
# Compiled patterns

A compiled pattern is its deterministic automaton. It answers how much of the
beginning of a text the pattern matches, and where in a text it matches.
-/

namespace Munch

/-- A pattern compiled to a deterministic automaton. -/
structure Regex where
  dfa : Dfa Status
  deriving DecidableEq

/-- Compile a pattern. -/
def Pattern.compile (pattern : Pattern) : Regex :=
  ⟨pattern.toNfa.toDfa⟩

namespace Regex

/-- The length of the longest prefix that the pattern matches. -/
def longest (regex : Regex) (text : Bytes) : Option Nat :=
  (regex.dfa.longest id text).map (·.length)

/-- The length of the shortest prefix that the pattern matches. -/
def shortest (regex : Regex) (text : Bytes) : Option Nat :=
  regex.dfa.shortest id text

/-- Whether the pattern matches a text as a whole. -/
def isMatch (regex : Regex) (text : Bytes) : Bool :=
  regex.longest text == some text.length

/-- The better of two stretches: the second only if it is longer. -/
def preferLonger (best : Option Span) (found : Span) : Span :=
  match best with
  | some best => if best.length < found.length then found else best
  | none => found

/-- The longest match that begins at `offset` or later, where `text` is what
follows `offset`, or `best` if none of them is longer. -/
def findLongestFrom (regex : Regex) (offset : Nat) (best : Option Span) (text : Bytes) :
    Option Span :=
  let best := match regex.longest text with
    | some length => some (preferLonger best ⟨offset, offset + length⟩)
    | none => best
  match text with
  | [] => best
  | _ :: text => regex.findLongestFrom (offset + 1) best text

/-- The longest match anywhere in a text; of equally long ones the earliest. -/
def findLongest (regex : Regex) (text : Bytes) : Option Span :=
  regex.findLongestFrom 0 none text

/-- The shortest match at the first place from `offset` on that has a match,
where `text` is what follows `offset`. -/
def findFirstFrom (regex : Regex) (offset : Nat) (text : Bytes) : Option Span :=
  match regex.shortest text with
  | some length => some ⟨offset, offset + length⟩
  | none =>
      match text with
      | [] => none
      | _ :: text => regex.findFirstFrom (offset + 1) text

/-- The shortest match at the first place in a text that has a match. -/
def findFirst (regex : Regex) (text : Bytes) : Option Span :=
  regex.findFirstFrom 0 text

end Regex

end Munch
