import Munch.Proofs.PatternSet

/-!
# A set of patterns and their alternation

How long the longest match of a set is depends only on which words some pattern
of the set matches (`lengthOfLongest_congr`). The alternation of the patterns
matches just these words, so it finds matches of the same lengths as the set,
although its automaton merges the patterns by free moves where the set runs them
side by side. For the same reason a set does not notice whether some of its
patterns are listed one by one or as an alternation.
-/

namespace Munch

namespace PatternSet

variable {patterns left right : List Pattern} {text : Bytes}

/-- The length of the longest prefix that some pattern matches. -/
def lengthOfLongest (set : PatternSet) (text : Bytes) : Option Nat :=
  (set.longest text).map (·.length)

theorem lengthOfLongest_eq_some_iff {length : Nat} :
    (ofPatterns patterns).lengthOfLongest text = some length ↔
      (length ≤ text.length ∧
        Pattern.SomeMatches patterns (text.take length)) ∧
        ∀ other, other ≤ text.length →
          Pattern.SomeMatches patterns (text.take other) → other ≤ length := by
  rw [lengthOfLongest, longest, Dfa.longest_eq (rejectsFinally_ofPatterns _)]
  simp only [Option.map_map, Function.comp_def, Option.map_id',
    getLast?_eq_some_iff_largest (acceptedLengths_ascending _ _),
    mem_acceptedLengths, acceptsFrom_ofPatterns, and_imp]

/-- The length of the longest match depends only on which words some pattern
matches. -/
theorem lengthOfLongest_congr
    (same : ∀ word,
      Pattern.SomeMatches left word ↔ Pattern.SomeMatches right word)
    (text : Bytes) :
    (ofPatterns left).lengthOfLongest text =
      (ofPatterns right).lengthOfLongest text := by
  apply Option.ext
  intro length
  simp only [lengthOfLongest_eq_some_iff, same]

/-- A set finds the lengths that a pattern finds which matches what some pattern
of the set matches. -/
theorem lengthOfLongest_eq_longest {pattern : Pattern}
    (same : ∀ word,
      Pattern.Matches pattern word ↔ Pattern.SomeMatches patterns word)
    (text : Bytes) :
    (ofPatterns patterns).lengthOfLongest text =
      pattern.compile.longest text := by
  apply Option.ext
  intro length
  rw [lengthOfLongest_eq_some_iff, Pattern.longest_compile_eq_some_iff]
  simp only [same]

/-- A set of at least one pattern finds matches of the same lengths as the
alternation of its patterns. So an alternation among the patterns of a set finds
what its own patterns find when they are listed in its place. -/
theorem lengthOfLongest_eq_alternate :
    (∀ patterns : List Pattern, patterns ≠ [] → ∀ text : Bytes,
      (ofPatterns patterns).lengthOfLongest text =
        (Pattern.alternate patterns).compile.longest text) ∧
    ∀ before children behind : List Pattern, children ≠ [] → ∀ text : Bytes,
      (ofPatterns (before ++ .alternate children :: behind)).lengthOfLongest
          text =
        (ofPatterns (before ++ children ++ behind)).lengthOfLongest text := by
  constructor
  · intro patterns nonempty text
    exact lengthOfLongest_eq_longest
      (fun _ => Pattern.matches_alternate_iff nonempty) text
  · intro before children behind nonempty text
    apply lengthOfLongest_congr
    intro word
    simp only [Pattern.someMatches_append, Pattern.someMatches_cons,
      Pattern.matches_alternate_iff nonempty, or_assoc]

/-- A pattern that matches nothing, one that matches the empty word, and a word
that begins like words of the second and goes on differently. -/
theorem lengthOfLongest_threeKinds :
    let dead : Pattern := .charset []
    let both : List Pattern := [.star (.byte 97), .literal [97, 97, 98]]
    dead :: both ≠ [] ∧ both ≠ [] ∧
      (ofPatterns (dead :: both)).lengthOfLongest [97, 97, 98, 97] = some 3 ∧
      (ofPatterns [dead, .alternate both]).lengthOfLongest [97, 97, 98, 97] =
        some 3 := by
  intro dead both
  have first : dead :: both ≠ [] := List.cons_ne_nil _ _
  have second : both ≠ [] := List.cons_ne_nil _ _
  have listed := lengthOfLongest_eq_alternate.1 (dead :: both) first
    [97, 97, 98, 97]
  have nested := lengthOfLongest_eq_alternate.2 [dead] both [] second
    [97, 97, 98, 97]
  rw [Pattern.longest_compile] at listed
  have found : (Pattern.alternate (dead :: both)).longest [97, 97, 98, 97] =
      some 3 := by
    decide +kernel
  exact ⟨first, second, listed.trans found, nested.trans (listed.trans found)⟩

end PatternSet

end Munch
