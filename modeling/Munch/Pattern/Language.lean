import Munch.Pattern

/-!
# The language of a pattern

`Matches pattern word` says that a word as a whole belongs to the pattern. It is
defined by rules, one or two for each kind of node, and knows neither texts nor
places nor automata: everything that decides matching can be measured by it.

The rules for a node are read backwards in the lemmas `matches_…`, one for each
kind. `SomeMatches` says that a word belongs to one of several patterns.
-/

namespace Munch

namespace Pattern

/-- The words that belong to a pattern. A concatenation or an alternation without
children has the empty word, and only that. -/
inductive Matches : Pattern → Bytes → Prop
  | epsilon : Matches .epsilon []
  | literal (bytes : Bytes) : Matches (.literal bytes) bytes
  | charset {bytes : Bytes} {byte : UInt8} (listed : byte ∈ bytes) :
      Matches (.charset bytes) [byte]
  | concatenateNil : Matches (.concatenate []) []
  | concatenateCons {child : Pattern} {children : List Pattern} {first rest : Bytes}
      (head : Matches child first) (tail : Matches (.concatenate children) rest) :
      Matches (.concatenate (child :: children)) (first ++ rest)
  | alternateNil : Matches (.alternate []) []
  | alternate {child : Pattern} {children : List Pattern} {word : Bytes}
      (listed : child ∈ children) (branch : Matches child word) :
      Matches (.alternate children) word
  | starNil {inner : Pattern} : Matches (.star inner) []
  | starCons {inner : Pattern} {first rest : Bytes}
      (head : Matches inner first) (tail : Matches (.star inner) rest) :
      Matches (.star inner) (first ++ rest)

theorem matches_epsilon {word : Bytes} : Matches .epsilon word ↔ word = [] := by
  constructor
  · intro belongs
    cases belongs
    rfl
  · rintro rfl
    exact .epsilon

theorem matches_literal {bytes word : Bytes} : Matches (.literal bytes) word ↔ word = bytes := by
  constructor
  · intro belongs
    cases belongs
    rfl
  · rintro rfl
    exact .literal _

theorem matches_charset {bytes word : Bytes} :
    Matches (.charset bytes) word ↔ ∃ byte ∈ bytes, word = [byte] := by
  constructor
  · intro belongs
    cases belongs with
    | charset listed => exact ⟨_, listed, rfl⟩
  · rintro ⟨byte, listed, rfl⟩
    exact .charset listed

theorem matches_concatenate_nil {word : Bytes} :
    Matches (.concatenate []) word ↔ word = [] := by
  constructor
  · intro belongs
    cases belongs
    rfl
  · rintro rfl
    exact .concatenateNil

theorem matches_concatenate_cons {child : Pattern} {children : List Pattern} {word : Bytes} :
    Matches (.concatenate (child :: children)) word ↔
      ∃ first rest, word = first ++ rest ∧ Matches child first ∧
        Matches (.concatenate children) rest := by
  constructor
  · intro belongs
    cases belongs with
    | concatenateCons head tail => exact ⟨_, _, rfl, head, tail⟩
  · rintro ⟨first, rest, rfl, head, tail⟩
    exact .concatenateCons head tail

theorem matches_alternate_nil {word : Bytes} : Matches (.alternate []) word ↔ word = [] := by
  constructor
  · intro belongs
    cases belongs with
    | alternateNil => rfl
    | alternate listed _ => cases listed
  · rintro rfl
    exact .alternateNil

theorem matches_alternate_cons {child : Pattern} {children : List Pattern} {word : Bytes} :
    Matches (.alternate (child :: children)) word ↔
      ∃ branch ∈ child :: children, Matches branch word := by
  constructor
  · intro belongs
    cases belongs with
    | alternate listed branch => exact ⟨_, listed, branch⟩
  · rintro ⟨branch, listed, belongs⟩
    exact .alternate listed belongs

/-- A word of a star is a row of words of what it repeats. -/
theorem matches_star {inner : Pattern} {word : Bytes} :
    Matches (.star inner) word ↔
      ∃ parts : List Bytes, word = parts.flatten ∧ ∀ part ∈ parts, Matches inner part := by
  constructor
  · intro belongs
    generalize equal : Pattern.star inner = pattern at belongs
    induction belongs with
    | starNil => exact ⟨[], rfl, by simp⟩
    | @starCons other first rest head _ _ tailParts =>
      cases equal
      rcases tailParts rfl with ⟨parts, rfl, all⟩
      refine ⟨first :: parts, rfl, ?_⟩
      intro part member
      rcases List.mem_cons.mp member with rfl | member
      · exact head
      · exact all part member
    | _ => cases equal
  · rintro ⟨parts, rfl, all⟩
    induction parts with
    | nil => exact .starNil
    | cons first parts ih =>
      exact .starCons (all first (by simp)) (ih fun part member => all part (by simp [member]))

/-! Two children one behind the other, two to choose from, and one to leave
out. -/

theorem matches_pair {first second : Pattern} {word : Bytes} :
    Matches (.concatenate [first, second]) word ↔
      ∃ front back, word = front ++ back ∧ Matches first front ∧
        Matches second back := by
  simp [matches_concatenate_cons, matches_concatenate_nil]

theorem matches_either {first second : Pattern} {word : Bytes} :
    Matches (.alternate [first, second]) word ↔
      Matches first word ∨ Matches second word := by
  simp [matches_alternate_cons]

theorem matches_optional {inner : Pattern} {word : Bytes} :
    Matches (.optional inner) word ↔ word = [] ∨ Matches inner word := by
  rw [Pattern.optional, matches_either, matches_epsilon, or_comm]

/-! The words of several patterns together. -/

/-- Whether a word belongs to one of several patterns. -/
def SomeMatches (patterns : List Pattern) (word : Bytes) : Prop :=
  ∃ pattern ∈ patterns, Pattern.Matches pattern word

theorem someMatches_append {left right : List Pattern} {word : Bytes} :
    SomeMatches (left ++ right) word ↔
      SomeMatches left word ∨ SomeMatches right word := by
  simp only [SomeMatches, List.mem_append, or_and_right, exists_or]

theorem someMatches_cons {pattern : Pattern} {patterns : List Pattern}
    {word : Bytes} :
    SomeMatches (pattern :: patterns) word ↔
      Matches pattern word ∨ SomeMatches patterns word := by
  simp only [SomeMatches, List.mem_cons, or_and_right, exists_or,
    exists_eq_left]

/-- An alternation of at least one pattern has the words that belong to some of
them. -/
theorem matches_alternate_iff {patterns : List Pattern} {word : Bytes}
    (nonempty : patterns ≠ []) :
    Matches (.alternate patterns) word ↔ SomeMatches patterns word := by
  cases patterns with
  | nil => exact absurd rfl nonempty
  | cons pattern patterns => exact matches_alternate_cons

end Pattern

end Munch
