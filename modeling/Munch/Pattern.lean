import Munch.Byte.Table

/-!
# Patterns over bytes

A pattern is a regular expression without a textual syntax: it is put together
from six kinds of node. Repetition forms and byte ranges are built from these
kinds, so everything that reads patterns has six cases to consider.
-/

namespace Munch

/-- A regular expression over bytes.

A concatenation or an alternation without children stands for the empty word, as
`epsilon` does. A character set lists its bytes in any order and possibly more
than once; one without bytes matches nothing. -/
inductive Pattern where
  | epsilon
  | literal (bytes : Bytes)
  | charset (bytes : Bytes)
  | concatenate (children : List Pattern)
  | alternate (children : List Pattern)
  | star (inner : Pattern)
  deriving Inhabited

namespace Pattern

/-- The literal of a single byte. -/
def byte (value : UInt8) : Pattern :=
  .literal [value]

/-- The bytes from `low` to `high`, both included, in ascending order. -/
def bytesBetween (low high : UInt8) : Bytes :=
  allBytes.filter fun byte => low ≤ byte && byte ≤ high

/-- Any byte from `low` to `high`, both included. No byte when `high < low`. -/
def byteRange (low high : UInt8) : Pattern :=
  .charset (bytesBetween low high)

/-- One or more words of `inner`. -/
def plus (inner : Pattern) : Pattern :=
  .concatenate [inner, .star inner]

/-- A word of `inner` or the empty word. -/
def optional (inner : Pattern) : Pattern :=
  .alternate [inner, .epsilon]

/-- Exactly `count` words of `inner`. -/
def exactly (inner : Pattern) (count : Nat) : Pattern :=
  .concatenate (List.replicate count inner)

mutual

/-- Whether two patterns are built alike, node for node and byte for byte. -/
def same : Pattern → Pattern → Bool
  | .epsilon, .epsilon => true
  | .literal left, .literal right => left == right
  | .charset left, .charset right => left == right
  | .concatenate left, .concatenate right => sameAll left right
  | .alternate left, .alternate right => sameAll left right
  | .star left, .star right => left.same right
  | _, _ => false

/-- Whether two lists of patterns are built alike, one by one. -/
def sameAll : List Pattern → List Pattern → Bool
  | [], [] => true
  | left :: lefts, right :: rights => left.same right && sameAll lefts rights
  | _, _ => false

end

mutual

theorem same_eq_true : (left right : Pattern) → (left.same right = true ↔ left = right)
  | .epsilon, right => by cases right <;> simp [same]
  | .literal _, right => by cases right <;> simp [same]
  | .charset _, right => by cases right <;> simp [same]
  | .concatenate left, right => by
      cases right <;> simp [same]
      exact sameAll_eq_true left _
  | .alternate left, right => by
      cases right <;> simp [same]
      exact sameAll_eq_true left _
  | .star left, right => by
      cases right <;> simp [same]
      exact same_eq_true left _

theorem sameAll_eq_true :
    (lefts rights : List Pattern) → (sameAll lefts rights = true ↔ lefts = rights)
  | [], rights => by cases rights <;> simp [sameAll]
  | left :: lefts, rights => by
      cases rights with
      | nil => simp [sameAll]
      | cons right rights =>
        simp [sameAll, same_eq_true left right, sameAll_eq_true lefts rights]

end

instance : DecidableEq Pattern := fun left right =>
  if equal : left.same right = true then
    isTrue ((same_eq_true left right).mp equal)
  else
    isFalse fun assumed => equal ((same_eq_true left right).mpr assumed)

/-- Proof by cases on the kind of a node, where the children of a list node may
be assumed to have the property already. -/
theorem induction {property : Pattern → Prop}
    (epsilon : property .epsilon)
    (literal : ∀ bytes, property (.literal bytes))
    (charset : ∀ bytes, property (.charset bytes))
    (concatenate : ∀ children, (∀ child ∈ children, property child) →
      property (.concatenate children))
    (alternate : ∀ children, (∀ child ∈ children, property child) →
      property (.alternate children))
    (star : ∀ inner, property inner → property (.star inner)) :
    ∀ pattern, property pattern := by
  intro pattern
  refine Pattern.rec (motive_1 := property)
    (motive_2 := fun children => ∀ child ∈ children, property child)
    epsilon literal charset concatenate alternate star ?_ ?_ pattern
  · intro child member
    cases member
  · intro head tail headProperty tailProperty child member
    cases member with
    | head => exact headProperty
    | tail _ member => exact tailProperty child member

end Pattern

end Munch
