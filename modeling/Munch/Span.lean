/-!
# Stretches of consecutive places

A stretch is named by its first place and the place behind its last one. Matches
in a text, parts of an automaton and shares of a buffer are all stretches.
-/

namespace Munch

/-- The places `first, …, stop - 1`. -/
structure Span where
  first : Nat
  stop : Nat
  deriving DecidableEq, Repr

namespace Span

/-- The number of places. -/
def length (span : Span) : Nat :=
  span.stop - span.first

/-- What a list holds at the places of a stretch. -/
def slice {α : Type} (span : Span) (values : List α) : List α :=
  (values.drop span.first).take span.length

/-- What an array holds at the places of a stretch. -/
def extract {α : Type} (span : Span) (values : Array α) : List α :=
  (values.extract span.first span.stop).toList

@[simp] theorem extract_toArray {α : Type} (span : Span) (values : List α) :
    span.extract values.toArray = span.slice values := by
  simp [extract, slice, length, List.extract_eq_take_drop]

end Span

end Munch
