import Munch.Proofs.Regex

/-!
# Searching finds the best match

A search tries the places of a text one after another, and at each of them it
knows only the matches that begin there. What it returns is nevertheless the
best of all matches in the text (`Best`), because the best of the places seen so
far is carried along: the longest match, of equally long ones the first, and
the first match, of those at one place the shortest.
-/

namespace Munch

namespace Pattern

/-- Whether a stretch of a text is a word of a pattern as a whole. -/
structure MatchesAt (pattern : Pattern) (text : Bytes) (span : Span) : Prop where
  ordered : span.first ≤ span.stop
  inside : span.stop ≤ text.length
  belongs : Matches pattern (span.slice text)

end Pattern

namespace Span

/-- Whether a stretch is longer than another, or as long and begins no later. -/
def LongestFirst (best other : Span) : Prop :=
  other.length < best.length ∨
    other.length = best.length ∧ best.first ≤ other.first

theorem LongestFirst.length_le {best other : Span}
    (goes : LongestFirst best other) : other.length ≤ best.length := by
  cases goes with
  | inl shorter => exact Nat.le_of_lt shorter
  | inr same => exact Nat.le_of_eq same.1

/-- Whether a stretch begins before another, or at the same place and is no
longer. -/
def FirstShortest (best other : Span) : Prop :=
  best.first < other.first ∨
    best.first = other.first ∧ best.length ≤ other.length

/-- Whether a search has found the candidate that goes before all others, or
nothing because there is no candidate. -/
def Best (before : Span → Span → Prop) (candidate : Span → Prop) :
    Option Span → Prop
  | none => ∀ span, ¬candidate span
  | some best => candidate best ∧ ∀ other, candidate other → before best other

variable {before : Span → Span → Prop} {candidate other : Span → Prop}
variable {result : Option Span}

@[simp] theorem length_mk_add (first length : Nat) :
    (Span.mk first (first + length)).length = length :=
  Nat.add_sub_cancel_left first length

/-- Stretches that begin at one place and are as long as each other are one. -/
theorem eq_of_length {one two : Span} (oneOrdered : one.first ≤ one.stop)
    (twoOrdered : two.first ≤ two.stop) (first : one.first = two.first)
    (length : one.length = two.length) : one = two := by
  have stop : one.stop = two.stop := by
    rw [← Nat.add_sub_of_le oneOrdered, ← Nat.add_sub_of_le twoOrdered]
    exact congrArg₂ (· + ·) first length
  exact congrArg₂ Span.mk first stop

theorem LongestFirst.antisymm {one two : Span}
    (oneOrdered : one.first ≤ one.stop) (twoOrdered : two.first ≤ two.stop)
    (goes : LongestFirst one two) (back : LongestFirst two one) :
    one = two := by
  have length := Nat.le_antisymm back.length_le goes.length_le
  cases goes with
  | inl shorter => exact absurd length (Nat.ne_of_gt shorter)
  | inr notLater =>
      cases back with
      | inl shorter => exact absurd length (Nat.ne_of_lt shorter)
      | inr notEarlier =>
          exact eq_of_length oneOrdered twoOrdered
            (Nat.le_antisymm notLater.2 notEarlier.2) length

theorem firstShortest_iff {best other : Span} :
    FirstShortest best other ↔ best.first ≤ other.first ∧
      (other.first = best.first → best.length ≤ other.length) := by
  rw [FirstShortest]
  omega

theorem FirstShortest.antisymm {one two : Span}
    (oneOrdered : one.first ≤ one.stop) (twoOrdered : two.first ≤ two.stop)
    (goes : FirstShortest one two) (back : FirstShortest two one) :
    one = two := by
  rw [firstShortest_iff] at goes back
  have first := Nat.le_antisymm goes.1 back.1
  exact eq_of_length oneOrdered twoOrdered first
    (Nat.le_antisymm (goes.2 first.symm) (back.2 first))

namespace Best

theorem congr (best : Best before candidate result)
    (same : ∀ span, candidate span ↔ other span) :
    Best before other result := by
  have equal : candidate = other := funext fun span => propext (same span)
  exact equal ▸ best

theorem eq_none_iff (best : Best before candidate result) :
    result = none ↔ ∀ span, ¬candidate span := by
  cases result with
  | none => exact iff_of_true rfl best
  | some found =>
      constructor
      · intro impossible
        cases impossible
      · intro none
        exact absurd best.1 (none found)

/-- Where no two candidates go before each other, the best one is the one that
goes before all others. -/
theorem eq_some_iff (best : Best before candidate result)
    (antisymm : ∀ one two, candidate one → candidate two →
      before one two → before two one → one = two) {span : Span} :
    result = some span ↔
      candidate span ∧ ∀ other, candidate other → before span other := by
  cases result with
  | none =>
      constructor
      · intro impossible
        cases impossible
      · intro passes
        exact absurd passes.1 (best span)
  | some found =>
      rw [Option.some.injEq]
      constructor
      · rintro rfl
        exact best
      · intro passes
        exact antisymm found span best.1 passes.1 (best.2 span passes.1)
          (passes.2 found best.1)

end Best

end Span

open Munch.Span

namespace Pattern

variable {pattern : Pattern} {front text : Bytes} {span : Span}

/-! ## Matches at one place -/

/-- The matches at a place are the prefixes of what follows the place. -/
theorem matchesAt_here_iff :
    pattern.MatchesAt (front ++ text) span ∧ span.first = front.length ↔
      ∃ length, span = ⟨front.length, front.length + length⟩ ∧
        length ≤ text.length ∧ Matches pattern (text.take length) := by
  constructor
  · rintro ⟨found, here⟩
    have inside := found.inside
    have belongs := found.belongs
    refine ⟨span.length, ?_, ?_, ?_⟩
    · apply eq_of_length found.ordered (Nat.le_add_right _ _) here
      rw [length_mk_add]
    · rw [List.length_append] at inside
      rw [Span.length]
      omega
    · rw [slice, here, List.drop_left] at belongs
      exact belongs
  · rintro ⟨length, rfl, inside, belongs⟩
    refine ⟨⟨Nat.le_add_right _ _, ?_, ?_⟩, rfl⟩
    · rw [List.length_append]
      exact Nat.add_le_add_left inside _
    · rwa [slice, length_mk_add, List.drop_left]

/-- An anchored scan finds the best match at its place, if the order prefers
what the scan looks for. -/
theorem best_here {before : Span → Span → Prop} {result : Option Nat}
    (none : result = none ↔
      ∀ length, length ≤ text.length → ¬Matches pattern (text.take length))
    (some : ∀ length, result = some length →
      (length ≤ text.length ∧ Matches pattern (text.take length)) ∧
        ∀ other, other ≤ text.length → Matches pattern (text.take other) →
          before ⟨front.length, front.length + length⟩
            ⟨front.length, front.length + other⟩) :
    Best before
      (fun span =>
        pattern.MatchesAt (front ++ text) span ∧ span.first = front.length)
      (result.map fun length => ⟨front.length, front.length + length⟩) := by
  cases result with
  | none =>
      intro span found
      rcases matchesAt_here_iff.mp found with ⟨length, _, inside, belongs⟩
      exact none.mp rfl length inside belongs
  | some length =>
      rcases some length rfl with ⟨belongs, best⟩
      refine ⟨matchesAt_here_iff.mpr ⟨length, rfl, belongs⟩, ?_⟩
      intro other found
      rcases matchesAt_here_iff.mp found with ⟨more, rfl, inside, also⟩
      exact best more inside also

theorem best_longest_here (pattern : Pattern) (front text : Bytes) :
    Best LongestFirst
      (fun span =>
        pattern.MatchesAt (front ++ text) span ∧ span.first = front.length)
      ((pattern.compile.longest text).map fun length =>
        ⟨front.length, front.length + length⟩) := by
  apply best_here longest_compile_eq_none_iff
  intro length found
  rcases longest_compile_eq_some_iff.mp found with ⟨belongs, largest⟩
  refine ⟨belongs, ?_⟩
  intro other inside also
  have atMost := largest other inside also
  rw [LongestFirst, length_mk_add, length_mk_add]
  exact (Nat.lt_or_eq_of_le atMost).imp_right fun same => ⟨same, Nat.le_refl _⟩

theorem best_shortest_here (pattern : Pattern) (front text : Bytes) :
    Best FirstShortest
      (fun span =>
        pattern.MatchesAt (front ++ text) span ∧ span.first = front.length)
      ((pattern.compile.shortest text).map fun length =>
        ⟨front.length, front.length + length⟩) := by
  apply best_here shortest_compile_eq_none_iff
  intro length found
  rcases shortest_compile_eq_some_iff.mp found with ⟨belongs, least⟩
  refine ⟨belongs, ?_⟩
  intro other inside also
  rw [FirstShortest, length_mk_add, length_mk_add]
  exact .inr ⟨rfl, least other inside also⟩

/-! ## Matches at all places -/

/-- The better of the best match so far and the best one of those that begin
behind it. -/
theorem best_preferLonger {earlier here : Span → Prop} {best : Option Span}
    {found : Span} (old : Best LongestFirst earlier best)
    (new : Best LongestFirst here (some found))
    (order : ∀ one two, earlier one → here two → one.first ≤ two.first) :
    Best LongestFirst (fun span => earlier span ∨ here span)
      (some (Regex.preferLonger best found)) := by
  cases best with
  | none =>
      refine ⟨.inr new.1, ?_⟩
      rintro other (early | late)
      · exact absurd early (old other)
      · exact new.2 other late
  | some best =>
      rw [Regex.preferLonger]
      split
      next longer =>
          refine ⟨.inr new.1, ?_⟩
          rintro other (early | late)
          · exact .inl (Nat.lt_of_le_of_lt (old.2 other early).length_le longer)
          · exact new.2 other late
      next notLonger =>
          refine ⟨.inl old.1, ?_⟩
          rintro other (early | late)
          · exact old.2 other early
          · have atMost := Nat.le_trans (new.2 other late).length_le
              (Nat.le_of_not_lt notLonger)
            exact (Nat.lt_or_eq_of_le atMost).imp_right fun same =>
              ⟨same, order best other old.1 late⟩

/-- What one place adds to the search for the longest match. -/
theorem best_longest_through {best : Option Span}
    (old : Best LongestFirst
      (fun span => pattern.MatchesAt (front ++ text) span ∧
        span.first < front.length) best) :
    Best LongestFirst
      (fun span => pattern.MatchesAt (front ++ text) span ∧
        span.first ≤ front.length)
      (match pattern.compile.longest text with
        | some length =>
            some (Regex.preferLonger best
              ⟨front.length, front.length + length⟩)
        | none => best) := by
  have here := best_longest_here pattern front text
  cases scanned : pattern.compile.longest text with
  | none =>
      rw [scanned] at here
      apply old.congr
      intro span
      rw [Nat.le_iff_lt_or_eq, and_or_left, or_iff_left (here span)]
  | some length =>
      rw [scanned] at here
      apply (best_preferLonger old here ?_).congr
      · intro span
        rw [Nat.le_iff_lt_or_eq, and_or_left]
      · intro one two early late
        rw [late.2]
        exact Nat.le_of_lt early.2

/-- Searching on from a place finds the longest match of all, when the longest
of those that begin in front of the place is known. -/
theorem best_findLongestFrom (pattern : Pattern) (text : Bytes) :
    ∀ (front : Bytes) (best : Option Span),
      Best LongestFirst
        (fun span => pattern.MatchesAt (front ++ text) span ∧
          span.first < front.length) best →
      Best LongestFirst (pattern.MatchesAt (front ++ text))
        (pattern.compile.findLongestFrom front.length best text) := by
  induction text with
  | nil =>
      intro front best old
      rw [Regex.findLongestFrom]
      apply (best_longest_through old).congr
      intro span
      apply and_iff_left_of_imp
      intro found
      have inside := Nat.le_trans found.ordered found.inside
      rwa [List.append_nil] at inside
  | cons byte text ih =>
      intro front best old
      have through := best_longest_through old
      rw [List.append_cons] at through ⊢
      have behind := ih (front ++ [byte]) _ (through.congr ?_)
      · rw [List.length_append] at behind
        exact behind
      · intro span
        rw [List.length_append, List.length_singleton, Nat.lt_succ_iff]

/-- What one place adds to the search for the first match. -/
theorem best_shortest_through {rest : Option Span}
    (behind : Best FirstShortest
      (fun span => pattern.MatchesAt (front ++ text) span ∧
        front.length < span.first) rest) :
    Best FirstShortest
      (fun span => pattern.MatchesAt (front ++ text) span ∧
        front.length ≤ span.first)
      (match pattern.compile.shortest text with
        | some length => some ⟨front.length, front.length + length⟩
        | none => rest) := by
  have here := best_shortest_here pattern front text
  cases scanned : pattern.compile.shortest text with
  | none =>
      rw [scanned] at here
      apply behind.congr
      intro span
      rw [Nat.le_iff_lt_or_eq, and_or_left, eq_comm, or_iff_left (here span)]
  | some length =>
      rw [scanned] at here
      refine ⟨⟨here.1.1, Nat.le_refl _⟩, ?_⟩
      rintro other ⟨found, notBefore⟩
      cases Nat.eq_or_lt_of_le notBefore with
      | inl same => exact here.2 other ⟨found, same.symm⟩
      | inr later => exact .inl later

/-- Searching on from a place finds the first match of those that do not begin
in front of it. -/
theorem best_findFirstFrom (pattern : Pattern) (text : Bytes) :
    ∀ front : Bytes,
      Best FirstShortest
        (fun span => pattern.MatchesAt (front ++ text) span ∧
          front.length ≤ span.first)
        (pattern.compile.findFirstFrom front.length text) := by
  induction text with
  | nil =>
      intro front
      rw [Regex.findFirstFrom]
      apply best_shortest_through
      rintro span ⟨found, behind⟩
      have inside := Nat.le_trans found.ordered found.inside
      rw [List.append_nil] at inside
      exact absurd behind (Nat.not_lt.mpr inside)
  | cons byte text ih =>
      intro front
      rw [Regex.findFirstFrom]
      apply best_shortest_through
      have behind := ih (front ++ [byte])
      rw [← List.append_cons, List.length_append] at behind
      exact behind

/-! ## Searches -/

theorem best_findLongest (pattern : Pattern) (text : Bytes) :
    Best LongestFirst (pattern.MatchesAt text)
      (pattern.compile.findLongest text) := by
  apply best_findLongestFrom pattern text []
  rintro span ⟨_, before⟩
  exact absurd before (Nat.not_lt_zero _)

theorem best_findFirst (pattern : Pattern) (text : Bytes) :
    Best FirstShortest (pattern.MatchesAt text)
      (pattern.compile.findFirst text) := by
  apply (best_findFirstFrom pattern text []).congr
  intro span
  exact and_iff_left (Nat.zero_le _)

/-- A search for the longest match finds the stretch that is a word of the
pattern as a whole and longer than all others that are, or as long and no later.
A search for the first match finds the one that no other begins in front of and
that is no longer than the others at its place. Neither finds anything exactly
if no stretch of the text, not even an empty one, is a word of the pattern. -/
theorem find_eq_iff (pattern : Pattern) (text : Bytes) :
    let regex := pattern.compile
    (∀ span, regex.findLongest text = some span ↔
      pattern.MatchesAt text span ∧
        ∀ other, pattern.MatchesAt text other →
          other.length < span.length ∨
            other.length = span.length ∧ span.first ≤ other.first) ∧
    (∀ span, regex.findFirst text = some span ↔
      pattern.MatchesAt text span ∧
        (∀ other, pattern.MatchesAt text other → span.first ≤ other.first) ∧
        ∀ other, pattern.MatchesAt text other → other.first = span.first →
          span.length ≤ other.length) ∧
    (regex.findLongest text = none ↔ ∀ span, ¬pattern.MatchesAt text span) ∧
    (regex.findFirst text = none ↔ ∀ span, ¬pattern.MatchesAt text span) := by
  have longest := best_findLongest pattern text
  have first := best_findFirst pattern text
  refine ⟨?_, ?_, longest.eq_none_iff, first.eq_none_iff⟩
  · intro span
    exact longest.eq_some_iff fun one two found also =>
      LongestFirst.antisymm found.ordered also.ordered
  · intro span
    rw [first.eq_some_iff fun one two found also =>
      FirstShortest.antisymm found.ordered also.ordered]
    simp only [firstShortest_iff, imp_and, forall_and]

end Pattern

end Munch
