import Munch.Pattern.Automaton
import Munch.Pattern.Language
import Munch.Proofs.Pattern.Leaf

/-!
# A pattern laid out accepts its language

Wherever the states that a pattern needs exist and have no free moves, laying it
out succeeds, leaves every other state as it was, and makes the stretch a part
that accepts exactly the words of the pattern (`lay?_laid`). The proof follows
the pattern; the children of a concatenation or an alternation first become a
row of parts side by side.
-/

namespace Munch

namespace Nfa

variable {left right : Nfa}

/-- What laying out does: it fills a stretch with a part and leaves all other
states alone. -/
structure Laid (before after : Nfa) (span : Span) (language : Bytes → Prop) :
    Prop where
  size : after.size = before.size
  outside : ∀ state, state ∉ span → after.states[state]? = before.states[state]?
  placed : after.Placed span language

theorem Placed.congr_language {nfa : Nfa} {span : Span}
    {language other : Bytes → Prop} (placed : nfa.Placed span language)
    (agree : ∀ word, language word ↔ other word) :
    nfa.Placed span other where
  part := {
    inside := placed.part.inside
    fits := placed.part.fits
    tame := placed.part.tame
    accepts := fun word => (placed.part.accepts word).trans (agree word) }
  start := placed.start

theorem Placed.laid {nfa : Nfa} {change : Nat → NfaState → NfaState}
    {span : Span}
    {language : Bytes → Prop} (placed : (nfa.edit change).Placed span language)
    (outside : ∀ state, state ∉ span → ∀ found, change state found = found) :
    nfa.Laid (nfa.edit change) span language where
  size := size_edit change
  outside :=
    fun state notInside => getElem?_edit_of_same (outside state notInside)
  placed := placed

theorem Laid.congr_language {before after : Nfa} {span : Span}
    {language other : Bytes → Prop} (laid : before.Laid after span language)
    (agree : ∀ word, language word ↔ other word) :
    before.Laid after span other where
  size := laid.size
  outside := laid.outside
  placed := laid.placed.congr_language agree

theorem Bare.mono {first stop innerFirst innerStop : Nat}
    (bare : left.Bare ⟨first, stop⟩)
    (before : first ≤ innerFirst) (behind : innerStop ≤ stop) :
    left.Bare ⟨innerFirst, innerStop⟩ :=
  fun state inside => bare state (Span.within before behind state inside)

theorem Bare.congr {span : Span} (bare : left.Bare span)
    (same : ∀ state ∈ span, right.states[state]? = left.states[state]?) :
    right.Bare span := by
  intro state inside
  rw [Nfa.epsilons, same state inside]
  exact bare state inside

/-- A gate stays one as long as its two states are left alone. -/
theorem Gate.congr {entry : Nat} {targets : List Nat} {accept : Bool}
    (gate : left.Gate entry targets accept)
    (same : ∀ state, state = entry ∨ state = entry + 1 →
      right.states[state]? = left.states[state]?) :
      right.Gate entry targets accept := by
  have sameEntry := same entry (.inl rfl)
  have sameSink := same (entry + 1) (.inr rfl)
  constructor
  · rw [Nfa.flags, sameEntry]
    exact gate.marks
  · rw [Nfa.epsilons, sameEntry]
    exact gate.epsilons
  · intro byte
    rw [target?, sameEntry]
    exact gate.target byte
  · constructor
    · rw [Nfa.flags, sameSink]
      exact gate.sink.accept
    · rw [Nfa.epsilons, sameSink]
      exact gate.sink.epsilons
    · intro byte
      rw [target?, sameSink]
      exact gate.sink.target byte
  · rw [Nfa.flags, sameSink]
    exact gate.quiet

end Nfa

namespace Pattern

open Nfa

variable {nfa left right : Nfa}

/-! ## Rows of parts -/

/-- Whether parts for the given patterns lie side by side from a place on. -/
def Row (nfa : Nfa) : (offset : Nat) → List Pattern → Prop
  | _, [] => True
  | offset, child :: children =>
      nfa.Placed ⟨offset, offset + child.needed⟩ (Matches child) ∧
        Row nfa (offset + child.needed) children

theorem Row.congr {offset : Nat} {children : List Pattern}
    (row : Row left offset children) (size : right.size = left.size)
    (same : ∀ state ∈ (⟨offset, offset + neededAll children⟩ : Span),
      right.states[state]? = left.states[state]?) :
      Row right offset children := by
  induction children generalizing offset with
  | nil => trivial
  | cons child children ih =>
      rw [neededAll] at same
      constructor
      · apply row.1.congr size
        intro state inside
        apply same state
        rw [Span.mem_mk] at inside ⊢
        omega
      · apply ih row.2
        intro state inside
        apply same state
        rw [Span.mem_mk] at inside ⊢
        omega

/-- The stretches of a row lie within it. -/
theorem within_of_mem_spans {offset : Nat} {children : List Pattern}
    {span : Span} (listed : span ∈ spans offset children) :
    offset ≤ span.first ∧ span.stop ≤ offset + neededAll children := by
  induction children generalizing offset with
  | nil => cases listed
  | cons child children ih =>
      rw [neededAll]
      rw [spans] at listed
      cases listed with
      | head => exact ⟨Nat.le_refl _, show offset + child.needed ≤ _ by omega⟩
      | tail _ listed =>
          have := ih listed
          omega

/-- The stretches of a row fill it. -/
theorem exists_mem_spans {offset : Nat} {children : List Pattern} {state : Nat}
    (inside : state ∈ (⟨offset, offset + neededAll children⟩ : Span)) :
    ∃ span ∈ spans offset children, state ∈ span := by
  induction children generalizing offset with
  | nil =>
      rw [Span.mem_mk, neededAll] at inside
      omega
  | cons child children ih =>
      rw [spans]
      by_cases first : state < offset + child.needed
      · exact ⟨_, List.mem_cons_self, inside.1, first⟩
      · rw [Span.mem_mk, neededAll] at inside
        have behind : state ∈ (⟨offset + child.needed,
            offset + child.needed + neededAll children⟩ : Span) := by
          rw [Span.mem_mk]
          omega
        rcases ih behind with ⟨span, listed, inSpan⟩
        exact ⟨span, List.mem_cons_of_mem _ listed, inSpan⟩

/-- The stretches of a row do not overlap. -/
theorem spans_apart (offset : Nat) (children : List Pattern) :
    (spans offset children).Pairwise fun left right =>
      ∀ state ∈ left, state ∉ right := by
  induction children generalizing offset with
  | nil => exact .nil
  | cons child children ih =>
      rw [spans]
      apply List.Pairwise.cons
      · intro span listed state inFirst inSpan
        have := within_of_mem_spans listed
        have := inSpan.1
        rw [Span.mem_mk] at inFirst
        omega
      · exact ih (offset + child.needed)

theorem Row.entered {offset : Nat} {children : List Pattern}
    (row : Row nfa offset children) :
    ∀ span ∈ spans offset children, nfa.Entered span := by
  induction children generalizing offset with
  | nil =>
      intro span listed
      cases listed
  | cons child children ih =>
      intro span listed
      rw [spans] at listed
      cases listed with
      | head => exact row.1.entered
      | tail _ listed => exact ih row.2 span listed

theorem Row.parts {offset : Nat} {children : List Pattern}
    (row : Row nfa offset children) :
    ∀ span ∈ spans offset children,
      nfa.Part span (nfa.AcceptsFrom span.first) := by
  induction children generalizing offset with
  | nil =>
      intro span listed
      cases listed
  | cons child children ih =>
      intro span listed
      rw [spans] at listed
      cases listed with
      | head => exact ⟨row.1.part.inside, row.1.part.fits, row.1.part.tame,
        fun _ => Iff.rfl⟩
      | tail _ listed => exact ih row.2 span listed

/-- What one of the parts of a row accepts belongs to one of its patterns. -/
theorem Row.acceptsFrom_iff {offset : Nat} {children : List Pattern}
    (row : Row nfa offset children) {word : Bytes} :
    (∃ span ∈ spans offset children, nfa.AcceptsFrom span.first word) ↔
      ∃ child ∈ children, Matches child word := by
  induction children generalizing offset with
  | nil => simp [spans]
  | cons child children ih =>
      rw [spans, List.exists_mem_cons_iff, List.exists_mem_cons_iff, ih row.2,
        row.1.part.accepts word]

/-! ## Concatenation -/

/-- One link of a chain: the stretch so far, which accepts only in its last
part, and the part behind it become one stretch, which accepts only in that
part. -/
theorem follow?_laid {first : Nat} {last second : Span}
    {former latter : Bytes → Prop}
    (placed : nfa.Placed ⟨first, last.stop⟩ former)
    (follower : nfa.Placed second latter)
    (adjacent : last.stop = second.first) (firstBelow : first ≤ last.first)
    (ordered : last.first ≤ last.stop)
    (only : ∀ state ∈ (⟨first, last.stop⟩ : Span),
      (nfa.flags state).accept = true →
      state ∈ last) :
    ∃ after, follow? last second nfa = some after ∧
      nfa.Laid after ⟨first, second.stop⟩ (fun word =>
        ∃ before behind, word = before ++ behind ∧ former before ∧
          latter behind) ∧
      ∀ state ∈ (⟨first, second.stop⟩ : Span),
        (after.flags state).accept = true →
        state ∈ second := by
  have within : ∀ state ∈ last, state ∈ (⟨first, last.stop⟩ : Span) := by
    intro state inside
    exact ⟨firstBelow.trans inside.1, inside.2⟩
  have secondInside := follower.part.inside
  have exits := exits_follow placed.part adjacent only
  refine ⟨_, follow?_eq_edit ordered (Nat.le_of_eq adjacent) follower.entered,
    ⟨size_edit _, ?_, placed.follow follower adjacent within only⟩, ?_⟩
  · intro state outside
    rw [Span.mem_mk] at outside
    apply getElem?_edit_of_same
    intro found
    rw [followChange, if_neg, if_neg]
    · rw [Span.mem_iff]
      omega
    · rw [Span.mem_iff]
      omega
  · intro state inside accepts
    by_contra outside
    have inFirst : state ∈ (⟨first, last.stop⟩ : Span) := by
      rw [Span.mem_mk] at inside ⊢
      rw [Span.mem_iff] at outside
      omega
    rw [exits.accept state inFirst] at accepts
    cases accepts

/-- Chaining the rest of a row behind a part that accepts only in its last
stretch makes one part of all of them. -/
theorem chain?_laid (children : List Pattern) {first : Nat} (last : Span)
    {former : Bytes → Prop} (placed : nfa.Placed ⟨first, last.stop⟩ former)
    (firstBelow : first ≤ last.first) (ordered : last.first ≤ last.stop)
    (only : ∀ state ∈ (⟨first, last.stop⟩ : Span),
      (nfa.flags state).accept = true → state ∈ last)
    (row : Row nfa last.stop children) :
    ∃ after, chain? (last :: spans last.stop children) nfa = some after ∧
      nfa.Laid after ⟨first, last.stop + neededAll children⟩ fun word =>
        ∃ before behind, word = before ++ behind ∧ former before ∧
          Matches (.concatenate children) behind := by
  induction children generalizing nfa last former with
  | nil =>
      refine ⟨nfa, rfl, rfl, fun _ _ => rfl, ?_⟩
      rw [neededAll, Nat.add_zero]
      apply placed.congr_language
      intro word
      simp [matches_concatenate_nil]
  | cons child children ih =>
      rcases row with ⟨childPlaced, rest⟩
      rcases follow?_laid placed childPlaced rfl firstBelow ordered only
        with ⟨joined, follows, joinedLaid, joinedOnly⟩
      have joinedRest := rest.congr joinedLaid.size fun state inside =>
        joinedLaid.outside state (fun within =>
          Nat.not_lt.mpr inside.1 within.2)
      rcases ih _ joinedLaid.placed (firstBelow.trans ordered)
          (Nat.le_add_right _ _) joinedOnly
        joinedRest with ⟨after, chained, laid⟩
      refine ⟨after, ?_, ?_⟩
      · rw [spans, chain?, follows]
        exact chained
      · rw [neededAll, ← Nat.add_assoc]
        constructor
        · rw [laid.size, joinedLaid.size]
        · intro state outside
          rw [laid.outside state outside]
          apply joinedLaid.outside
          rw [Span.mem_mk] at outside
          show state ∉ (⟨first, last.stop + child.needed⟩ : Span)
          rw [Span.mem_mk]
          omega
        · apply laid.placed.congr_language
          intro word
          simp only [matches_concatenate_cons]
          constructor
          · rintro ⟨_, behind, rfl,
              ⟨before, middle, rfl, former, belongs⟩, others⟩
            exact ⟨before, middle ++ behind, List.append_assoc .., former,
              middle, behind, rfl, belongs, others⟩
          · rintro ⟨before, _, rfl, former, middle, behind, rfl,
              belongs, others⟩
            exact ⟨before ++ middle, behind, (List.append_assoc ..).symm,
              ⟨before, middle, rfl, former, belongs⟩, others⟩

/-! ## Leaves -/

theorem pairChange_outside {offset : Nat} {flags : Flags} {state : Nat}
    (outside : state ∉ (⟨offset, offset + 2⟩ : Span)) (found : NfaState) :
    pairChange offset flags state found = found := by
  rw [Span.mem_mk] at outside
  rw [pairChange, if_neg (by omega), if_neg (by omega)]

/-- A pair changes nothing behind it. -/
theorem getElem?_edit_pairChange {offset stop : Nat} {flags : Flags}
    {state : Nat} (inside : state ∈ (⟨offset + 2, stop⟩ : Span)) :
    (nfa.edit (pairChange offset flags)).states[state]? =
      nfa.states[state]? := by
  apply getElem?_edit_of_same
  apply pairChange_outside
  exact fun before => Nat.not_lt.mpr inside.1 before.2

theorem bare_behind_pair {offset stop : Nat} {flags : Flags}
    (bare : nfa.Bare ⟨offset, stop⟩) :
    (nfa.edit (pairChange offset flags)).Bare ⟨offset + 2, stop⟩ := by
  apply (bare.mono (Nat.le_add_right offset 2) (Nat.le_refl stop)).congr
  intro state inside
  exact getElem?_edit_pairChange inside

theorem Row.edit_pairChange {offset : Nat} {children : List Pattern}
    {flags : Flags} (row : Row nfa (offset + 2) children) :
    Row (nfa.edit (pairChange offset flags)) (offset + 2) children := by
  apply row.congr (size_edit _)
  intro state inside
  exact getElem?_edit_pairChange inside

theorem layPair?_laid {offset : Nat} (fits : offset + 2 ≤ nfa.size)
    (bare : nfa.Bare ⟨offset, offset + 2⟩) :
    ∃ after, nfa.layPair? offset .startAccept = some after ∧
      nfa.Laid after ⟨offset, offset + 2⟩ (· = []) :=
  ⟨_, layPair?_eq_edit fits _,
    (placed_pair bare fits).laid fun _ outside found =>
      pairChange_outside outside found⟩

theorem layLiteral?_laid {offset : Nat} {bytes : Bytes}
    (fits : offset + (bytes.length + 2) ≤ nfa.size)
    (bare : nfa.Bare ⟨offset, offset + (bytes.length + 2)⟩) :
    ∃ after, nfa.layLiteral? offset bytes = some after ∧
      nfa.Laid after ⟨offset, offset + (bytes.length + 2)⟩
        (Matches (.literal bytes)) := by
  refine ⟨_, layLiteral?_eq_edit fits,
    ((placed_literal bare fits).congr_language fun _ =>
      matches_literal.symm).laid ?_⟩
  intro state outside found
  rw [Span.mem_mk] at outside
  rw [literalChange, if_neg (by rw [Span.mem_mk]; omega), if_neg (by omega)]

theorem layCharset?_laid {offset : Nat} {bytes : Bytes}
    (fits : offset + 3 ≤ nfa.size) (bare : nfa.Bare ⟨offset, offset + 3⟩) :
    ∃ after, nfa.layCharset? offset bytes = some after ∧
      nfa.Laid after ⟨offset, offset + 3⟩ (Matches (.charset bytes)) := by
  refine ⟨_, layCharset?_eq_edit fits,
    ((placed_charset bytes bare fits).congr_language fun _ =>
      matches_charset.symm).laid ?_⟩
  intro state outside found
  rw [Span.mem_mk] at outside
  rw [charsetChange, if_neg (by omega), if_neg (by omega), if_neg (by omega)]

/-! ## Gates -/

theorem notMem_spans_of_lt {offset : Nat} {children : List Pattern}
    {span : Span} (listed : span ∈ spans offset children) {state : Nat}
    (before : state < offset) : state ∉ span := by
  intro inside
  have := within_of_mem_spans listed
  have := inside.1
  omega

/-- To lay a pair and move freely from it into a row behind it comes to two
edits. -/
theorem layPair?_enterEach?_eq_edit {offset : Nat} {children : List Pattern}
    (fits : offset + 2 ≤ nfa.size) (row : Row nfa (offset + 2) children) :
    (nfa.layPair? offset .onlyStart >>=
        enterEach? offset (spans (offset + 2) children)) =
      some ((nfa.edit (pairChange offset .onlyStart)).edit
        (enterChange offset (spans (offset + 2) children))) := by
  have paired : Row (nfa.edit (pairChange offset .onlyStart))
      (offset + 2) children := row.edit_pairChange
  rw [layPair?_eq_edit fits]
  simp only [Option.bind_eq_bind, Option.bind_some]
  apply enterEach?_eq_edit (by rw [size_edit]; omega) _ _ paired.entered
    (spans_apart _ _)
  intro span listed
  exact notMem_spans_of_lt listed (by omega)

/-- A pair in front of a row, with free moves into all of it, makes one part
that accepts what one of the row accepts. -/
theorem enterEach?_laid {offset : Nat} {children : List Pattern}
    (fits : offset + 2 + neededAll children ≤ nfa.size)
    (bare : nfa.Bare ⟨offset, offset + 2⟩)
    (row : Row nfa (offset + 2) children) :
    ∃ after, (nfa.layPair? offset .onlyStart >>=
        enterEach? offset (spans (offset + 2) children)) =
        some after ∧
      nfa.Laid after ⟨offset, offset + 2 + neededAll children⟩ fun word =>
        ∃ child ∈ children, Matches child word := by
  have gate := gate_pair bare (by omega) false
  have paired : Row (nfa.edit (pairChange offset .onlyStart))
      (offset + 2) children := row.edit_pairChange
  have within : ∀ span ∈ spans (offset + 2) children, offset + 2 ≤ span.first ∧
      span.stop ≤ offset + 2 + neededAll children :=
    fun span listed => within_of_mem_spans listed
  have entered :=
    gate.enter (Nat.le_add_right _ _) (by rwa [size_edit]) paired.parts within
    (fun state inside => exists_mem_spans inside)
  refine ⟨_, layPair?_enterEach?_eq_edit (by omega) row, ?_, ?_, ?_⟩
  · rw [size_edit, size_edit]
  · intro state outside
    rw [Span.mem_mk] at outside
    rw [getElem?_edit_of_same, getElem?_edit_of_same]
    · intro found
      apply pairChange_outside
      rw [Span.mem_mk]
      omega
    · intro found
      rw [enterChange, if_neg (by omega), if_neg]
      intro reached
      rcases reached with ⟨span, listed, inside⟩
      have := within span listed
      rw [Span.mem_iff] at inside
      omega
  · apply entered.congr_language
    intro word
    simp only [Bool.false_eq_true, false_and, false_or]
    exact paired.acceptsFrom_iff

/-- A gate that accepts, looped with the part behind it, makes one part that
accepts the words of that part put behind one another. -/
theorem loop?_laid {offset stop : Nat} {language : Bytes → Prop}
    (gate : nfa.Gate offset [] true)
    (placed : nfa.Placed ⟨offset + 2, stop⟩ language) :
    ∃ after, loop? offset ⟨offset + 2, stop⟩ nfa = some after ∧
      nfa.Laid after ⟨offset, stop⟩ (Repeated language) := by
  have inside : offset + 2 < stop := placed.part.inside
  have fits : stop ≤ nfa.size := placed.part.fits
  refine ⟨_, loop?_eq_edit (by omega) ?_ placed.entered,
    (gate.loop placed.part).laid ?_⟩
  · rw [Span.mem_mk]
    omega
  · intro state outside found
    rw [Span.mem_mk] at outside
    rw [loopChange, if_neg (by omega), if_neg]
    rw [Span.mem_mk]
    omega

/-! ## All patterns -/

/-- What laying patterns out side by side does: it fills a stretch with a row
and leaves all other states alone. -/
structure RowLaid (before after : Nfa) (offset : Nat)
    (children : List Pattern) : Prop where
  size : after.size = before.size
  outside : ∀ state, state ∉ (⟨offset, offset + neededAll children⟩ : Span) →
    after.states[state]? = before.states[state]?
  row : Row after offset children

section Nodes

variable {offset : Nat} {child inner : Pattern} {children : List Pattern}

theorem lay?_concatenate_cons :
    (concatenate (child :: children)).lay? offset nfa =
      layAll? (child :: children) offset nfa >>=
        chain? (spans offset (child :: children)) := by
  simp [lay?, layAll?, Option.bind_assoc]

theorem lay?_alternate_cons :
    (alternate (child :: children)).lay? offset nfa =
      layAll? (child :: children) (offset + 2) nfa >>= fun nfa =>
        nfa.layPair? offset .onlyStart >>=
          enterEach? offset (spans (offset + 2) (child :: children)) := by
  simp [lay?, layAll?, Option.bind_assoc]

/-- A row that is chained is a concatenation. -/
theorem lay?_concatenate_laid {row : Nfa}
    (laidOut : layAll? (child :: children) offset nfa = some row)
    (rowLaid : RowLaid nfa row offset (child :: children)) :
    ∃ after, (concatenate (child :: children)).lay? offset nfa = some after ∧
      nfa.Laid after
        ⟨offset, offset + needed (.concatenate (child :: children))⟩
        (Matches (.concatenate (child :: children))) := by
  rcases rowLaid.row with ⟨childPlaced, rest⟩
  rcases chain?_laid children ⟨offset, offset + child.needed⟩ childPlaced
      (Nat.le_refl _) (Nat.le_add_right _ _) (fun _ inside _ => inside) rest
    with ⟨after, chained, laid⟩
  refine ⟨after, ?_, ?_, ?_, ?_⟩
  · rw [lay?_concatenate_cons, laidOut]
    exact chained
  · rw [laid.size, rowLaid.size]
  · intro state outside
    rw [needed, ← Nat.add_assoc] at outside
    rw [laid.outside state outside, rowLaid.outside state]
    rwa [neededAll, ← Nat.add_assoc]
  · rw [needed, ← Nat.add_assoc]
    exact laid.placed.congr_language fun _ => matches_concatenate_cons.symm

/-- A row behind a gate is an alternation. -/
theorem lay?_alternate_laid {row : Nfa}
    (fits : offset + 2 + neededAll (child :: children) ≤ nfa.size)
    (bare : nfa.Bare ⟨offset, offset + 2⟩)
    (laidOut : layAll? (child :: children) (offset + 2) nfa = some row)
    (rowLaid : RowLaid nfa row (offset + 2) (child :: children)) :
    ∃ after, (alternate (child :: children)).lay? offset nfa = some after ∧
      nfa.Laid after ⟨offset, offset + 2 + neededAll (child :: children)⟩
        (Matches (.alternate (child :: children))) := by
  have rowBare : row.Bare ⟨offset, offset + 2⟩ := by
    apply bare.congr
    intro state inside
    exact rowLaid.outside state fun behind => Nat.not_lt.mpr behind.1 inside.2
  rcases enterEach?_laid (by rwa [rowLaid.size]) rowBare rowLaid.row
    with ⟨after, entered, laid⟩
  refine ⟨after, ?_, ?_, ?_, ?_⟩
  · rw [lay?_alternate_cons, laidOut]
    exact entered
  · rw [laid.size, rowLaid.size]
  · intro state outside
    rw [laid.outside state outside, rowLaid.outside state]
    rw [Span.mem_mk] at outside ⊢
    omega
  · exact laid.placed.congr_language fun _ => matches_alternate_cons.symm

/-- What is repeated, looped behind a gate that accepts, is a star. -/
theorem lay?_star_laid {one : Nfa} (bare : nfa.Bare ⟨offset, offset + 2⟩)
    (fits : offset + 2 + inner.needed ≤ nfa.size)
    (laidOut : inner.lay? (offset + 2)
      (nfa.edit (pairChange offset .startAccept)) = some one)
    (innerLaid : (nfa.edit (pairChange offset .startAccept)).Laid one
      ⟨offset + 2, offset + 2 + inner.needed⟩ (Matches inner)) :
    ∃ after, (star inner).lay? offset nfa = some after ∧
      nfa.Laid after ⟨offset, offset + 2 + inner.needed⟩
        (Matches (.star inner)) := by
  have gate : one.Gate offset [] true := by
    apply (gate_pair bare (by omega) true).congr
    intro state either
    apply innerLaid.outside
    rw [Span.mem_mk]
    omega
  rcases loop?_laid gate innerLaid.placed with ⟨after, looped, laid⟩
  refine ⟨after, ?_, ?_, ?_, ?_⟩
  · rw [lay?, layPair?_eq_edit (by omega)]
    simp only [Option.bind_eq_bind, Option.bind_some]
    rw [laidOut]
    exact looped
  · rw [laid.size, innerLaid.size, size_edit]
  · intro state outside
    rw [laid.outside state outside, innerLaid.outside, getElem?_edit_of_same]
    · apply pairChange_outside
      rw [Span.mem_mk] at outside ⊢
      omega
    · rw [Span.mem_mk] at outside ⊢
      omega
  · exact laid.placed.congr_language fun _ => matches_star.symm

/-- Laying out one more pattern behind another makes the row longer. -/
theorem layAll?_cons_laid {first after : Nfa}
    (firstLaid : nfa.Laid first ⟨offset, offset + child.needed⟩ (Matches child))
    (restLaid : RowLaid first after (offset + child.needed) children) :
    RowLaid nfa after offset (child :: children) := by
  constructor
  · rw [restLaid.size, firstLaid.size]
  · intro state outside
    rw [neededAll, Span.mem_mk] at outside
    rw [restLaid.outside state, firstLaid.outside state]
    · rw [Span.mem_mk]
      omega
    · rw [Span.mem_mk]
      omega
  · constructor
    · apply firstLaid.placed.congr restLaid.size
      intro state inside
      exact restLaid.outside state fun behind =>
        Nat.not_lt.mpr behind.1 inside.2
    · exact restLaid.row

end Nodes

mutual

/-- Laying a pattern out where it fits and no state has free moves succeeds, and
the stretch accepts the words of the pattern. -/
theorem lay?_laid (pattern : Pattern) (offset : Nat) (nfa : Nfa)
    (fits : offset + pattern.needed ≤ nfa.size)
    (bare : nfa.Bare ⟨offset, offset + pattern.needed⟩) :
    ∃ after, pattern.lay? offset nfa = some after ∧
      nfa.Laid after ⟨offset, offset + pattern.needed⟩ (Matches pattern) := by
  cases pattern with
  | epsilon =>
      rw [lay?]
      rcases layPair?_laid fits bare with ⟨after, laidOut, laid⟩
      exact ⟨after, laidOut, laid.congr_language fun _ => matches_epsilon.symm⟩
  | literal bytes =>
      rw [lay?]
      exact layLiteral?_laid fits bare
  | charset bytes =>
      rw [lay?]
      exact layCharset?_laid fits bare
  | concatenate children =>
      cases children with
      | nil =>
          rw [lay?]
          rcases layPair?_laid fits bare with ⟨after, laidOut, laid⟩
          exact ⟨after, laidOut, laid.congr_language fun _ =>
            matches_concatenate_nil.symm⟩
      | cons child children =>
          rcases layAll?_laid (child :: children) offset nfa fits bare
            with ⟨row, laidOut, laid⟩
          exact lay?_concatenate_laid laidOut laid
  | alternate children =>
      cases children with
      | nil =>
          rw [lay?]
          rcases layPair?_laid fits bare with ⟨after, laidOut, laid⟩
          exact ⟨after, laidOut, laid.congr_language fun _ =>
            matches_alternate_nil.symm⟩
      | cons child children =>
          rw [needed, ← neededAll, ← Nat.add_assoc] at fits bare ⊢
          have pairBare :=
            bare.mono (Nat.le_refl offset) (Nat.le_add_right (offset + 2) _)
          have rowBare := bare.mono (Nat.le_add_right offset 2) (Nat.le_refl _)
          rcases layAll?_laid (child :: children) (offset + 2) nfa fits rowBare
            with ⟨row, laidOut, laid⟩
          exact lay?_alternate_laid fits pairBare laidOut laid
  | star inner =>
      rw [needed, ← Nat.add_assoc] at fits bare ⊢
      have pairBare :=
        bare.mono (Nat.le_refl offset) (Nat.le_add_right (offset + 2) _)
      rcases lay?_laid inner (offset + 2)
          (nfa.edit (pairChange offset .startAccept))
        (by rwa [size_edit]) (bare_behind_pair bare) with ⟨one, laidOut, laid⟩
      exact lay?_star_laid pairBare fits laidOut laid
termination_by sizeOf pattern

/-- Laying patterns out side by side where they fit and no state has free moves
succeeds and gives a row. -/
theorem layAll?_laid (children : List Pattern) (offset : Nat) (nfa : Nfa)
    (fits : offset + neededAll children ≤ nfa.size)
    (bare : nfa.Bare ⟨offset, offset + neededAll children⟩) :
    ∃ after, layAll? children offset nfa = some after ∧
      RowLaid nfa after offset children := by
  cases children with
  | nil => exact ⟨nfa, by rw [layAll?], rfl, fun _ _ => rfl, trivial⟩
  | cons child children =>
      rw [neededAll] at fits bare
      rcases lay?_laid child offset nfa (by omega)
          (bare.mono (Nat.le_refl _) (by omega))
        with ⟨first, firstLaidOut, firstLaid⟩
      have restBare : first.Bare ⟨offset + child.needed,
          offset + child.needed + neededAll children⟩ := by
        apply (bare.mono (Nat.le_add_right _ _) (by omega)).congr
        intro state inside
        exact firstLaid.outside state fun before =>
          Nat.not_lt.mpr inside.1 before.2
      rcases layAll?_laid children (offset + child.needed) first
          (by rw [firstLaid.size]; omega)
        restBare with ⟨after, laidOut, restLaid⟩
      refine ⟨after, ?_, layAll?_cons_laid firstLaid restLaid⟩
      rw [layAll?, firstLaidOut]
      exact laidOut
termination_by sizeOf children

end

theorem bare_blank (size : Nat) (span : Span) : (Nfa.blank size).Bare span := by
  intro state _
  rw [Nfa.epsilons]
  split
  next found lookup =>
      have blank := Array.mem_of_getElem? lookup
      rw [Nfa.blank, Array.mem_replicate] at blank
      rw [blank.2]
      rfl
  next => rfl

/-- The automaton of a pattern is one part, which accepts the words of the
pattern. -/
theorem placed_toNfa (pattern : Pattern) :
    pattern.toNfa.Placed ⟨0, pattern.needed⟩ (Matches pattern) := by
  rcases lay?_laid pattern 0 (Nfa.blank pattern.needed)
      (by rw [size_blank]; omega) (bare_blank _ _)
    with ⟨after, laidOut, laid⟩
  rw [lay?_blank, Option.some.injEq] at laidOut
  have placed := laid.placed
  rwa [← laidOut, Nat.zero_add] at placed

end Pattern

end Munch
