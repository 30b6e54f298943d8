import Mathlib.Logic.Relation
import Munch.Pattern.Language
import Munch.Proofs.Ascending

/-!
# Matching by definition finds the language

Matching by definition works on a text and two places in it; the language of a
pattern is a set of words. The two meet in `Ending`: a list of places names, in
ascending order, all ends of the words of a language that stand in the text from
a given place on. Each kind of node keeps that, and for a star it is an
invariant of the loop over the ends that have not been passed.
-/

namespace Munch

namespace Pattern

variable {text : Array UInt8}

/-! ## Words between two places -/

theorem length_extract (start stop : Nat) :
    (text.extract start stop).toList.length = min stop text.size - start := by
  rw [Array.length_toList, Array.size_extract]

theorem extract_append {start middle stop : Nat} (before : start ≤ middle)
    (behind : middle ≤ stop) :
    (text.extract start middle).toList ++ (text.extract middle stop).toList =
      (text.extract start stop).toList := by
  rw [← Array.toList_append, Array.extract_append_extract,
    Nat.min_eq_left before, Nat.max_eq_right behind]

/-- A word in two parts that stands between two places has a place where the
parts meet. -/
theorem extract_eq_append {start stop : Nat} {first rest : Bytes}
    (inside : stop ≤ text.size) (ordered : start ≤ stop)
    (equal : (text.extract start stop).toList = first ++ rest) :
    ∃ middle, start ≤ middle ∧ middle ≤ stop ∧
      (text.extract start middle).toList = first ∧
        (text.extract middle stop).toList = rest := by
  have lengths := congrArg List.length equal
  rw [length_extract, List.length_append] at lengths
  have before : start ≤ start + first.length := Nat.le_add_right _ _
  have behind : start + first.length ≤ stop := by omega
  have joined :=
    @extract_append text start (start + first.length) stop before behind
  have parts := equal.symm.trans joined.symm
  have sameLength : first.length =
      (text.extract start (start + first.length)).toList.length := by
    rw [length_extract]
    omega
  have split := List.append_inj parts sameLength
  exact ⟨start + first.length, before, behind, split.1.symm, split.2.symm⟩

/-- Where words of a language that begin at `start` end: all these places,
ascending. -/
structure Ending (text : Array UInt8) (belongs : Bytes → Prop) (start : Nat)
    (places : List Nat) : Prop where
  ascending : places.Pairwise (· < ·)
  mem_iff : ∀ stop, stop ∈ places ↔
    start ≤ stop ∧ stop ≤ text.size ∧ belongs (text.extract start stop).toList

namespace Ending

variable {belongs : Bytes → Prop} {start : Nat} {places : List Nat}

theorem congr {other : Bytes → Prop} (ending : Ending text belongs start places)
    (same : ∀ word, belongs word ↔ other word) :
    Ending text other start places :=
  ⟨ending.ascending, fun stop => by rw [ending.mem_iff, same]⟩

theorem le_size (ending : Ending text belongs start places) {stop : Nat}
    (member : stop ∈ places) :
    stop ≤ text.size :=
  ((ending.mem_iff stop).mp member).2.1

theorem nothing (never : ∀ stop, start ≤ stop → stop ≤ text.size →
    ¬belongs (text.extract start stop).toList) :
    Ending text belongs start [] := by
  refine ⟨List.Pairwise.nil, fun stop => ⟨nofun, ?_⟩⟩
  rintro ⟨ordered, bounded, member⟩
  exact absurd member (never stop ordered bounded)

/-- A single word ends at one place at most. -/
theorem single (word : Bytes) (inside : start ≤ text.size) :
    Ending text (· = word) start
      (if (text.extract start (start + word.length)).toList = word then
          [start + word.length]
        else []) := by
  have only : ∀ stop, stop ≤ text.size → start ≤ stop →
      (text.extract start stop).toList = word →
      stop = start + word.length := by
    intro stop bounded ordered equal
    have lengths := congrArg List.length equal
    rw [length_extract] at lengths
    omega
  split
  next found =>
      refine ⟨List.pairwise_singleton _ _, fun stop => ?_⟩
      rw [List.mem_singleton]
      constructor
      · rintro rfl
        have lengths := congrArg List.length found
        rw [length_extract] at lengths
        exact ⟨Nat.le_add_right _ _, by omega, found⟩
      · rintro ⟨ordered, bounded, equal⟩
        exact only stop bounded ordered equal
  next missing =>
      refine nothing fun stop ordered bounded equal => ?_
      have here := only stop bounded ordered equal
      subst here
      exact absurd equal missing

/-- The empty word ends where it begins. -/
theorem empty (inside : start ≤ text.size) :
    Ending text (· = []) start [start] := by
  have ending : Ending text (· = []) start _ := single [] inside
  simpa using ending

/-- One byte of a list ends one place further, if the byte that stands there is
listed. -/
theorem listed (bytes : Bytes) (start : Nat) :
    Ending text (fun word => ∃ byte ∈ bytes, word = [byte]) start
      (match text[start]? with
        | some byte => if bytes.contains byte then [start + 1] else []
        | none => []) := by
  have one : ∀ {stop : Nat} {byte : UInt8}, stop ≤ text.size → start ≤ stop →
      (text.extract start stop).toList = [byte] →
        stop = start + 1 ∧ text[start]? = some byte := by
    intro stop byte bounded ordered equal
    have lengths := congrArg List.length equal
    rw [length_extract, List.length_singleton] at lengths
    have head := congrArg (·[0]?) equal
    simp only [Array.getElem?_toList, List.getElem?_cons_zero] at head
    rw [Array.getElem?_extract, if_pos (by omega)] at head
    exact ⟨by omega, by simpa using head⟩
  have none_of : (∀ byte ∈ bytes, text[start]? ≠ some byte) →
      Ending text (fun word => ∃ byte ∈ bytes, word = [byte]) start [] := by
    intro absent
    refine nothing fun stop ordered bounded => ?_
    rintro ⟨byte, present, equal⟩
    exact absurd (one bounded ordered equal).2 (absent byte present)
  split
  next byte found =>
      split
      next present =>
          refine ⟨List.pairwise_singleton _ _, fun stop => ?_⟩
          rw [List.mem_singleton]
          constructor
          · rintro rfl
            have below : start < text.size :=
              (Array.getElem?_eq_some_iff.mp found).1
            refine ⟨Nat.le_succ _, below, byte,
              List.contains_iff_mem.mp present, ?_⟩
            have value := (Array.getElem?_eq_some_iff.mp found).2
            rw [Array.toList_extract, List.extract_eq_take_drop,
              Nat.add_sub_cancel_left]
            rw [List.drop_eq_getElem_cons (by simpa using below)]
            simpa using value
          · rintro ⟨ordered, bounded, other, _, equal⟩
            exact (one bounded ordered equal).1
      next absent =>
          apply none_of
          intro other present equal
          rw [found] at equal
          cases equal
          exact absent (List.contains_iff_mem.mpr present)
  next missing =>
      apply none_of
      intro byte _ equal
      rw [missing] at equal
      cases equal

/-- The ends of a choice are those of both sides. -/
theorem union {other : Bytes → Prop} {more : List Nat}
    (left : Ending text belongs start places)
    (right : Ending text other start more) :
    Ending text (fun word => belongs word ∨ other word) start
      (unionAscending places more) := by
  refine ⟨pairwise_unionAscending left.ascending right.ascending,
    fun stop => ?_⟩
  rw [mem_unionAscending, left.mem_iff, right.mem_iff, ← and_or_left,
    ← and_or_left]

end Ending

/-! ## The loop of a star -/

/-- One more round of a star leads from a place to a higher one. A round that
reads nothing leads nowhere new and is left out. -/
def Round (inner : Nat → List Nat) (place next : Nat) : Prop :=
  next ∈ inner place ∧ place < next

section Loop

variable {inner : Nat → List Nat} {limit : Nat}

/-- The places that one pass of the loop leaves behind: those that were known
and those that one round leads to from the lowest. All are higher than the
lowest, and none exceeds the limit. -/
theorem next_frontier {place : Nat} {ends : List Nat}
    (bounded : ∀ next ∈ inner place, next ≤ limit)
    (ascending : (place :: ends).Pairwise (· < ·))
    (within : ∀ known ∈ place :: ends, known ≤ limit) {known : Nat}
    (member : known ∈ unionAscending ends ((inner place).filter (place < ·))) :
    place < known ∧ known ≤ limit := by
  rcases (mem_unionAscending _ _).mp member with old | new
  · exact ⟨(List.pairwise_cons.mp ascending).1 known old,
      within known (List.mem_cons_of_mem _ old)⟩
  · rw [List.mem_filter, decide_eq_true_iff] at new
    exact ⟨new.2, bounded known new.1⟩

/-- The loop lists exactly what rounds can reach from the places it begins with,
in ascending order, provided that it may pass every place up to the limit. -/
theorem starEnds_reachable
    (rounds : ∀ place ≤ limit, (inner place).Pairwise (· < ·) ∧
      ∀ next ∈ inner place, next ≤ limit) :
    (bound : Nat) → (ends : List Nat) → ends.Pairwise (· < ·) →
      (∀ place ∈ ends, place ≤ limit) →
    (∀ place ∈ ends, limit < place + bound) →
    (starEnds inner bound ends).Pairwise (· < ·) ∧
      ∀ stop, stop ∈ starEnds inner bound ends ↔
        ∃ place ∈ ends, Relation.ReflTransGen (Round inner) place stop
  | 0, ends, _, within, enough => by
      have none : ends = [] := by
        refine List.eq_nil_iff_forall_not_mem.mpr fun place member => ?_
        exact absurd (enough place member)
          (Nat.not_lt.mpr (within place member))
      subst none
      exact ⟨List.Pairwise.nil, by simp [starEnds]⟩
  | bound + 1, [], _, _, _ => ⟨List.Pairwise.nil, by simp [starEnds]⟩
  | bound + 1, place :: ends, ascending, within, enough => by
      have round := rounds place (within place List.mem_cons_self)
      have frontier :=
        @next_frontier inner limit place ends round.2 ascending within
      have found := round.1.filter (place < ·)
      rcases starEnds_reachable rounds bound _
          (pairwise_unionAscending ascending.of_cons found)
        (fun later member => (frontier member).2) (fun later member => by
          have higher := (frontier member).1
          have passed := enough place List.mem_cons_self
          omega) with ⟨restAscending, restMem⟩
      have higher : ∀ stop ∈ starEnds inner bound
          (unionAscending ends ((inner place).filter (place < ·))),
          place < stop := by
        intro stop member
        rcases (restMem stop).mp member with ⟨later, laterMem, reach⟩
        induction reach with
        | refl => exact (frontier laterMem).1
        | tail earlier last ih =>
            exact (ih ((restMem _).mpr ⟨later, laterMem, earlier⟩)).trans last.2
      refine ⟨List.pairwise_cons.mpr ⟨higher, restAscending⟩, fun stop => ?_⟩
      rw [starEnds, List.mem_cons, restMem]
      constructor
      · rintro (rfl | ⟨later, laterMem, reach⟩)
        · exact ⟨stop, List.mem_cons_self, .refl⟩
        · rcases (mem_unionAscending _ _).mp laterMem with old | new
          · exact ⟨later, List.mem_cons_of_mem _ old, reach⟩
          · rw [List.mem_filter, decide_eq_true_iff] at new
            exact ⟨place, List.mem_cons_self, .head new reach⟩
      · rintro ⟨first, firstMem, reach⟩
        rcases List.mem_cons.mp firstMem with rfl | old
        · -- The lowest place itself is listed; anything else lies behind a
          -- first round.
          rcases Relation.ReflTransGen.cases_head reach
            with rfl | ⟨later, round, rest⟩
          · exact .inl rfl
          · refine .inr ⟨later, (mem_unionAscending _ _).mpr (.inr ?_), rest⟩
            rw [List.mem_filter, decide_eq_true_iff]
            exact round
        · exact .inr ⟨first, (mem_unionAscending _ _).mpr (.inl old), reach⟩

end Loop

/-- Rounds that each read a word of the inner pattern read a word of the star
together, and every word of the star is read that way. -/
theorem reachable_iff_matches_star {inner : Pattern} {places : Nat → List Nat}
    (ending : ∀ place ≤ text.size,
      Ending text inner.Matches place (places place)) {start stop : Nat}
    (inside : start ≤ text.size) :
    Relation.ReflTransGen (Round places) start stop ↔
      start ≤ stop ∧ stop ≤ text.size ∧
        inner.star.Matches (text.extract start stop).toList := by
  constructor
  · intro reach
    induction reach using Relation.ReflTransGen.head_induction_on with
    | refl =>
        refine ⟨Nat.le_refl _, inside, ?_⟩
        rw [Array.extract_empty_of_stop_le_start (Nat.le_refl stop)]
        exact .starNil
    | @head place next round _ ih =>
        rcases ((ending place inside).mem_iff next).mp round.1
          with ⟨ordered, bounded, belongs⟩
        rcases ih bounded with ⟨behind, bounded, rest⟩
        refine ⟨ordered.trans behind, bounded, ?_⟩
        rw [← extract_append ordered behind]
        exact .starCons belongs rest
  · rintro ⟨ordered, bounded, belongs⟩
    generalize wordEq : (text.extract start stop).toList = word at belongs
    generalize patternEq : Pattern.star inner = pattern at belongs
    induction belongs generalizing start with
    | starNil =>
        have lengths := congrArg List.length wordEq
        rw [length_extract, List.length_nil] at lengths
        have same : start = stop := by omega
        rw [same]
    | starCons head _ _ ih =>
        cases patternEq
        rcases extract_eq_append bounded ordered wordEq with
          ⟨middle, before, behind, first, rest⟩
        have reach := ih (behind.trans bounded) behind rest rfl
        rcases Nat.eq_or_lt_of_le before with same | higher
        · rw [same]
          exact reach
        · refine .head ⟨?_, higher⟩ reach
          rw [(ending start inside).mem_iff, first]
          exact ⟨before, behind.trans bounded, head⟩
    | _ => cases patternEq

theorem starEnds_ending {inner : Pattern} {places : Nat → List Nat}
    (ending : ∀ place ≤ text.size,
      Ending text inner.Matches place (places place)) {start : Nat}
    (inside : start ≤ text.size) {bound : Nat} (enough : text.size < bound) :
    Ending text inner.star.Matches start (starEnds places bound [start]) := by
  rcases starEnds_reachable
    (fun place within =>
      ⟨(ending place within).ascending, fun _ => (ending place within).le_size⟩)
    bound [start] (List.pairwise_singleton _ _)
    (fun place member => by rwa [List.mem_singleton.mp member])
    (fun place _ => by omega) with ⟨ascending, mem⟩
  refine ⟨ascending, fun stop => ?_⟩
  rw [mem, ← reachable_iff_matches_star ending inside]
  simp only [List.mem_singleton, exists_eq_left]

/-! ## One child behind another -/

/-- Behind no more children everything ends where it begins. -/
theorem mem_starts_iff_chain {starts : List Nat}
    (within : ∀ start ∈ starts, start ≤ text.size) {stop : Nat} :
    stop ∈ starts ↔ ∃ start ∈ starts, start ≤ stop ∧ stop ≤ text.size ∧
      Matches (.concatenate []) (text.extract start stop).toList := by
  constructor
  · intro member
    have ending : Ending text (· = []) stop [stop] :=
      Ending.empty (within stop member)
    have here := (ending.mem_iff stop).mp List.mem_cons_self
    exact ⟨stop, member, here.1, here.2.1,
      matches_concatenate_nil.mpr here.2.2⟩
  · rintro ⟨start, member, ordered, bounded, belongs⟩
    have ending : Ending text (· = []) start [start] :=
      Ending.empty (within start member)
    have here := (ending.mem_iff stop).mpr
      ⟨ordered, bounded, matches_concatenate_nil.mp belongs⟩
    rwa [List.mem_singleton.mp here]

/-- A chain of children is the first one up to a place in the middle, and the
others from there on. -/
theorem exists_chain_iff {child : Pattern} {children : List Pattern}
    {places : Nat → List Nat} {starts : List Nat}
    (endings : ∀ start ∈ starts,
      Ending text child.Matches start (places start)) {stop : Nat} :
    (∃ middle ∈ unionAll (starts.map places), middle ≤ stop ∧
        stop ≤ text.size ∧
        Matches (.concatenate children) (text.extract middle stop).toList) ↔
      ∃ start ∈ starts, start ≤ stop ∧ stop ≤ text.size ∧
        Matches (.concatenate (child :: children))
          (text.extract start stop).toList := by
  constructor
  · rintro ⟨middle, member, behind, bounded, rest⟩
    rw [mem_unionAll_map] at member
    rcases member with ⟨start, startMem, middleMem⟩
    rcases ((endings start startMem).mem_iff middle).mp middleMem
      with ⟨before, _, first⟩
    refine ⟨start, startMem, before.trans behind, bounded, ?_⟩
    rw [← extract_append before behind]
    exact .concatenateCons first rest
  · rintro ⟨start, startMem, ordered, bounded, belongs⟩
    rcases matches_concatenate_cons.mp belongs
      with ⟨first, rest, equal, head, tail⟩
    rcases extract_eq_append bounded ordered equal with
      ⟨middle, before, behind, firstEq, restEq⟩
    refine ⟨middle, ?_, behind, bounded, restEq ▸ tail⟩
    rw [mem_unionAll_map]
    refine ⟨start, startMem, ?_⟩
    rw [(endings start startMem).mem_iff, firstEq]
    exact ⟨before, behind.trans bounded, head⟩

/-! ## The ends of every pattern -/

mutual

/-- Matching by definition lists the ends of the words of a pattern. -/
theorem ends_ending : (pattern : Pattern) → {start : Nat} → start ≤ text.size →
    Ending text pattern.Matches start (pattern.ends text start)
  | .epsilon, _, inside => by
      rw [ends]
      exact (Ending.empty inside).congr fun word => matches_epsilon.symm
  | .literal bytes, _, inside => by
      rw [ends]
      exact (Ending.single bytes inside).congr fun word => matches_literal.symm
  | .charset bytes, start, _ => by
      rw [ends]
      exact (Ending.listed bytes start).congr fun word => matches_charset.symm
  | .concatenate children, start, inside => by
      rw [ends]
      have chain :=
        chainEnds_ending children [start] (List.pairwise_singleton _ _)
        (fun place member => by rwa [List.mem_singleton.mp member])
      exact ⟨chain.1, fun stop => by simp [chain.2]⟩
  | .alternate [], _, inside => by
      rw [ends]
      exact (Ending.empty inside).congr fun word => matches_alternate_nil.symm
  | .alternate (child :: children), _, inside => by
      rw [ends]
      refine ((ends_ending child inside).union
        (branchEnds_ending children inside)).congr ?_
      intro word
      rw [matches_alternate_cons, List.exists_mem_cons_iff]
  | .star inner, _, inside => by
      rw [ends]
      exact starEnds_ending (fun _ within => ends_ending inner within) inside
        (Nat.lt_succ_self _)

theorem chainEnds_ending : (children : List Pattern) → (starts : List Nat) →
    starts.Pairwise (· < ·) → (∀ start ∈ starts, start ≤ text.size) →
    (chainEnds children text starts).Pairwise (· < ·) ∧
      ∀ stop, stop ∈ chainEnds children text starts ↔ ∃ start ∈ starts,
        start ≤ stop ∧ stop ≤ text.size ∧
          Matches (.concatenate children) (text.extract start stop).toList
  | [], starts, ascending, within =>
      ⟨ascending, fun _ => mem_starts_iff_chain within⟩
  | child :: children, starts, _, within => by
      have endings : ∀ start ∈ starts,
          Ending text child.Matches start (child.ends text start) :=
        fun start member => ends_ending child (within start member)
      have ascending := pairwise_unionAll (List.forall_mem_map.mpr
        fun start member => (endings start member).ascending)
      have inside : ∀ middle ∈ unionAll
          (starts.map fun start => child.ends text start),
          middle ≤ text.size := by
        intro middle member
        rw [mem_unionAll_map] at member
        rcases member with ⟨start, startMem, middleMem⟩
        exact (endings start startMem).le_size middleMem
      have rest := chainEnds_ending children _ ascending inside
      refine ⟨rest.1, fun stop => ?_⟩
      rw [chainEnds, rest.2]
      exact exists_chain_iff endings

theorem branchEnds_ending : (children : List Pattern) → {start : Nat} →
    start ≤ text.size →
    Ending text (fun word => ∃ child ∈ children, child.Matches word) start
      (branchEnds children text start)
  | [], _, _ => by
      rw [branchEnds]
      exact Ending.nothing fun _ _ _ => by simp
  | child :: children, _, inside => by
      rw [branchEnds]
      refine ((ends_ending child inside).union
        (branchEnds_ending children inside)).congr ?_
      intro word
      rw [List.exists_mem_cons_iff]

end

theorem prefixLengths_ascending (pattern : Pattern) (text : Bytes) :
    (pattern.prefixLengths text).Pairwise (· < ·) :=
  (ends_ending pattern (Nat.zero_le _)).ascending

theorem mem_prefixLengths {pattern : Pattern} {text : Bytes} {length : Nat} :
    length ∈ pattern.prefixLengths text ↔
      length ≤ text.length ∧ pattern.Matches (text.take length) := by
  rw [prefixLengths, (ends_ending pattern (Nat.zero_le _)).mem_iff]
  simp [List.extract_eq_take_drop]

/-- Matching by definition computes membership in the language: from every place
of a text it lists, ascending, exactly the places where a word of the pattern
ends. The loop of a star comes to its end by itself, so a larger bound on the
places that it passes changes nothing. -/
theorem ends_iff_matches (pattern : Pattern) (text : Bytes) :
    ((pattern.prefixLengths text).Pairwise (· < ·) ∧
      ∀ length, length ∈ pattern.prefixLengths text ↔
        length ≤ text.length ∧ pattern.Matches (text.take length)) ∧
    ∀ start ≤ text.length,
      (pattern.ends text.toArray start).Pairwise (· < ·) ∧
      (∀ stop, stop ∈ pattern.ends text.toArray start ↔
        start ≤ stop ∧ stop ≤ text.length ∧
          pattern.Matches ((text.drop start).take (stop - start))) ∧
      ∀ bound > text.length,
        starEnds (pattern.ends text.toArray) bound [start] =
          pattern.star.ends text.toArray start := by
  refine ⟨⟨prefixLengths_ascending pattern text, fun _ => mem_prefixLengths⟩,
    ?_⟩
  intro start inside
  have everywhere : ∀ place ≤ text.toArray.size,
      Ending text.toArray pattern.Matches place
        (pattern.ends text.toArray place) :=
    fun place within => ends_ending pattern within
  have ending := everywhere start inside
  refine ⟨ending.ascending, fun stop => ?_, fun bound enough => ?_⟩
  · rw [ending.mem_iff, List.extract_toArray, List.extract_eq_take_drop,
      List.size_toArray]
  · have bounded := starEnds_ending everywhere inside enough
    have unbounded : Ending text.toArray _ start _ :=
      ends_ending pattern.star inside
    refine bounded.ascending.eq_of_mem_iff unbounded.ascending fun {stop} => ?_
    rw [bounded.mem_iff, unbounded.mem_iff]

/-- Rounds of a star that read nothing do not keep the loop going: on `abb`,
from the second place on, the star of an optional `b` ends at the second, third
and last place. -/
theorem ends_star_optional_byte :
    1 ≤ ([0x61, 0x62, 0x62] : Bytes).length ∧
      ∀ stop, stop ∈ (Pattern.star (.optional (.byte 0x62))).ends
        #[0x61, 0x62, 0x62] 1 ↔
        1 ≤ stop ∧ stop ≤ 3 ∧ (Pattern.star (.optional (.byte 0x62))).Matches
          (([0x62, 0x62] : Bytes).take (stop - 1)) :=
  ⟨by decide,
    ((ends_iff_matches (.star (.optional (.byte 0x62))) [0x61, 0x62, 0x62]).2 1
    (by decide)).2.1⟩

end Pattern

end Munch
