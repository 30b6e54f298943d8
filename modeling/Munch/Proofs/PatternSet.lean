import Munch.Proofs.PatternSet.Product
import Munch.Proofs.Regex

/-!
# A pattern set agrees with its patterns

After a word the product is in the state that stands for the states of all
components, so it accepts what one of them accepts and names those that do. Once
all of them have rejected none accepts again, so its scan misses nothing either.
-/

namespace Munch

namespace PatternSetBuilder

/-- A way to put more patterns into a builder. -/
inductive Addition where
  | add (pattern : Pattern)
  | withPattern (pattern : Pattern)
  | extend (patterns : List Pattern)

namespace Addition

/-- The builder with the addition made. -/
def apply (builder : PatternSetBuilder) : Addition → PatternSetBuilder
  | .add pattern => (builder.add pattern).2
  | .withPattern pattern => builder.withPattern pattern
  | .extend patterns => builder.extend patterns

/-- The patterns that are put in, in order. -/
def patterns : Addition → List Pattern
  | .add pattern => [pattern]
  | .withPattern pattern => [pattern]
  | .extend patterns => patterns

end Addition

/-- However patterns are put into a builder, it holds all of them in order. -/
theorem patterns_foldl (additions : List Addition)
    (builder : PatternSetBuilder) :
    (additions.foldl Addition.apply builder).patterns =
      builder.patterns ++ additions.flatMap Addition.patterns := by
  induction additions generalizing builder with
  | nil => simp
  | cons addition additions ih =>
      rw [List.foldl_cons, ih, List.flatMap_cons, ← List.append_assoc]
      cases addition <;> rfl

end PatternSetBuilder

namespace PatternSet

/-! ## Joint verdicts -/

theorem jointStatus_eq_accept_iff {verdicts : List Status} :
    jointStatus verdicts = .accept ↔ .accept ∈ verdicts := by
  have listed : verdicts.any (· == .accept) = true ↔ .accept ∈ verdicts := by
    simp
  rw [← listed, jointStatus]
  split
  next accepts => simp [accepts]
  next accepts => split <;> simp [accepts]

theorem all_reject_of_jointStatus {verdicts : List Status}
    (rejected : jointStatus verdicts = .reject) :
    ∀ status ∈ verdicts, status = .reject := by
  rw [jointStatus] at rejected
  split at rejected
  next => cases rejected
  next =>
      split at rejected
      next both => simpa using (Bool.and_eq_true_iff.mp both).2
      next => cases rejected

/-! ## The product of compiled patterns -/

variable {patterns : List Pattern}

theorem total_compile (pattern : Pattern) : Total pattern.compile := by
  intro word
  exact Dfa.lt_size_of_status? (Nfa.status?_run_toDfa pattern.toNfa word)

theorem total_of_mem {regex : Regex}
    (listed : regex ∈ patterns.map Pattern.compile) : Total regex := by
  rcases List.mem_map.mp listed with ⟨pattern, _, rfl⟩
  exact total_compile pattern

theorem bounded_ofPatterns (patterns : List Pattern) :
    Numbering.Bounded (advance (patterns.map Pattern.compile))
      ((patterns.map Pattern.compile).map fun _ => Dfa.initial)
      ((patterns.map Pattern.compile).foldr
        (fun regex count => regex.dfa.size * count) 1) :=
  advance_bounded fun _ => total_of_mem

theorem complete_ofPatterns (patterns : List Pattern) :
    Numbering.Complete (advance (patterns.map Pattern.compile))
      ((patterns.map Pattern.compile).map fun _ => Dfa.initial)
      (reachableTuples (patterns.map Pattern.compile)) :=
  reachableTuples_complete fun _ => total_of_mem

theorem size_layOutVerdicts (patterns : List Pattern) :
    (layOutVerdicts (patterns.map Pattern.compile)
      (reachableTuples (patterns.map Pattern.compile)).keys.toList).1.size =
        (reachableTuples (patterns.map Pattern.compile)).rows.size := by
  rw [(layOutVerdicts_eq _ _).2.1, Array.length_toList,
    (complete_ofPatterns patterns).rows_size]

/-- A word leads the product to the number of the tuple that it leads to. -/
theorem getElem?_run_ofPatterns (patterns : List Pattern) (word : Bytes) :
    (reachableTuples (patterns.map Pattern.compile)).keys[
      (ofPatterns patterns).dfa.run Dfa.initial word]? =
        some (tupleAfter (patterns.map Pattern.compile) word) := by
  rw [← follow_eq_tupleAfter]
  exact Numbering.getElem?_run (complete_ofPatterns patterns)
    (size_layOutVerdicts patterns) word Dfa.initial _
    (complete_ofPatterns patterns).initial

/-- What the product says after a word: the joint verdict, together with all the
indices of the components that accept. -/
theorem status?_run_ofPatterns (patterns : List Pattern) (word : Bytes) :
    ∃ verdict, (ofPatterns patterns).dfa.status?
      ((ofPatterns patterns).dfa.run Dfa.initial word) =
        some verdict ∧
      verdict.status =
        jointStatus (statusesAfter (patterns.map Pattern.compile) word) ∧
      (ofPatterns patterns).indices verdict =
        acceptingIndices
          (statusesAfter (patterns.map Pattern.compile) word) := by
  have laidOut := layOutVerdicts_eq (patterns.map Pattern.compile)
    (reachableTuples (patterns.map Pattern.compile)).keys.toList
  have found := getElem?_run_ofPatterns patterns word
  rw [← Array.getElem?_toList] at found
  have statuses :=
    componentVerdicts_tupleAfter (patterns.map Pattern.compile) word
  have slice :=
    drop_take_flatMap (acceptingOf (patterns.map Pattern.compile)) found
  have entry := Numbering.status?_toDfa (size_layOutVerdicts patterns)
    ((ofPatterns patterns).dfa.run Dfa.initial word)
  rw [laidOut.2.2, found, Option.map_some] at entry
  refine ⟨_, entry, congrArg jointStatus statuses, ?_⟩
  rw [indices]
  have table : (ofPatterns patterns).accepting.toList =
      (reachableTuples (patterns.map Pattern.compile)).keys.toList.flatMap
        (acceptingOf (patterns.map Pattern.compile)) := laidOut.1
  rw [table, slice, acceptingOf, statuses]

theorem verdict_run_ofPatterns (patterns : List Pattern) (word : Bytes) :
    (ofPatterns patterns).dfa.verdict (·.status)
        ((ofPatterns patterns).dfa.run Dfa.initial word) =
      jointStatus (statusesAfter (patterns.map Pattern.compile) word) := by
  rcases status?_run_ofPatterns patterns word with ⟨verdict, found, status, _⟩
  rw [Dfa.verdict, found, Option.map_some, Option.getD_some, status]

theorem acceptingTypes_run_ofPatterns (patterns : List Pattern) (word : Bytes) :
    (ofPatterns patterns).acceptingTypes
      ((ofPatterns patterns).dfa.run Dfa.initial word) =
      acceptingIndices (statusesAfter (patterns.map Pattern.compile) word) := by
  rcases status?_run_ofPatterns patterns word with ⟨verdict, found, _, types⟩
  rw [acceptingTypes, acceptingTypes?, found, Option.map_some,
    Option.getD_some, types]

theorem getElem?_statusesAfter {word : Bytes} {index : Nat} :
    (statusesAfter (patterns.map Pattern.compile) word)[index]? = some .accept ↔
      ∃ pattern, patterns[index]? = some pattern ∧
        Pattern.Matches pattern word := by
  simp only [statusesAfter, List.getElem?_map, Option.map_eq_some_iff,
    exists_exists_and_eq_and,
    Pattern.compile, Nfa.verdict_run_toDfa, Pattern.accepts_toNfa]

theorem accept_mem_statusesAfter {word : Bytes} :
    .accept ∈ statusesAfter (patterns.map Pattern.compile) word ↔
      Pattern.SomeMatches patterns word := by
  simp only [statusesAfter, List.mem_map, exists_exists_and_eq_and,
    Pattern.compile, Nfa.verdict_run_toDfa, Pattern.accepts_toNfa,
    Pattern.SomeMatches]

/-- Once every component has rejected, none of them accepts again. -/
theorem rejectsFinally_ofPatterns (patterns : List Pattern) :
    (ofPatterns patterns).dfa.RejectsFinally (·.status) Dfa.initial := by
  intro word more rejected accepted
  rw [verdict_run_ofPatterns] at rejected accepted
  rw [jointStatus_eq_accept_iff, statusesAfter, List.mem_map] at accepted
  rcases accepted with ⟨regex, listed, accepts⟩
  have rejects :=
    all_reject_of_jointStatus rejected _ (List.mem_map_of_mem listed)
  rcases List.mem_map.mp listed with ⟨pattern, _, rfl⟩
  exact Pattern.rejectsFinally_compile pattern word more rejects accepts

/-! ## The longest match -/

theorem acceptsFrom_ofPatterns {word : Bytes} :
    (ofPatterns patterns).dfa.acceptsFrom (·.status) Dfa.initial word = true ↔
      Pattern.SomeMatches patterns word := by
  rw [Dfa.acceptsFrom, beq_iff_eq, verdict_run_ofPatterns,
    jointStatus_eq_accept_iff, accept_mem_statusesAfter]

theorem longest_ofPatterns_eq_none_iff {text : Bytes} :
    (ofPatterns patterns).longest text = none ↔
      ∀ length, length ≤ text.length →
        ¬Pattern.SomeMatches patterns (text.take length) := by
  rw [longest, Dfa.longest_eq (rejectsFinally_ofPatterns patterns)]
  simp only [Option.map_eq_none_iff, List.getLast?_eq_none_iff,
    List.eq_nil_iff_forall_not_mem, mem_acceptedLengths, acceptsFrom_ofPatterns,
    not_and]

theorem longest_ofPatterns_eq_some_iff {text : Bytes} {found : Match} :
    (ofPatterns patterns).longest text = some found ↔
      (found.length ≤ text.length ∧
        Pattern.SomeMatches patterns (text.take found.length)) ∧
      (∀ other, other ≤ text.length →
        Pattern.SomeMatches patterns (text.take other) →
          other ≤ found.length) ∧
      found.types = acceptingIndices
        (statusesAfter (patterns.map Pattern.compile)
          (text.take found.length)) := by
  rw [longest, Dfa.longest_eq (rejectsFinally_ofPatterns patterns)]
  simp only [Option.map_map, Option.map_eq_some_iff, Function.comp_apply,
    getLast?_eq_some_iff_largest (acceptedLengths_ascending _ _),
    mem_acceptedLengths, acceptsFrom_ofPatterns, acceptingTypes_run_ofPatterns,
    and_imp]
  constructor
  · intro hit
    rcases hit with ⟨length, ⟨accepted, largest⟩, rfl⟩
    exact ⟨accepted, largest, rfl⟩
  · intro all
    rcases found with ⟨length, types⟩
    rcases all with ⟨accepted, largest, named⟩
    exact ⟨length, ⟨accepted, largest⟩, congrArg (Match.mk length) named.symm⟩

/-- A set finds a match exactly when one of its components does. It is as long
as the longest of theirs, and is named after all components that match it as a
whole, ascending. Components have the places of their patterns, however those
were put into the builder. -/
theorem longest_agrees (collected : List Pattern)
    (additions : List PatternSetBuilder.Addition) (text : Bytes) :
    let patterns :=
      collected ++ additions.flatMap PatternSetBuilder.Addition.patterns
    let set :=
      (additions.foldl PatternSetBuilder.Addition.apply
        (.ofList collected)).compile
    set.components = patterns.map Pattern.compile ∧
      (set.longest text = none ↔ ∀ regex ∈ set.components,
        regex.longest text = none) ∧
      ∀ found, set.longest text = some found →
        (∃ regex ∈ set.components, regex.longest text = some found.length) ∧
        (∀ regex ∈ set.components, ∀ length, regex.longest text = some length →
          length ≤ found.length) ∧
        found.types.Pairwise (· < ·) ∧
        ∀ index, index ∈ found.types ↔ ∃ regex,
          set.components[index]? = some regex ∧
          regex.isMatch (text.take found.length) = true := by
  intro patterns set
  have built : set = ofPatterns patterns := by
    exact congrArg ofPatterns (PatternSetBuilder.patterns_foldl additions
      (.ofList collected))
  rw [built]
  have components : (ofPatterns patterns).components =
    patterns.map Pattern.compile := rfl
  refine ⟨rfl, ?_, ?_⟩
  · rw [components, longest_ofPatterns_eq_none_iff, List.forall_mem_map]
    simp only [Pattern.longest_compile_eq_none_iff]
    constructor
    · intro none pattern listed length inside belongs
      exact none length inside ⟨pattern, listed, belongs⟩
    · intro none length inside some
      rcases some with ⟨pattern, listed, belongs⟩
      exact none pattern listed length inside belongs
  · intro found hit
    rcases longest_ofPatterns_eq_some_iff.mp hit with
      ⟨⟨inside, pattern, listed, belongs⟩, largest, types⟩
    refine ⟨⟨pattern.compile, List.mem_map_of_mem listed, ?_⟩, ?_, ?_, ?_⟩
    · apply Pattern.longest_compile_eq_some_iff.mpr
      refine ⟨⟨inside, belongs⟩, ?_⟩
      intro other otherInside otherBelongs
      exact largest other otherInside ⟨pattern, listed, otherBelongs⟩
    · intro regex regexMem length longest
      rcases List.mem_map.mp regexMem with ⟨other, otherMem, rfl⟩
      rcases Pattern.longest_compile_eq_some_iff.mp longest
        with ⟨⟨otherInside, otherBelongs⟩, _⟩
      exact largest length otherInside ⟨other, otherMem, otherBelongs⟩
    · rw [types]
      exact acceptingIndices_ascending _
    · intro index
      rw [types, mem_acceptingIndices, getElem?_statusesAfter, components]
      simp only [List.getElem?_map, Option.map_eq_some_iff,
        exists_exists_and_eq_and, Pattern.isMatch_compile_iff]

end PatternSet

end Munch
