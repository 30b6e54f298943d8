import Munch.Proofs.Pattern.Live
import Munch.Proofs.PatternSet

/-!
# Rejection is final and comes in time

A scan stops at a rejecting state, and may: no byte leads away from it, and no
word that goes on from there is accepted. Where every character set has a byte,
it stops as early as it can, because a word that no accepted word begins with
leads to a rejecting state. An empty character set spoils only the second: what
must pass it is dead without being marked so.

Both are said of one pattern and of a set of patterns, the product of which
rejects when all its components do.
-/

namespace Munch

namespace Dfa

variable {σ : Type}

/-- Whether from a rejected word on every byte stays where it is, and no word of
the language begins with the rejected one. -/
def RejectsForGood (dfa : Dfa σ) (status : σ → Status)
    (language : Bytes → Prop) : Prop :=
  ∀ word, (dfa.status? (dfa.run initial word)).map status = some .reject →
    (∀ byte, dfa.next? (dfa.run initial word) byte =
      some (dfa.run initial word)) ∧
    ∀ more, ¬language (word ++ more)

/-- Whether a word that no word of the language begins with is rejected. -/
def RejectsInTime (dfa : Dfa σ) (status : σ → Status)
    (language : Bytes → Prop) : Prop :=
  ∀ word, (∀ more, ¬language (word ++ more)) →
    (dfa.status? (dfa.run initial word)).map status = some .reject

end Dfa

/-! ## Keys that stay -/

/-- A key that a byte leads back to has a number that the byte leads back to. -/
theorem Numbering.next?_toDfa_self {κ σ : Type} [BEq κ] [Hashable κ]
    {step : κ → UInt8 → κ} {first key : κ} {numbering : Numbering κ}
    {verdicts : Array σ} (complete : Complete step first numbering)
    (sizes : verdicts.size = numbering.rows.size) {number : Nat}
    (found : numbering.keys[number]? = some key) {byte : UInt8}
    (stays : step key byte = key) :
    (numbering.toDfa verdicts).next? number byte = some number := by
  rcases complete.rows number key found with ⟨row, rowEq, right⟩
  have target := right byte
  rw [stays] at target
  rw [next?_toDfa sizes, rowEq, Option.map_some, Option.some.injEq]
  exact complete.injective _ _ key target found

namespace Nfa

variable {nfa : Nfa}

/-- A set of sinks stays as it is on every byte. -/
theorem read_eq_self {active : StateSet} (fits : nfa.Fits active)
    (sinks : ∀ state, active.contains state = true → nfa.IsSink state)
    (byte : UInt8) : nfa.read active byte = active := by
  apply (activate_fits _).ext fits
  intro target
  rw [contains_activate]
  constructor
  · intro reached
    rcases reached with ⟨_, source, listed, path⟩
    rcases mem_targets.mp listed with ⟨state, member, step⟩
    have sink := sinks state member
    rw [sink.target, Option.some.injEq] at step
    subst step
    rwa [sink.path path]
  · intro member
    refine ⟨fits.below target member, target, ?_, .here⟩
    exact mem_targets.mpr ⟨target, member, (sinks target member).target byte⟩

/-- Where no state that rejects can be left, no byte leads away from a rejecting
state of the deterministic automaton. -/
theorem next?_run_toDfa_of_reject
    (sinks : ∀ state, (nfa.flags state).reject = true → nfa.IsSink state)
    {word : Bytes}
    (rejected : nfa.status (nfa.readWord nfa.start word) = .reject)
    (byte : UInt8) :
    nfa.toDfa.next? (nfa.toDfa.run Dfa.initial word) byte =
      some (nfa.toDfa.run Dfa.initial word) := by
  have stays : nfa.read (nfa.readWord nfa.start word) byte =
      nfa.readWord nfa.start word := by
    apply read_eq_self (readWord_fits (start_fits nfa) word)
    intro state member
    exact sinks state ((status_eq_reject_iff.mp rejected).2 state member)
  exact Numbering.next?_toDfa_self (reachableSets_complete nfa)
    (sizes_reachableSets nfa) (getElem?_run_toDfa nfa word) stays

end Nfa

/-! ## One pattern -/

namespace Pattern

variable {pattern : Pattern}

theorem status?_compile_eq_reject_iff {word : Bytes} :
    (pattern.compile.dfa.status?
        (pattern.compile.dfa.run Dfa.initial word)).map id = some .reject ↔
      pattern.toNfa.status (pattern.toNfa.readWord pattern.toNfa.start word) =
        .reject := by
  rw [compile, Nfa.status?_run_toDfa, Option.map_some, Option.some.injEq]
  rfl

theorem rejectsForGood_compile (pattern : Pattern) :
    pattern.compile.dfa.RejectsForGood id (Matches pattern) := by
  intro word rejected
  rw [status?_compile_eq_reject_iff] at rejected
  constructor
  · exact Nfa.next?_run_toDfa_of_reject (fun _ => isSink_of_reject) rejected
  · intro more belongs
    rw [← acceptsFrom_toDfa, Dfa.acceptsFrom, beq_iff_eq] at belongs
    rw [← Nfa.verdict_run_toDfa] at rejected
    exact rejectsFinally_compile pattern word more rejected belongs

/-- A state that a word leads to and that accepts something is the beginning of
a longer word of the pattern. -/
theorem matches_of_active {word more : Bytes} {state : Nat}
    (active : (pattern.toNfa.readWord pattern.toNfa.start word).contains state =
      true)
    (accepted : pattern.toNfa.AcceptsFrom state more) :
    Matches pattern (word ++ more) := by
  rcases (Nfa.contains_readWord.mp active).2 with ⟨source, listed, path⟩
  rw [mem_statesWith_onlyStart] at listed
  subst listed
  exact ((placed_toNfa pattern).part.accepts _).mp (.after path accepted)

theorem rejectsInTime_compile (full : pattern.filled = true) :
    pattern.compile.dfa.RejectsInTime id (Matches pattern) := by
  intro word none
  rw [status?_compile_eq_reject_iff, Nfa.status_eq_reject_iff]
  constructor
  · intro accepted
    apply none []
    rw [List.append_nil]
    exact accepts_toNfa.mp accepted
  · intro state active
    by_contra passes
    have inside : state < pattern.needed := by
      rw [← size_toNfa]
      exact (Nfa.contains_readWord.mp active).1
    rcases live_toNfa full state ⟨Nat.zero_le _, inside⟩
      (Bool.eq_false_of_not_eq_true passes) with ⟨more, accepted⟩
    exact none more (matches_of_active active accepted)

end Pattern

/-! ## Sets of patterns -/

namespace PatternSet

variable {patterns : List Pattern}

theorem jointStatus_eq_reject_iff {verdicts : List Status} :
    jointStatus verdicts = .reject ↔
      verdicts ≠ [] ∧ ∀ status ∈ verdicts, status = .reject := by
  constructor
  · intro rejected
    refine ⟨?_, all_reject_of_jointStatus rejected⟩
    rintro rfl
    cases rejected
  · intro both
    have accepts : verdicts.any (· == .accept) = false := by
      rw [List.any_eq_false]
      intro status listed
      rw [both.2 status listed]
      decide
    have rejects : verdicts.all (· == .reject) = true := by
      rw [List.all_eq_true]
      intro status listed
      rw [both.2 status listed]
      rfl
    rw [jointStatus, accepts, rejects]
    simp [both.1]

theorem status?_ofPatterns_eq_reject_iff {word : Bytes} :
    ((ofPatterns patterns).dfa.status?
        ((ofPatterns patterns).dfa.run Dfa.initial word)).map (·.status) =
        some .reject ↔
      patterns ≠ [] ∧ ∀ pattern ∈ patterns,
        (pattern.compile.dfa.status?
          (pattern.compile.dfa.run Dfa.initial word)).map id =
            some .reject := by
  rcases status?_run_ofPatterns patterns word with ⟨verdict, found, status, _⟩
  have verdicts : ∀ pattern : Pattern,
      pattern.compile.dfa.verdict id
          (pattern.compile.dfa.run Dfa.initial word) =
        pattern.toNfa.status
          (pattern.toNfa.readWord pattern.toNfa.start word) :=
    fun pattern => Nfa.verdict_run_toDfa pattern.toNfa word
  rw [found, Option.map_some, Option.some.injEq, status,
    jointStatus_eq_reject_iff]
  simp only [statusesAfter, ne_eq, List.map_eq_nil_iff, List.forall_mem_map,
    verdicts, Pattern.status?_compile_eq_reject_iff]

/-- When all components stay where they are on a byte, so does their tuple. -/
theorem advance_tupleAfter_self {components : List Regex} {word : Bytes}
    {byte : UInt8}
    (stay : ∀ regex ∈ components,
      regex.dfa.next? (regex.dfa.run Dfa.initial word) byte =
        some (regex.dfa.run Dfa.initial word)) :
    advance components (tupleAfter components word) byte =
      tupleAfter components word := by
  rw [tupleAfter, advance_map]
  apply List.map_congr_left
  intro regex listed
  rw [Dfa.next, stay regex listed, Option.getD_some]

theorem rejectsForGood_ofPatterns (patterns : List Pattern) :
    (ofPatterns patterns).dfa.RejectsForGood (·.status) fun word =>
      ∃ pattern ∈ patterns, Pattern.Matches pattern word := by
  intro word rejected
  have each := (status?_ofPatterns_eq_reject_iff.mp rejected).2
  constructor
  · intro byte
    apply Numbering.next?_toDfa_self (complete_ofPatterns patterns)
      (size_layOutVerdicts patterns) (getElem?_run_ofPatterns patterns word)
    apply advance_tupleAfter_self
    intro regex listed
    rcases List.mem_map.mp listed with ⟨pattern, patternMem, rfl⟩
    exact (Pattern.rejectsForGood_compile pattern word
      (each pattern patternMem)).1 byte
  · intro more belongs
    rcases belongs with ⟨pattern, listed, belongs⟩
    exact (Pattern.rejectsForGood_compile pattern word
      (each pattern listed)).2 more belongs

theorem rejectsInTime_ofPatterns (nonempty : patterns ≠ [])
    (full : ∀ pattern ∈ patterns, pattern.filled = true) :
    (ofPatterns patterns).dfa.RejectsInTime (·.status) fun word =>
      ∃ pattern ∈ patterns, Pattern.Matches pattern word := by
  intro word none
  apply status?_ofPatterns_eq_reject_iff.mpr
  refine ⟨nonempty, ?_⟩
  intro pattern listed
  apply Pattern.rejectsInTime_compile (full pattern listed)
  intro more belongs
  exact none more ⟨pattern, listed, belongs⟩

/-- Rejection is final for every pattern and every set of patterns. Without
empty character sets it comes as soon as no longer word can match; a set must
not be empty for that. -/
theorem rejects_finally_in_time :
    (∀ pattern : Pattern,
      pattern.compile.dfa.RejectsForGood id (Pattern.Matches pattern) ∧
      (pattern.filled = true →
        pattern.compile.dfa.RejectsInTime id (Pattern.Matches pattern))) ∧
    ∀ patterns : List Pattern, patterns ≠ [] →
      ((ofPatterns patterns).dfa.RejectsForGood (·.status) fun word =>
        ∃ pattern ∈ patterns, Pattern.Matches pattern word) ∧
      ((∀ pattern ∈ patterns, pattern.filled = true) →
        (ofPatterns patterns).dfa.RejectsInTime (·.status) fun word =>
          ∃ pattern ∈ patterns, Pattern.Matches pattern word) := by
  constructor
  · intro pattern
    exact ⟨Pattern.rejectsForGood_compile pattern,
      Pattern.rejectsInTime_compile⟩
  · intro patterns nonempty
    exact ⟨rejectsForGood_ofPatterns patterns,
      rejectsInTime_ofPatterns nonempty⟩

/-- The word `ab` and rows of `c`. -/
def twoKinds : List Pattern := [.literal [97, 98], .star (.charset [99])]

/-- After `aa` neither kind can match any more, and no byte changes that. -/
theorem rejects_twoKinds :
    twoKinds ≠ [] ∧ (∀ pattern ∈ twoKinds, pattern.filled = true) ∧
      ((ofPatterns twoKinds).dfa.status?
        ((ofPatterns twoKinds).dfa.run Dfa.initial [97, 97])).map (·.status) =
          some .reject ∧
      (ofPatterns twoKinds).dfa.next?
          ((ofPatterns twoKinds).dfa.run Dfa.initial [97, 97]) 98 =
        some ((ofPatterns twoKinds).dfa.run Dfa.initial [97, 97]) := by
  have nonempty : twoKinds ≠ [] := by decide
  have full : ∀ pattern ∈ twoKinds, pattern.filled = true := by decide
  have none : ∀ more, ¬∃ pattern ∈ twoKinds,
      Pattern.Matches pattern ([97, 97] ++ more) := by
    intro more belongs
    rcases belongs with ⟨pattern, listed, belongs⟩
    simp only [twoKinds, List.mem_cons, List.not_mem_nil, or_false] at listed
    rcases listed with rfl | rfl
    · have equal := Pattern.matches_literal.mp belongs
      simp at equal
    · rcases Pattern.matches_star.mp belongs with ⟨parts, equal, all⟩
      have listed : (97 : UInt8) ∈ parts.flatten := by
        rw [← equal]
        exact List.mem_cons_self
      rcases List.mem_flatten.mp listed with ⟨part, partMem, inside⟩
      rcases Pattern.matches_charset.mp (all part partMem)
        with ⟨byte, byteMem, rfl⟩
      rw [List.mem_singleton] at byteMem inside
      rw [byteMem] at inside
      cases inside
  have rejects := rejects_finally_in_time.2 twoKinds nonempty
  have rejected := rejects.2 full [97, 97] none
  exact ⟨nonempty, full, rejected, (rejects.1 [97, 97] rejected).1 98⟩

end PatternSet

end Munch
