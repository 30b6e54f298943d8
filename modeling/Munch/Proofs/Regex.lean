import Munch.Proofs.Dfa.Scan
import Munch.Proofs.Dfa.Subset
import Munch.Proofs.Pattern.Automaton
import Munch.Proofs.Pattern.Prefixes
import Munch.Regex

/-!
# Compiled patterns answer by definition

The automaton of a pattern accepts its language, the deterministic automaton
accepts the same words, and a scan of it may stop at a rejecting state. So the
answers of a compiled pattern are those of matching by definition.
-/

namespace Munch

namespace Nfa

variable {nfa : Nfa}

/-- When no state that rejects can be left, a rejected word never becomes an
accepted one. -/
theorem rejectsFinally_toDfa
    (sinks : ∀ state, (nfa.flags state).reject = true → nfa.IsSink state) :
    nfa.toDfa.RejectsFinally id Dfa.initial := by
  intro word more rejected accepted
  rw [verdict_run_toDfa, status_eq_reject_iff] at rejected
  rw [verdict_run_toDfa, status_start_eq_accept_iff] at accepted
  rcases accepted with ⟨target, ⟨source, listed, path⟩, accepts⟩
  rcases path.split with ⟨middle, first, rest⟩
  have inside := rest.source_lt_size (lt_size_of_accept accepts)
  have active : (nfa.readWord nfa.start word).contains middle = true :=
    contains_readWord.mpr ⟨inside, source, listed, first⟩
  have sink := sinks middle (rejected.2 middle active)
  rw [sink.path rest, sink.accept] at accepts
  cases accepts

end Nfa

namespace Pattern

/-! ## The automata of a pattern -/

theorem mem_statesWith_onlyStart {pattern : Pattern} {state : Nat} :
    state ∈ pattern.toNfa.statesWith .onlyStart ↔ state = 0 := by
  have placed := placed_toNfa pattern
  rw [Nfa.statesWith, List.mem_filter, List.mem_range, size_toNfa]
  constructor
  · intro both
    have inside : state ∈ (⟨0, pattern.needed⟩ : Span) :=
      ⟨Nat.zero_le _, both.1⟩
    rcases Nfa.getElem?_of_mem placed.part.fits inside with ⟨found, lookup⟩
    have marked := both.2
    rw [lookup] at marked
    apply (placed.start state inside).mp
    rw [Nfa.flags_eq lookup, ← Nfa.contains_onlyStart]
    exact marked
  · intro same
    subst same
    have inside : 0 ∈ (⟨0, pattern.needed⟩ : Span) := placed.part.first_mem
    rcases Nfa.getElem?_of_mem placed.part.fits inside with ⟨found, lookup⟩
    refine ⟨placed.part.inside, ?_⟩
    rw [lookup]
    have start := (placed.start 0 inside).mpr rfl
    rwa [Nfa.flags_eq lookup, ← Nfa.contains_onlyStart] at start

theorem accepts_toNfa {pattern : Pattern} {word : Bytes} :
    pattern.toNfa.status (pattern.toNfa.readWord pattern.toNfa.start word) =
      .accept ↔
      Matches pattern word := by
  rw [Nfa.status_start_eq_accept_iff,
    ← (placed_toNfa pattern).part.accepts word, Nfa.AcceptsFrom]
  simp only [Nfa.PathFrom, mem_statesWith_onlyStart, exists_eq_left]

theorem acceptsFrom_toDfa {pattern : Pattern} {word : Bytes} :
    pattern.toNfa.toDfa.acceptsFrom id Dfa.initial word = true ↔
      Matches pattern word := by
  rw [Dfa.acceptsFrom, beq_iff_eq, Nfa.verdict_run_toDfa]
  exact accepts_toNfa

theorem isSink_of_reject {pattern : Pattern} {state : Nat}
    (rejects : (pattern.toNfa.flags state).reject = true) :
    pattern.toNfa.IsSink state := by
  by_cases inside : state < pattern.needed
  · exact ((placed_toNfa pattern).part.tame state ⟨Nat.zero_le _,
      inside⟩).sink rejects
  · rw [Nfa.flags, Nfa.getElem?_eq_none (by rw [size_toNfa]; omega)] at rejects
    cases rejects

theorem rejectsFinally_compile (pattern : Pattern) :
    pattern.compile.dfa.RejectsFinally id Dfa.initial :=
  Nfa.rejectsFinally_toDfa fun _ => isSink_of_reject

/-! ## Answers -/

/-- The lengths listed by definition are those of the prefixes that the
automaton accepts. -/
theorem acceptedLengths_eq_prefixLengths (pattern : Pattern) (text : Bytes) :
    acceptedLengths (pattern.compile.dfa.acceptsFrom id Dfa.initial) text =
      pattern.prefixLengths text := by
  apply List.Pairwise.eq_of_mem_iff (acceptedLengths_ascending _ _)
    (prefixLengths_ascending pattern text)
  intro length
  rw [mem_acceptedLengths, mem_prefixLengths, compile, acceptsFrom_toDfa]

theorem longest_compile (pattern : Pattern) (text : Bytes) :
    pattern.compile.longest text = pattern.longest text := by
  rw [Regex.longest, Dfa.longest_eq (rejectsFinally_compile pattern),
    acceptedLengths_eq_prefixLengths, Option.map_map, longest]
  exact Option.map_id'

theorem shortest_compile (pattern : Pattern) (text : Bytes) :
    pattern.compile.shortest text = pattern.shortest text := by
  rw [Regex.shortest, Dfa.shortest_eq (rejectsFinally_compile pattern),
    acceptedLengths_eq_prefixLengths, shortest]

theorem isMatch_compile (pattern : Pattern) (text : Bytes) :
    pattern.compile.isMatch text = pattern.isMatch text := by
  rw [Regex.isMatch, longest_compile, Bool.eq_iff_iff, beq_iff_eq, isMatch,
    List.contains_iff_mem, longest, getLast?_eq_some_iff_largest
      (prefixLengths_ascending pattern text)]
  constructor
  · intro largest
    exact largest.1
  · intro member
    refine ⟨member, ?_⟩
    intro other otherMember
    exact (mem_prefixLengths.mp otherMember).1

theorem isMatch_compile_iff {pattern : Pattern} {text : Bytes} :
    pattern.compile.isMatch text = true ↔ Matches pattern text := by
  rw [isMatch_compile, isMatch, List.contains_iff_mem, mem_prefixLengths,
    List.take_length]
  simp

theorem longest_compile_eq_some_iff {pattern : Pattern} {text : Bytes}
    {length : Nat} :
    pattern.compile.longest text = some length ↔
      (length ≤ text.length ∧ Matches pattern (text.take length)) ∧
        ∀ other, other ≤ text.length → Matches pattern (text.take other) →
          other ≤ length := by
  rw [longest_compile, longest,
    getLast?_eq_some_iff_largest (prefixLengths_ascending pattern text)]
  simp only [mem_prefixLengths, and_imp]

theorem longest_compile_eq_none_iff {pattern : Pattern} {text : Bytes} :
    pattern.compile.longest text = none ↔
      ∀ length, length ≤ text.length → ¬Matches pattern (text.take length) := by
  rw [longest_compile, longest, List.getLast?_eq_none_iff,
    List.eq_nil_iff_forall_not_mem]
  simp only [mem_prefixLengths, not_and]

theorem shortest_compile_eq_some_iff {pattern : Pattern} {text : Bytes}
    {length : Nat} :
    pattern.compile.shortest text = some length ↔
      (length ≤ text.length ∧ Matches pattern (text.take length)) ∧
        ∀ other, other ≤ text.length → Matches pattern (text.take other) →
          length ≤ other := by
  rw [shortest_compile, shortest,
    head?_eq_some_iff_least (prefixLengths_ascending pattern text)]
  simp only [mem_prefixLengths, and_imp]

theorem shortest_compile_eq_none_iff {pattern : Pattern} {text : Bytes} :
    pattern.compile.shortest text = none ↔
      ∀ length, length ≤ text.length → ¬Matches pattern (text.take length) := by
  rw [shortest_compile, shortest, List.head?_eq_none_iff,
    List.eq_nil_iff_forall_not_mem]
  simp only [mem_prefixLengths, not_and]

/-- A compiled pattern answers exactly as matching by definition does, on every
text. -/
theorem compile_answers (pattern : Pattern) (text : Bytes) :
    pattern.compile.isMatch text = pattern.isMatch text ∧
      pattern.compile.longest text = pattern.longest text ∧
      pattern.compile.shortest text = pattern.shortest text :=
  ⟨isMatch_compile pattern text, longest_compile pattern text,
    shortest_compile pattern text⟩

end Pattern

end Munch
