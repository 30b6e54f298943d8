import Mathlib.Data.Finset.Card
import Mathlib.Data.List.Infix
import Munch.Proofs.Pattern.WellFormed
import Munch.Proofs.PatternSet.States

/-!
# A set of keywords is a trie

The product of literals has a state for each beginning of a keyword and one more
for all other words. A beginning can be told from every other word by what is
missing for the keyword (`eq_of_run_eq`). All other words are rejected by every
component. A literal has a single state that rejects, so a component has but one
set to be in after them, whether or not it has accepted on the way
(`readWord_eq_of_reject`).
-/

namespace Munch

namespace Pattern

variable {pattern : Pattern} {one other word : Bytes}

/-! ## One pattern -/

/-- Words that lead to one state are continued alike. -/
theorem matches_append_of_run_eq
    (same : pattern.compile.dfa.run Dfa.initial one =
      pattern.compile.dfa.run Dfa.initial other) (more : Bytes) :
    Matches pattern (one ++ more) ↔ Matches pattern (other ++ more) := by
  rw [compile] at same
  rw [← acceptsFrom_toDfa, ← acceptsFrom_toDfa, Dfa.acceptsFrom,
    Dfa.acceptsFrom, Dfa.run_append, Dfa.run_append, same]

/-- Some state is active after every word. -/
theorem exists_active (pattern : Pattern) (word : Bytes) :
    ∃ state, (pattern.toNfa.readWord pattern.toNfa.start word).contains state =
      true := by
  have first : 0 < pattern.toNfa.size := by
    rw [size_toNfa]
    exact (placed_toNfa pattern).part.inside
  have inRange := inRange_toNfa pattern
  rcases inRange.exists_path word first with ⟨state, path⟩
  refine ⟨state, Nfa.contains_readWord.mpr ⟨inRange.path_lt path first, 0, ?_,
    path⟩⟩
  exact mem_statesWith_onlyStart.mpr rfl

section OneSink

variable {sink : Nat}
  (only : ∀ state, (pattern.toNfa.flags state).reject = true → state = sink)
include only

/-- When only one state rejects, it is the only active one after a rejected
word. -/
theorem contains_readWord_of_reject
    (rejected : pattern.toNfa.status
      (pattern.toNfa.readWord pattern.toNfa.start word) = .reject)
    (state : Nat) :
    (pattern.toNfa.readWord pattern.toNfa.start word).contains state = true ↔
      state = sink := by
  have rejects := (Nfa.status_eq_reject_iff.mp rejected).2
  constructor
  · intro active
    exact only state (rejects state active)
  · intro same
    subst same
    rcases exists_active pattern word with ⟨found, active⟩
    rwa [only found (rejects found active)] at active

theorem readWord_eq_of_reject
    (oneRejected : pattern.toNfa.status
      (pattern.toNfa.readWord pattern.toNfa.start one) = .reject)
    (otherRejected : pattern.toNfa.status
      (pattern.toNfa.readWord pattern.toNfa.start other) = .reject) :
    pattern.toNfa.readWord pattern.toNfa.start one =
      pattern.toNfa.readWord pattern.toNfa.start other := by
  apply Nfa.readWord_start_ext
  intro state
  rw [Bool.eq_iff_iff, contains_readWord_of_reject only oneRejected,
    contains_readWord_of_reject only otherRejected]

end OneSink

/-! ## One literal -/

variable {keyword : Bytes}

/-- A literal has one state that rejects, the one behind its bytes. -/
theorem eq_of_reject_literal {state : Nat}
    (rejects : ((literal keyword).toNfa.flags state).reject = true) :
    state = keyword.length + 1 := by
  rw [Nfa.flags, getElem?_toNfa, block] at rejects
  cases lookup : (Block.literal keyword)[state]? with
  | none =>
      rw [lookup] at rejects
      cases rejects
  | some written =>
      rw [lookup] at rejects
      rcases Block.literal_cases lookup with ⟨_, rfl⟩ | ⟨last, _⟩
      · cases rejects
      · exact last

/-- What is no beginning of a keyword is rejected by its literal. -/
theorem status_literal_of_not_begins (dead : ¬word <+: keyword) :
    (literal keyword).toNfa.status
      ((literal keyword).toNfa.readWord (literal keyword).toNfa.start word) =
        .reject := by
  apply status?_compile_eq_reject_iff.mp
  apply rejectsInTime_compile rfl
  intro more belongs
  rw [matches_literal] at belongs
  exact dead ⟨more, belongs⟩

/-- A word that leads where a beginning of a keyword leads is that beginning: the
same bytes are missing for the keyword. -/
theorem eq_of_run_literal_eq
    (same : (literal keyword).compile.dfa.run Dfa.initial one =
      (literal keyword).compile.dfa.run Dfa.initial other)
    (begins : one <+: keyword) : one = other := by
  rcases begins with ⟨more, whole⟩
  have belongs := (matches_append_of_run_eq same more).mp
    (matches_literal.mpr whole)
  rw [matches_literal, ← whole] at belongs
  exact (List.append_cancel_right belongs).symm

theorem run_literal_eq_of_not_begins (oneDead : ¬one <+: keyword)
    (otherDead : ¬other <+: keyword) :
    (literal keyword).compile.dfa.run Dfa.initial one =
      (literal keyword).compile.dfa.run Dfa.initial other := by
  apply (Numbering.run_eq_run_iff (Nfa.reachableSets_complete _)
    (Nfa.sizes_reachableSets _)).mpr
  exact readWord_eq_of_reject (fun _ => eq_of_reject_literal)
    (status_literal_of_not_begins oneDead)
    (status_literal_of_not_begins otherDead)

end Pattern

namespace PatternSet

/-! ## The product -/

section Product

variable {patterns : List Pattern} {one other : Bytes}

/-- Words lead to one product state exactly if they lead each component to one
state. -/
theorem run_ofPatterns_eq_iff :
    (ofPatterns patterns).dfa.run Dfa.initial one =
        (ofPatterns patterns).dfa.run Dfa.initial other ↔
      ∀ pattern ∈ patterns, pattern.compile.dfa.run Dfa.initial one =
        pattern.compile.dfa.run Dfa.initial other := by
  refine (Numbering.run_eq_run_iff (complete_ofPatterns patterns)
    (size_layOutVerdicts patterns)).trans ?_
  rw [follow_eq_tupleAfter, follow_eq_tupleAfter, tupleAfter_eq_iff,
    List.forall_mem_map]

theorem run_ofPatterns_lt (patterns : List Pattern) (word : Bytes) :
    (ofPatterns patterns).dfa.run Dfa.initial word <
      (ofPatterns patterns).size := by
  rcases status?_run_ofPatterns patterns word with ⟨verdict, found, _⟩
  exact Dfa.lt_size_of_status? found

/-- Words that lead to different states, and of which one leads where any given
word leads, are as many as there are states. -/
theorem size_ofPatterns_eq_card {words : Finset Bytes}
    (covers : ∀ word, ∃ found ∈ words,
      (ofPatterns patterns).dfa.run Dfa.initial found =
        (ofPatterns patterns).dfa.run Dfa.initial word)
    (differ : Set.InjOn ((ofPatterns patterns).dfa.run Dfa.initial) words) :
    (ofPatterns patterns).size = words.card := by
  have states : words.image ((ofPatterns patterns).dfa.run Dfa.initial) =
      Finset.range (ofPatterns patterns).size := by
    ext state
    rw [Finset.mem_image, Finset.mem_range]
    constructor
    · intro reached
      rcases reached with ⟨word, _, rfl⟩
      exact run_ofPatterns_lt patterns word
    · intro inside
      rcases Numbering.exists_run_eq (complete_ofPatterns patterns)
        (size_layOutVerdicts patterns) inside with ⟨word, leads⟩
      rcases covers word with ⟨found, listed, same⟩
      exact ⟨found, listed, same.trans leads⟩
  rw [← Finset.card_range (ofPatterns patterns).size, ← states,
    Finset.card_image_of_injOn differ]

end Product

/-! ## Keywords -/

/-- The beginnings of keywords, from the empty word to the whole keyword. -/
def prefixes (keywords : List Bytes) : Finset Bytes :=
  (keywords.flatMap List.inits).toFinset

variable {keywords : List Bytes} {one other word : Bytes}

theorem mem_prefixes :
    word ∈ prefixes keywords ↔ ∃ keyword ∈ keywords, word <+: keyword := by
  simp [prefixes]

/-- A beginning of a keyword is told from every other word. -/
theorem eq_of_run_eq (begins : one ∈ prefixes keywords)
    (same : (ofPatterns (keywords.map .literal)).dfa.run Dfa.initial one =
      (ofPatterns (keywords.map .literal)).dfa.run Dfa.initial other) :
    one = other := by
  rcases mem_prefixes.mp begins with ⟨keyword, listed, begins⟩
  have component := run_ofPatterns_eq_iff.mp same (.literal keyword)
    (List.mem_map_of_mem listed)
  exact Pattern.eq_of_run_literal_eq component begins

/-- Words that begin no keyword are not told from one another. -/
theorem run_eq_of_notMem (oneDead : one ∉ prefixes keywords)
    (otherDead : other ∉ prefixes keywords) :
    (ofPatterns (keywords.map .literal)).dfa.run Dfa.initial one =
      (ofPatterns (keywords.map .literal)).dfa.run Dfa.initial other := by
  apply run_ofPatterns_eq_iff.mpr
  rw [List.forall_mem_map]
  intro keyword listed
  exact Pattern.run_literal_eq_of_not_begins
    (fun begins => oneDead (mem_prefixes.mpr ⟨keyword, listed, begins⟩))
    (fun begins => otherDead (mem_prefixes.mpr ⟨keyword, listed, begins⟩))

theorem status?_of_notMem (nonempty : keywords ≠ [])
    (dead : word ∉ prefixes keywords) :
    ((ofPatterns (keywords.map .literal)).dfa.status?
      ((ofPatterns (keywords.map .literal)).dfa.run Dfa.initial word)).map
        (·.status) = some .reject := by
  apply status?_ofPatterns_eq_reject_iff.mpr
  refine ⟨List.map_eq_nil_iff.not.mpr nonempty, ?_⟩
  rw [List.forall_mem_map]
  intro keyword listed
  apply Pattern.status?_compile_eq_reject_iff.mpr
  apply Pattern.status_literal_of_not_begins
  intro begins
  exact dead (mem_prefixes.mpr ⟨keyword, listed, begins⟩)

/-- The product of keywords has a state for each beginning of a keyword and one
more. Different beginnings lead to different states, and every word that begins
no keyword leads to the one more, which rejects. -/
theorem ofPatterns_literals (keywords : List Bytes) (nonempty : keywords ≠ []) :
    let set := ofPatterns (keywords.map .literal)
    set.size = (prefixes keywords).card + 1 ∧
      (∀ one ∈ prefixes keywords, ∀ other ∈ prefixes keywords, one ≠ other →
        set.dfa.run Dfa.initial one ≠ set.dfa.run Dfa.initial other) ∧
      ∃ dead < set.size,
        (∀ word ∈ prefixes keywords, set.dfa.run Dfa.initial word ≠ dead) ∧
        (∀ word ∉ prefixes keywords, set.dfa.run Dfa.initial word = dead) ∧
        (set.dfa.status? dead).map (·.status) = some .reject := by
  intro set
  rcases Infinite.exists_notMem_finset (prefixes keywords) with ⟨stray, fresh⟩
  refine ⟨?_, ?_, set.dfa.run Dfa.initial stray, run_ofPatterns_lt _ stray,
    ?_, ?_, status?_of_notMem nonempty fresh⟩
  · -- The beginnings and one stray word stand for all states.
    rw [← Finset.card_insert_of_notMem fresh]
    apply size_ofPatterns_eq_card
    · intro word
      by_cases begins : word ∈ prefixes keywords
      · exact ⟨word, Finset.mem_insert_of_mem begins, rfl⟩
      · exact ⟨stray, Finset.mem_insert_self _ _, run_eq_of_notMem fresh begins⟩
    · intro one oneMem other otherMem same
      rcases Finset.mem_insert.mp oneMem with rfl | begins
      · rcases Finset.mem_insert.mp otherMem with rfl | begins
        · rfl
        · exact (eq_of_run_eq begins same.symm).symm
      · exact eq_of_run_eq begins same
  · intro one begins other _ differ same
    exact differ (eq_of_run_eq begins same)
  · intro word begins same
    rw [eq_of_run_eq begins same] at begins
    exact fresh begins
  · intro word begins
    exact run_eq_of_notMem begins fresh

/-- Five keywords: one of them twice, one the beginning of another, one empty. -/
def fiveKeywords : List Bytes := [[97, 98], [97], [97, 98], [], [98]]

/-- The beginnings are the empty word, `a`, `ab` and `b`. -/
theorem ofPatterns_fiveKeywords :
    fiveKeywords ≠ [] ∧
      (ofPatterns (fiveKeywords.map .literal)).size = 5 := by
  have nonempty : fiveKeywords ≠ [] := by decide
  have beginnings : (prefixes fiveKeywords).card = 4 := by decide
  have trie := (ofPatterns_literals fiveKeywords nonempty).1
  rw [beginnings] at trie
  exact ⟨nonempty, trie⟩

end PatternSet

end Munch
