import Munch.Proofs.Split.Join
import Munch.Proofs.Split.Run
import Munch.Proofs.Tokenizer.Longest

/-!
# Tokenizers lose nothing

However a tokenizer cuts a buffer, its tokens and what it leaves spell the
buffer again, and the tokens stand behind those that were there. The types of a
token are types of its tokenizer, at least one, each named once. A buffer that is
split is joined from pieces, whose tokens spell it. The tokens of a set of
patterns are longest matches, which says all this of them.
-/

namespace Munch

/-- Whether the types of a token, of which its tokenizer has so many, are listed
ascending, with at least one of them. -/
structure Token.Typed (numTypes : Nat) (token : Token) : Prop where
  nonempty : token.types ≠ []
  ascending : token.types.Pairwise (· < ·)
  below : ∀ type ∈ token.types, type < numTypes

/-- Whether tokens and a remainder are what a buffer has been cut into. -/
structure Cuts (numTypes : Nat) (buffer : Bytes) (tokens : List Token)
    (rest : Bytes) : Prop where
  spells : tokens.flatMap (·.text) ++ rest = buffer
  typed : ∀ token ∈ tokens, token.Typed numTypes

/-! ## Splitting -/

namespace SplitType

theorem typed (type : SplitType) (text : Bytes) :
    (Token.mk text type.types).Typed all.length where
  nonempty := List.cons_ne_nil _ _
  ascending := List.pairwise_singleton _ _
  below := by cases type <;> simp [types, id, all]

end SplitType

namespace Splitter

/-- Splitting cuts the buffer. -/
theorem split_cuts (splitter : Splitter) (buffer : Bytes)
    (tokens : Array Token) :
    ∃ added : List Token, (splitter.split buffer tokens).1 = tokens ++ added ∧
      Cuts SplitType.all.length buffer added
        (splitter.split buffer tokens).2 := by
  rcases splitter.exists_pieces buffer with ⟨pieces, rfl⟩
  rw [split_join]
  refine ⟨pieces.tokens, rfl, pieces.spells, ?_⟩
  intro token listed
  rcases List.mem_flatMap.mp listed with ⟨text, _, listed⟩
  rcases List.mem_pair.mp listed with rfl | rfl
  · exact SplitType.typed .text text
  · exact SplitType.typed .delimiter [splitter.delimiter]

end Splitter

/-! ## Taking matches -/

variable {patterns : List Pattern}

/-- A longest match is named after patterns of the set. -/
theorem Token.Longest.typed {text : Bytes} {token : Token}
    (longest : token.Longest patterns text) : token.Typed patterns.length where
  nonempty := by
    rcases longest.belongs with ⟨pattern, listed, belongs⟩
    rcases List.mem_iff_getElem?.mp listed with ⟨index, place⟩
    exact List.ne_nil_of_mem
      ((longest.mem_types index).mpr ⟨pattern, place, belongs⟩)
  ascending := longest.ascending
  below := by
    intro index member
    rcases (longest.mem_types index).mp member with ⟨pattern, place, _⟩
    exact (List.getElem?_eq_some_iff.mp place).1

theorem Munches.cuts {buffer rest : Bytes} {tokens : List Token}
    (munches : Munches patterns buffer tokens rest) :
    Cuts patterns.length buffer tokens rest where
  spells := munches.spells
  typed := by
    intro token member
    cases munches.longest_of_mem member with
    | intro text longest => exact longest.typed

/-- Taking matches cuts the buffer, and no token is empty. -/
theorem PatternSet.munchFrom_cuts (patterns : List Pattern) (buffer : Bytes)
    (tokens : Array Token) :
    ∃ added : List Token,
      ((ofPatterns patterns).munchFrom buffer tokens).1 = tokens ++ added ∧
      Cuts patterns.length buffer added
        ((ofPatterns patterns).munchFrom buffer tokens).2 ∧
      ∀ token ∈ added, token.text ≠ [] := by
  rcases munchFrom_munches patterns buffer tokens with
    ⟨added, rest, result, munches⟩
  rw [result]
  refine ⟨added, rfl, munches.cuts, ?_⟩
  intro token member
  cases munches.longest_of_mem member with
  | intro text longest => exact longest.nonempty

/-! ## All tokenizers -/

namespace Tokenizer

/-- Whether a tokenizer has the parts it is meant to have: a pool that resets and
runs each task once, at least one share of the buffer, patterns that have been
compiled. -/
def Sound : Tokenizer → Prop
  | .split _ => True
  | .parallelSplit splitter => splitter.pool.FairPlans ∧ 0 < splitter.tasks
  | .munch set => ∃ patterns, set = .ofPatterns patterns

/-- Whether the pool of a tokenizer, if it has one, fails no batch in which all
tasks succeed. -/
def Honest : Tokenizer → Prop
  | .parallelSplit splitter => splitter.pool.Honest
  | _ => True

variable {tokenizer : Tokenizer}

/-- Only a pool can fail. -/
theorem Honest.exists_rest (honest : tokenizer.Honest)
    (sound : tokenizer.Sound) (buffer : Bytes) (tokens : Array Token) :
    ∃ rest, (tokenizer.tokenize buffer tokens).result = .ok rest := by
  cases tokenizer with
  | split splitter => exact ⟨_, rfl⟩
  | munch set => exact ⟨_, rfl⟩
  | parallelSplit splitter =>
      rw [tokenize]
      dsimp only
      rw [ParallelSplitter.split_eq_of_fair sound.1 sound.2,
        ParallelSplitter.failure?_of_honest honest]
      exact ⟨_, rfl⟩

/-- A buffer that has been read has been cut. -/
theorem Sound.cuts (sound : tokenizer.Sound) {buffer rest : Bytes}
    {tokens : Array Token}
    (read : (tokenizer.tokenize buffer tokens).result = .ok rest) :
    ∃ added : List Token,
      (tokenizer.tokenize buffer tokens).tokens = tokens ++ added ∧
      Cuts tokenizer.numTypes buffer added rest ∧
      ∀ set, tokenizer = .munch set → ∀ token ∈ added, token.text ≠ [] := by
  cases tokenizer with
  | split splitter =>
      rcases splitter.split_cuts buffer tokens with ⟨added, behind, cuts⟩
      cases read
      exact ⟨added, behind, cuts, by simp⟩
  | parallelSplit splitter =>
      rw [tokenize] at read ⊢
      dsimp only at read ⊢
      rw [ParallelSplitter.split_eq_of_fair sound.1 sound.2] at read ⊢
      rcases (Splitter.mk splitter.delimiter).split_cuts buffer tokens with
        ⟨added, behind, cuts⟩
      cases outcome : splitter.failure? buffer with
      | some failure =>
          rw [outcome] at read
          cases read
      | none =>
          rw [outcome] at read
          cases read
          exact ⟨added, behind, cuts, by simp⟩
  | munch set =>
      rcases sound with ⟨patterns, rfl⟩
      rcases PatternSet.munchFrom_cuts patterns buffer tokens with
        ⟨added, behind, cuts, nonempty⟩
      cases read
      exact ⟨added, behind, cuts, fun _ _ => nonempty⟩

/-- New tokens and the remainder spell the buffer. -/
theorem tokenizeNew_spells (sound : tokenizer.Sound)
    (honest : tokenizer.Honest) (buffer : Bytes) :
    ∃ tokens rest, tokenizer.tokenizeNew buffer = .ok (tokens, rest) ∧
      tokens.toList.flatMap (·.text) ++ rest = buffer := by
  rcases honest.exists_rest sound buffer #[] with ⟨rest, read⟩
  rcases sound.cuts read with ⟨added, behind, cuts, _⟩
  refine ⟨(#[] : Array Token) ++ added, rest, ?_, ?_⟩
  · rw [tokenizeNew, read, behind]
    rfl
  · rw [Array.toList_appendList]
    exact cuts.spells

/-- A tokenizer fails only if its pool does. When it succeeds, the tokens that
were there are still in front, those behind them and the remainder spell the
buffer, and each of them has ascending types of the tokenizer, at least one. A
set of patterns makes no empty tokens. -/
theorem tokenize_lossless (tokenizer : Tokenizer) (sound : tokenizer.Sound)
    (buffer : Bytes) (tokens : Array Token) :
    let report := tokenizer.tokenize buffer tokens
    (tokenizer.Honest → ∃ rest, report.result = .ok rest) ∧
      ∀ rest, report.result = .ok rest → ∃ added : List Token,
        report.tokens = tokens ++ added ∧
        added.flatMap (·.text) ++ rest = buffer ∧
        ∀ token ∈ added, token.types ≠ [] ∧ token.types.Pairwise (· < ·) ∧
          (∀ type ∈ token.types, type < tokenizer.numTypes) ∧
          ∀ set, tokenizer = .munch set → token.text ≠ [] := by
  refine ⟨fun honest => honest.exists_rest sound buffer tokens, ?_⟩
  intro rest read
  rcases sound.cuts read with ⟨added, behind, cuts, nonempty⟩
  refine ⟨added, behind, cuts.spells, ?_⟩
  intro token member
  have typed := cuts.typed token member
  exact ⟨typed.nonempty, typed.ascending, typed.below,
    fun set made => nonempty set made token member⟩

/-- Three tasks that two threads take from the last to the first. -/
def backwards : Tokenizer :=
  .parallelSplit
    ⟨44, .threaded 2 fun _ size => (List.range size).reverse, 3⟩

/-- Two delimiters side by side, the second of which is in another share than the
first. -/
theorem tokenize_backwards :
    backwards.Sound ∧ backwards.Honest ∧
      (backwards.tokenize [97, 44, 44, 98] #[.mk [122] [9]]).result =
        .ok [98] ∧
      ∃ added : List Token, added.length = 4 ∧
        (backwards.tokenize [97, 44, 44, 98] #[.mk [122] [9]]).tokens =
          #[Token.mk [122] [9]] ++ added ∧
        added.flatMap (·.text) ++ [98] = [97, 44, 44, 98] ∧
        ∀ token ∈ added, token.types ≠ [] ∧
          ∀ type ∈ token.types, type < 2 := by
  have honest : backwards.Honest :=
    Pool.threaded_honest fun _ size => List.reverse_perm (List.range size)
  have sound : backwards.Sound := ⟨honest.1, by decide⟩
  rcases tokenize_lossless backwards sound [97, 44, 44, 98] #[.mk [122] [9]]
    with ⟨_, lossless⟩
  rcases lossless [98] rfl with ⟨added, behind, spells, typed⟩
  refine ⟨sound, honest, rfl, added, ?_, behind, spells, ?_⟩
  · have sizes := congrArg (·.toList.length) behind
    simp only [Array.toList_appendList, List.length_append] at sizes
    exact (Nat.add_left_cancel sizes).symm
  · intro token member
    exact ⟨(typed token member).1, (typed token member).2.2.1⟩

end Tokenizer

/-! ## Settings -/

theorem Machine.pool_honest (machine : Machine) (most : Option Nat) :
    (machine.pool most).Honest :=
  Pool.threaded_honest fun _ size => List.Perm.refl (List.range size)

/-- Whatever the settings are, the pool of the machine keeps the contract, and
there is a task for the buffer. -/
theorem SplitOptions.tokenizer_fit (options : SplitOptions)
    (machine : Machine) :
    (options.tokenizer machine).Sound ∧
      (options.tokenizer machine).Honest := by
  have honest := machine.pool_honest options.maxPool
  rw [tokenizer, tokenizerWith]
  split
  next => exact ⟨⟨honest.1, ParallelSplitter.tasks_ofPool_pos _ _⟩, honest⟩
  next => exact ⟨trivial, trivial⟩

end Munch
