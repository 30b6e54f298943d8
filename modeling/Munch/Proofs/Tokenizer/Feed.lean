import Mathlib.Logic.Function.Basic
import Munch.Proofs.Split.Join
import Munch.Proofs.Split.Run
import Munch.Tokenizer

/-!
# Splitting a stream chunk by chunk

A stream may come in chunks, each of which is given to one of several
tokenizers. A call then reads what the call before it has left, followed by its
chunk, and adds to the same tokens. Wherever the stream is cut, the calls
together give what splitting all of it at once gives, and it does not matter
which of them a pool has worked on.
-/

namespace Munch

namespace Tokenizer

/-- The tokenizers that split at a delimiter and cannot fail: the one without a
pool, and those with a pool that keeps its contract and at least one share of
the buffer. -/
inductive Splits (delimiter : UInt8) : Tokenizer → Prop
  | alone : Splits delimiter (.split ⟨delimiter⟩)
  | pooled {pool : Pool} {tasks : Nat} (honest : pool.Honest)
      (positive : 0 < tasks) :
      Splits delimiter (.parallelSplit ⟨delimiter, pool, tasks⟩)

variable {delimiter : UInt8}

/-- A call of a tokenizer that splits does what splitting does, and leaves a
tokenizer that splits. -/
theorem Splits.tokenize_eq {tokenizer : Tokenizer}
    (splits : tokenizer.Splits delimiter) (buffer : Bytes)
    (tokens : Array Token) :
    ∃ after : Tokenizer, after.Splits delimiter ∧
      tokenizer.tokenize buffer tokens =
        ⟨after, ((Splitter.mk delimiter).split buffer tokens).1,
          .ok ((Splitter.mk delimiter).split buffer tokens).2⟩ := by
  cases splits with
  | alone => exact ⟨_, .alone, rfl⟩
  | @pooled pool tasks honest positive =>
      let splitter : ParallelSplitter := ⟨delimiter, pool, tasks⟩
      have fair : splitter.pool.FairPlans := honest.1
      have read := ParallelSplitter.split_eq_of_fair fair positive buffer tokens
      rw [ParallelSplitter.failure?_of_honest honest] at read
      have still : (splitter.pool.after (splitter.batches buffer)).Honest :=
        honest
      refine ⟨.parallelSplit (splitter.after (splitter.batches buffer)),
        .pooled still positive, ?_⟩
      rw [tokenize, read]

/-- All tokenizers that split read a new buffer alike. -/
theorem Splits.tokenizeNew_eq {tokenizer : Tokenizer}
    (splits : tokenizer.Splits delimiter) (buffer : Bytes) :
    tokenizer.tokenizeNew buffer =
      .ok ((Splitter.mk delimiter).split buffer #[]) := by
  rcases splits.tokenize_eq buffer #[] with ⟨after, _, read⟩
  rw [tokenizeNew, read]
  rfl

/-- A chunk of a stream and the number of the tokenizer that it is given to. -/
structure Portion where
  tokenizer : Nat
  chunk : Bytes

/-- Feed a stream to numbered tokenizers. Each call reads what the call before it
has left, at first `rest`, followed by its chunk; its tokenizer is used on as the
call leaves it. The first failure ends the feeding. -/
def feed (tokenizers : Nat → Tokenizer) (tokens : Array Token) (rest : Bytes) :
    List Portion → Except Failure (Array Token × Bytes)
  | [] => .ok (tokens, rest)
  | portion :: portions =>
      let report := (tokenizers portion.tokenizer).tokenize
        (rest ++ portion.chunk) tokens
      match report.result with
      | .ok rest =>
          feed (Function.update tokenizers portion.tokenizer report.tokenizer)
            report.tokens rest portions
      | .error failure => .error failure

/-- A call hands on what splitting has left, and all tokenizers still split. -/
theorem feed_cons {tokenizers : Nat → Tokenizer}
    (splits : ∀ number, (tokenizers number).Splits delimiter)
    (tokens : Array Token) (rest : Bytes) (portion : Portion)
    (portions : List Portion) :
    ∃ after : Nat → Tokenizer, (∀ number, (after number).Splits delimiter) ∧
      let read := (Splitter.mk delimiter).split (rest ++ portion.chunk) tokens
      feed tokenizers tokens rest (portion :: portions) =
        feed after read.1 read.2 portions := by
  rcases (splits portion.tokenizer).tokenize_eq (rest ++ portion.chunk) tokens
    with ⟨after, still, report⟩
  refine ⟨Function.update tokenizers portion.tokenizer after, ?_, ?_⟩
  · rw [Function.forall_update_iff tokenizers
      fun _ tokenizer => tokenizer.Splits delimiter]
    exact ⟨still, fun number _ => splits number⟩
  · rw [feed, report]

/-- From a remainder without the delimiter on, feeding chunks is splitting the
remainder and all chunks at once. -/
theorem feed_eq_of_clear {tokenizers : Nat → Tokenizer} {rest : Bytes}
    (splits : ∀ number, (tokenizers number).Splits delimiter)
    (clear : delimiter ∉ rest) (tokens : Array Token)
    (portions : List Portion) :
    feed tokenizers tokens rest portions =
      .ok ((Splitter.mk delimiter).split
        (rest ++ portions.flatMap (·.chunk)) tokens) := by
  induction portions generalizing tokenizers rest tokens with
  | nil =>
      rw [feed, List.flatMap_nil, List.append_nil, Splitter.split_clear clear]
  | cons portion portions ih =>
      have left := (Splitter.mk delimiter).clear_split
        (rest ++ portion.chunk) tokens
      rcases feed_cons splits tokens rest portion portions
        with ⟨after, still, step⟩
      rw [step, ih still left, List.flatMap_cons, ← List.append_assoc,
        Splitter.split_append _ (rest ++ portion.chunk)]

/-- However a stream is cut into chunks, and whichever of the tokenizers that
split at the delimiter each chunk is given to, the calls add the tokens that
splitting all of it at once adds and leave the same remainder. -/
theorem feed_eq_split (delimiter : UInt8) (tokenizers : Nat → Tokenizer)
    (portions : List Portion) (tokens : Array Token)
    (splits : ∀ number, (tokenizers number).Splits delimiter) :
    feed tokenizers tokens [] portions =
      .ok ((Splitter.mk delimiter).split (portions.flatMap (·.chunk))
        tokens) :=
  feed_eq_of_clear splits List.not_mem_nil tokens portions

/-- A tokenizer without a pool and two with pools, one of which has more shares
than the buffers have bytes. -/
def threeTokenizers : Nat → Tokenizer
  | 0 => .split ⟨44⟩
  | 1 => .parallelSplit ⟨44, .inline, 9⟩
  | _ => .parallelSplit
      ⟨44, .threaded 2 fun _ size => (List.range size).reverse, 3⟩

theorem splits_threeTokenizers (number : Nat) :
    (threeTokenizers number).Splits 44 := by
  match number with
  | 0 => exact .alone
  | 1 => exact .pooled Pool.inline_honest (by decide)
  | number + 2 =>
      refine .pooled (Pool.threaded_honest fun _ size => ?_) (by decide)
      exact List.reverse_perm (List.range size)

/-- The second text lies in the first two chunks, and its delimiter in the fourth
one; the third chunk is empty. -/
theorem feed_threeTokenizers :
    (∀ number, (threeTokenizers number).Splits 44) ∧
      feed threeTokenizers #[.mk [122] [9]] []
          [⟨0, [97, 44, 98]⟩, ⟨2, [99]⟩, ⟨1, []⟩, ⟨2, [44, 44, 100]⟩] =
        .ok (#[⟨[122], [9]⟩, ⟨[97], [1]⟩, ⟨[44], [0]⟩, ⟨[98, 99], [1]⟩,
          ⟨[44], [0]⟩, ⟨[], [1]⟩, ⟨[44], [0]⟩], [100]) :=
  ⟨splits_threeTokenizers,
    feed_eq_split 44 threeTokenizers
      [⟨0, [97, 44, 98]⟩, ⟨2, [99]⟩, ⟨1, []⟩, ⟨2, [44, 44, 100]⟩]
      #[.mk [122] [9]] splits_threeTokenizers⟩

end Tokenizer

/-- Whatever the settings are, a pool that keeps its contract splits. -/
theorem SplitOptions.splits_tokenizerWith (options : SplitOptions) {pool : Pool}
    (honest : pool.Honest) :
    (options.tokenizerWith pool).Splits options.delimiter := by
  rw [tokenizerWith]
  split
  next =>
    have some := ParallelSplitter.tasks_ofPool_pos options.delimiter pool
    exact .pooled honest some
  next => exact .alone

end Munch
