import Munch.PatternSet
import Munch.Split.Parallel

/-!
# Tokenizers

A tokenizer reads a buffer, adds its tokens behind those that are there and
returns what it did not consume. There are three: splitting at a delimiter, the
same with a pool of tasks, and taking the longest match of a set of patterns
again and again.
-/

namespace Munch

namespace PatternSet

/-- Take longest matches off the front of `rest`, until nothing is left, nothing
matches, or only the empty word does. -/
def munchFrom (set : PatternSet) (rest : Bytes) (tokens : Array Token) :
    Array Token × Bytes :=
  match set.longest rest with
  | none => (tokens, rest)
  | some found =>
      if _progress : 0 < found.length ∧ rest ≠ [] then
        set.munchFrom (rest.drop found.length)
          (tokens.push ⟨rest.take found.length, found.types⟩)
      else
        (tokens, rest)
  termination_by rest.length
  decreasing_by
    have := List.length_pos_iff.mpr _progress.2
    simp only [List.length_drop]
    omega

end PatternSet

/-- Reads buffers into tokens. -/
inductive Tokenizer where
  | split (splitter : Splitter)
  | parallelSplit (splitter : ParallelSplitter)
  | munch (set : PatternSet)

namespace Tokenizer

/-- The number of token types. -/
def numTypes : Tokenizer → Nat
  | .split _ => SplitType.all.length
  | .parallelSplit _ => SplitType.all.length
  | .munch set => set.patterns.length

/-- What a call leaves behind: the tokenizer, whose pool has a history, the tokens
and the bytes that were not consumed. -/
structure Report where
  tokenizer : Tokenizer
  tokens : Array Token
  result : Except Failure Bytes

/-- Read a buffer. -/
def tokenize (tokenizer : Tokenizer) (buffer : Bytes) (tokens : Array Token) : Report :=
  match tokenizer with
  | .split splitter =>
      let (tokens, rest) := splitter.split buffer tokens
      ⟨tokenizer, tokens, .ok rest⟩
  | .parallelSplit splitter =>
      let report := splitter.split buffer tokens
      ⟨.parallelSplit report.splitter, report.tokens, report.result⟩
  | .munch set =>
      let (tokens, rest) := set.munchFrom buffer tokens
      ⟨tokenizer, tokens, .ok rest⟩

/-- Read one buffer into new tokens. -/
def tokenizeNew (tokenizer : Tokenizer) (buffer : Bytes) :
    Except Failure (Array Token × Bytes) :=
  let report := tokenizer.tokenize buffer #[]
  report.result.map fun rest => (report.tokens, rest)

end Tokenizer

/-- Settings for splitting at a delimiter. -/
structure SplitOptions where
  delimiter : UInt8 := 10
  parallel : Bool := false
  /-- The most threads to ask for. -/
  maxPool : Option Nat := none
  deriving DecidableEq

namespace SplitOptions

/-- The tokenizer for the settings, with a given pool in case it needs one. -/
def tokenizerWith (options : SplitOptions) (pool : Pool) : Tokenizer :=
  if options.parallel then .parallelSplit (.ofPool options.delimiter pool)
  else .split ⟨options.delimiter⟩

/-- The tokenizer for the settings, on a given machine. -/
def tokenizer (options : SplitOptions) (machine : Machine) : Tokenizer :=
  options.tokenizerWith (machine.pool options.maxPool)

end SplitOptions

end Munch
