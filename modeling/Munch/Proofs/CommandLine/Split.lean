import Munch.Proofs.Listing
import Munch.Proofs.Tokenizer.Feed

/-!
# Two views of what was split

Splitting can be asked for with or without a pool of any size, and for a summary
in place of the listing. The pool leaves no trace in the output: all that is
written comes from the tokens and the remainder, which no pool that keeps its
contract has a say in. Nor does the summary say anything else than the listing,
although it only halves the number of tokens. The reason for both is that a
buffer consists of pieces (`Splitter.Pieces`), and that splitting takes it apart
into these.
-/

namespace Munch

namespace CommandLine

theorem splitProduct_eq (options : SplitOptions) (machine : Machine)
    (onlySummary : Bool) (pieces : (Splitter.mk options.delimiter).Pieces) :
    splitProduct options machine onlySummary pieces.join =
      .ok ⟨if onlySummary then
          summary (2 * pieces.texts.length) pieces.rest.length
        else Listing.listing splitKind pieces.tokens pieces.rest, []⟩ := by
  have splits : (options.tokenizer machine).Splits options.delimiter :=
    options.splits_tokenizerWith (machine.pool_honest options.maxPool)
  have length : pieces.tokens.length = 2 * pieces.texts.length :=
    Splitter.length_tokensOf _ _
  rw [splitProduct, splits.tokenizeNew_eq, Splitter.split_join, ← length]
  simp [bind, Except.bind]

section

variable {splitter : Splitter}

/-- Splitting makes a text and a delimiter in turn. -/
theorem map_splitKind_tokens (pieces : splitter.Pieces) :
    pieces.tokens.map splitKind =
      pieces.texts.flatMap fun _ => ["TEXT".toList, "DELIM".toList] := by
  simp only [Splitter.Pieces.tokens, Splitter.tokensOf, List.map_flatMap]
  rfl

theorem splitKind_ne_restKind (token : Token) :
    splitKind token ≠ Listing.restKind := by
  rw [splitKind]
  split
  next => decide
  next type _ _ =>
      cases SplitType.ofId? type with
      | none => decide
      | some type => cases type <;> decide

/-- Of the two lines of a text one is that of its delimiter, and the line of the
remainder is of another kind. -/
theorem count_kind_entries (pieces : splitter.Pieces) :
    ((Listing.entries splitKind pieces.tokens pieces.rest).map (·.kind)).count
        "DELIM".toList = pieces.texts.length := by
  have rest : (if pieces.rest = [] then [] else [Listing.restKind]).count
      "DELIM".toList = 0 := by
    split <;> decide
  rw [Listing.map_kind_entries, map_splitKind_tokens, List.count_append, rest,
    List.count_flatMap]
  simp [Function.comp_def]

end

/-- Halving the number of tokens gives the number of delimiters. -/
theorem summary_two_mul (delimiters rest : Nat) :
    summary (2 * delimiters) rest =
      "delimiters\t".toList ++ Listing.decimal delimiters ++
        "\nremainder\t".toList ++ Listing.decimal rest ++ ['\n'] := by
  unfold summary
  rw [Nat.mul_div_cancel_left _ (by decide)]

/-- What is made of an input does not depend on the pool. -/
theorem splitProduct_pool (options : SplitOptions) (parallel : Bool)
    (maxPool : Option Nat) (machine otherMachine : Machine)
    (onlySummary : Bool) :
    splitProduct { options with parallel, maxPool } machine onlySummary =
      splitProduct options otherMachine onlySummary := by
  funext input
  rcases (Splitter.mk options.delimiter).exists_pieces input with ⟨pieces, rfl⟩
  have one := splitProduct_eq { options with parallel, maxPool } machine
    onlySummary pieces
  have other := splitProduct_eq options otherMachine onlySummary pieces
  exact one.trans other.symm

theorem product_job_split (before behind : Given) (onlySummary : Bool)
    (machine : Machine) :
    ((Parsed.mk .split before { behind with summary := onlySummary }).job
      machine).product = splitProduct behind.splitOptions machine onlySummary :=
  rfl

/-- What splitting writes does not depend on whether a pool is asked for, on its
size and on what the machine makes of that; and every pool that keeps its contract
gives the tokens that splitting without one gives. The summary counts the
delimiters of the input, and so do their lines in the listing; its remainder is as
long as what is behind the last delimiter, and so is the place in the line of the
remainder. -/
theorem split_views_agree :
    (∀ (before other behind : Given) (parallel : Bool) (maxPool : Option Nat)
      (machine otherMachine : Machine),
      (Parsed.mk .split before { behind with parallel, maxPool }).job machine =
        (Parsed.mk .split other behind).job otherMachine) ∧
    (∀ (options : SplitOptions) (parallel : Bool) (maxPool : Option Nat)
      (pool otherPool : Pool) (input : Bytes), pool.Honest →
      otherPool.Honest →
      ({ options with parallel, maxPool }.tokenizerWith pool).tokenizeNew
          input =
        (options.tokenizerWith otherPool).tokenizeNew input) ∧
    ∀ (before behind : Given) (machine : Machine) (input : Bytes),
      let delimiter := behind.splitOptions.delimiter
      ∃ listed summed entries,
        ((Parsed.mk .split before { behind with summary := false }).job
          machine).product input = .ok listed ∧
        ((Parsed.mk .split before { behind with summary := true }).job
          machine).product input = .ok summed ∧
        Listing.read? listed.text = some entries ∧
        summed.text = "delimiters\t".toList ++
          Listing.decimal (input.count delimiter) ++ "\nremainder\t".toList ++
          Listing.decimal (input.rtakeWhile (· ≠ delimiter)).length ++ ['\n'] ∧
        (entries.map (·.kind)).count "DELIM".toList = input.count delimiter ∧
        Listing.restLength entries =
          (input.rtakeWhile (· ≠ delimiter)).length := by
  refine ⟨?_, ?_, ?_⟩
  · intro before other behind parallel maxPool machine otherMachine
    have product := splitProduct_pool behind.splitOptions parallel maxPool
      machine otherMachine behind.summary
    exact congrArg (Job.mk (.ofPath behind.input) (.ofPath behind.output))
      product
  · intro options parallel maxPool pool otherPool input honest otherHonest
    have one := SplitOptions.splits_tokenizerWith
      { options with parallel, maxPool } honest
    have other := options.splits_tokenizerWith otherHonest
    exact (one.tokenizeNew_eq input).trans (other.tokenizeNew_eq input).symm
  · intro before behind machine input delimiter
    rcases (Splitter.mk delimiter).exists_pieces input with ⟨pieces, rfl⟩
    have count : pieces.join.count delimiter = pieces.texts.length :=
      pieces.count_join
    have rest : pieces.join.rtakeWhile (· ≠ delimiter) = pieces.rest :=
      pieces.rtakeWhile_join
    have read : Listing.read?
        (Listing.listing splitKind pieces.tokens pieces.rest) =
          some (Listing.entries splitKind pieces.tokens pieces.rest) :=
      Listing.read?_listing (fun token _ => isName_splitKind token) _
    simp only [count, rest, product_job_split, splitProduct_eq,
      Bool.false_eq_true, if_false, if_true]
    refine ⟨_, _, _, rfl, rfl, read, ?_, count_kind_entries pieces, ?_⟩
    · exact summary_two_mul pieces.texts.length pieces.rest.length
    · refine Listing.restLength_entries ?_ pieces.rest
      exact fun token _ => splitKind_ne_restKind token

/-- A pool of two threads that begins with the last share makes of two commas
what is made of them without a pool. -/
theorem tokenizeNew_lastShareFirst :
    let pool := Pool.threaded 2 fun _ size => (List.range size).reverse
    pool.Honest ∧
      ((SplitOptions.mk 44 true (some 2)).tokenizerWith pool).tokenizeNew
          [97, 44, 44, 98] =
        .ok (#[⟨[97], [1]⟩, ⟨[44], [0]⟩, ⟨[], [1]⟩, ⟨[44], [0]⟩], [98]) := by
  intro pool
  have honest : pool.Honest :=
    Pool.threaded_honest fun _ size => List.reverse_perm (List.range size)
  have same := split_views_agree.2.1 { delimiter := 44 } true (some 2) pool
    .inline [97, 44, 44, 98] honest Pool.inline_honest
  exact ⟨honest, same⟩

end CommandLine

end Munch
