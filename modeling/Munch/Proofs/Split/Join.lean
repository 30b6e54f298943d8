import Mathlib.Data.List.DropRight
import Munch.Proofs.Split

/-!
# Splitting is the inverse of joining

A buffer can be taken apart in one way only so that every delimiter stands
between two pieces and none inside a piece (`Pieces`). Joining pieces gives a
buffer and splitting that buffer gives the pieces back, two tokens for each
delimiter and the piece behind the last one as the remainder. So splitting can
also be interrupted: what it leaves is all that it needs to go on.
-/

namespace Munch

namespace Splitter

open ParallelSplitter (placesFrom textStartAfter pairsAt)

/-- Pieces of a buffer, none of which has the delimiter in it: the texts that
have a delimiter behind them, and what is behind the last delimiter. -/
@[ext]
structure Pieces (splitter : Splitter) where
  texts : List Bytes
  rest : Bytes
  clear_texts : ∀ text ∈ texts, splitter.delimiter ∉ text
  clear_rest : splitter.delimiter ∉ rest

variable (splitter : Splitter)

/-- Texts, each with the delimiter behind it. -/
def delimited (texts : List Bytes) : Bytes :=
  texts.flatMap (· ++ [splitter.delimiter])

/-- The tokens of texts that have the delimiter behind them. -/
def tokensOf (texts : List Bytes) : List Token :=
  texts.flatMap fun text =>
    [⟨text, SplitType.text.types⟩,
      ⟨[splitter.delimiter], SplitType.delimiter.types⟩]

namespace Pieces

variable {splitter : Splitter}

/-- The buffer that consists of the pieces. -/
def join (pieces : splitter.Pieces) : Bytes :=
  splitter.delimited pieces.texts ++ pieces.rest

/-- The tokens of the texts. -/
def tokens (pieces : splitter.Pieces) : List Token :=
  splitter.tokensOf pieces.texts

/-- The texts of the tokens and the rest spell the buffer. -/
theorem spells (pieces : splitter.Pieces) :
    pieces.tokens.flatMap (·.text) ++ pieces.rest = pieces.join := by
  simp [tokens, tokensOf, join, delimited, List.flatMap_assoc]

end Pieces

@[simp] theorem delimited_cons (text : Bytes) (texts : List Bytes) :
    splitter.delimited (text :: texts) =
      text ++ splitter.delimiter :: splitter.delimited texts := by
  simp [delimited]

@[simp] theorem tokensOf_cons (text : Bytes) (texts : List Bytes) :
    splitter.tokensOf (text :: texts) =
      pair text splitter.delimiter ++ splitter.tokensOf texts :=
  List.flatMap_cons

@[simp] theorem length_tokensOf (texts : List Bytes) :
    (splitter.tokensOf texts).length = 2 * texts.length := by
  simp [tokensOf, Nat.mul_comm]

/-- Different texts have different tokens. -/
theorem tokensOf_injective : Function.Injective splitter.tokensOf := by
  intro left right same
  induction left generalizing right with
  | nil =>
      cases right with
      | nil => rfl
      | cons => cases same
  | cons text left ih =>
      cases right with
      | nil => cases same
      | cons other right =>
          simp only [tokensOf_cons, pair, List.cons_append, List.nil_append,
            List.cons.injEq, Token.mk.injEq, and_true, true_and] at same
          rw [same.1, ih same.2]

/-! ## Splitting what was joined -/

section Clear

variable {splitter : Splitter}

/-- Bytes without the delimiter are read into the text that has begun. -/
theorem splitFrom_clear {delimiter : UInt8} {front : Bytes}
    (clear : delimiter ∉ front) (text : Bytes) (tokens : Array Token)
    (more : Bytes) :
    splitFrom delimiter text tokens (front ++ more) =
      splitFrom delimiter (front.reverse ++ text) tokens more := by
  induction front generalizing text with
  | nil => rfl
  | cons byte front ih =>
      rw [List.mem_cons, not_or] at clear
      rw [List.cons_append, splitFrom, if_neg (Ne.symm clear.1), ih clear.2,
        List.reverse_cons, List.append_assoc, List.singleton_append]

theorem split_clear {rest : Bytes} (clear : splitter.delimiter ∉ rest)
    (tokens : Array Token) : splitter.split rest tokens = (tokens, rest) := by
  have read := splitFrom_clear clear [] tokens []
  rw [List.append_nil, List.append_nil, splitFrom, List.reverse_reverse]
    at read
  exact read

/-- Behind texts that have the delimiter behind them splitting begins anew, with
the tokens of the texts added. -/
theorem split_delimited_append {texts : List Bytes}
    (clear : ∀ text ∈ texts, splitter.delimiter ∉ text) (tokens : Array Token)
    (more : Bytes) :
    splitter.split (splitter.delimited texts ++ more) tokens =
      splitter.split more (tokens ++ splitter.tokensOf texts) := by
  induction texts generalizing tokens with
  | nil => simp [delimited, tokensOf]
  | cons text texts ih =>
      rw [List.forall_mem_cons] at clear
      rw [delimited_cons, List.append_assoc, split, splitFrom_clear clear.1,
        List.cons_append, splitFrom, if_pos rfl, List.append_nil,
        List.reverse_reverse]
      have behind : tokens ++ splitter.tokensOf (text :: texts) =
          tokens ++ pair text splitter.delimiter ++
            splitter.tokensOf texts := by
        apply Array.ext'
        simp
      rw [behind]
      exact ih clear.2 _

theorem split_join (pieces : splitter.Pieces) (tokens : Array Token) :
    splitter.split pieces.join tokens =
      (tokens ++ pieces.tokens, pieces.rest) := by
  rw [Pieces.join, split_delimited_append pieces.clear_texts,
    split_clear pieces.clear_rest, Pieces.tokens]

end Clear

/-! ## Taking a buffer apart -/

/-- A byte more in front begins a new text if it is the delimiter, and belongs to
the first piece otherwise. -/
theorem exists_pieces (buffer : Bytes) :
    ∃ pieces : splitter.Pieces, buffer = pieces.join := by
  induction buffer with
  | nil => exact ⟨⟨[], [], by simp, by simp⟩, rfl⟩
  | cons byte buffer ih =>
      rcases ih with ⟨⟨texts, rest, clearTexts, clearRest⟩, rfl⟩
      by_cases found : byte = splitter.delimiter
      · refine ⟨⟨[] :: texts, rest, ?_, clearRest⟩, ?_⟩
        · simpa using clearTexts
        · simp [Pieces.join, found]
      · have other : splitter.delimiter ≠ byte := Ne.symm found
        cases texts with
        | nil =>
            refine ⟨⟨[], byte :: rest, by simp, ?_⟩, rfl⟩
            simpa [other] using clearRest
        | cons text texts =>
            refine ⟨⟨(byte :: text) :: texts, rest, ?_, clearRest⟩, ?_⟩
            · simpa [other] using clearTexts
            · simp [Pieces.join]

namespace Pieces

variable {splitter : Splitter}

/-- Pieces are what lies between the places of the delimiter: going through the
places in ascending order, with the beginning of the next text carried along,
cuts out their tokens, and the rest begins where the last text ended. -/
theorem tokens_eq_pairsAt (pieces : splitter.Pieces) :
    let places := placesFrom splitter.delimiter 0 pieces.join
    pieces.tokens = pairsAt pieces.join.toArray 0 places ∧
      pieces.rest = pieces.join.drop (textStartAfter 0 places) := by
  intro places
  have read := splitter.split_eq pieces.join #[]
  rw [split_join, Prod.mk.injEq] at read
  have tokens := congrArg Array.toList read.1
  simp only [Array.toList_appendList, List.nil_append] at tokens
  exact ⟨tokens, read.2⟩

/-- Pieces that make the same buffer are the same. -/
theorem join_injective :
    Function.Injective (join : splitter.Pieces → Bytes) := by
  intro one other same
  have ofOne := one.tokens_eq_pairsAt
  have ofOther := other.tokens_eq_pairsAt
  rw [same] at ofOne
  apply Pieces.ext
  · exact splitter.tokensOf_injective (ofOne.1.trans ofOther.1.symm)
  · exact ofOne.2.trans ofOther.2.symm

theorem count_join (pieces : splitter.Pieces) :
    pieces.join.count splitter.delimiter = pieces.texts.length := by
  rcases pieces with ⟨texts, rest, clearTexts, clearRest⟩
  rw [join, List.count_append, List.count_eq_zero.mpr clearRest, Nat.add_zero]
  induction texts with
  | nil => rfl
  | cons text texts ih =>
      rw [List.forall_mem_cons] at clearTexts
      rw [delimited_cons, List.count_append, List.count_cons_self,
        List.count_eq_zero.mpr clearTexts.1, Nat.zero_add, ih clearTexts.2,
        List.length_cons]

/-- The rest is all that is behind the last delimiter. -/
theorem rtakeWhile_join (pieces : splitter.Pieces) :
    pieces.join.rtakeWhile (· ≠ splitter.delimiter) = pieces.rest := by
  have clear : ∀ byte ∈ pieces.rest.reverse,
      decide (byte ≠ splitter.delimiter) = true := by
    intro byte member
    rw [List.mem_reverse] at member
    exact decide_eq_true fun found => pieces.clear_rest (found ▸ member)
  -- Behind the rest, seen from the end, there is a delimiter or nothing.
  have stop : (splitter.delimited pieces.texts).reverse.takeWhile
      (· ≠ splitter.delimiter) = [] := by
    cases pieces.texts.eq_nil_or_concat with
    | inl none => simp [none, delimited]
    | inr some =>
        rcases some with ⟨texts, text, last⟩
        simp [last, delimited]
  rw [join, List.rtakeWhile, List.reverse_append,
    List.takeWhile_append_of_pos clear, stop, List.append_nil,
    List.reverse_reverse]

end Pieces

/-- The remainder has no delimiter in it. -/
theorem clear_split (buffer : Bytes) (tokens : Array Token) :
    splitter.delimiter ∉ (splitter.split buffer tokens).2 := by
  rcases splitter.exists_pieces buffer with ⟨pieces, rfl⟩
  rw [split_join]
  exact pieces.clear_rest

/-- What splitting leaves is all that it needs to go on: to split a longer buffer
is to split the remainder with what is behind. -/
theorem split_append (buffer more : Bytes) (tokens : Array Token) :
    splitter.split (buffer ++ more) tokens =
      splitter.split ((splitter.split buffer tokens).2 ++ more)
        (splitter.split buffer tokens).1 := by
  rcases splitter.exists_pieces buffer with ⟨pieces, rfl⟩
  rw [split_join, Pieces.join, List.append_assoc,
    split_delimited_append pieces.clear_texts, Pieces.tokens]

/-- Splitting takes apart what was joined: each text gives a token of its own and
one for the delimiter behind it, in order, and the last piece is the remainder.
Every buffer is joined from pieces and from no others, with as many texts as it
has delimiters; so that is what splitting it gives, two tokens for each
delimiter, cut out at its places, and their texts with the remainder are the
buffer again. -/
theorem split_inverts_join :
    (∀ (pieces : splitter.Pieces) (tokens : Array Token),
      splitter.split pieces.join tokens =
        (tokens ++ pieces.tokens, pieces.rest)) ∧
    ∀ buffer : Bytes,
      let places := placesFrom splitter.delimiter 0 buffer
      ∃ pieces : splitter.Pieces, buffer = pieces.join ∧
        (∀ other : splitter.Pieces, buffer = other.join → other = pieces) ∧
        (∀ tokens : Array Token, splitter.split buffer tokens =
          (tokens ++ pieces.tokens, pieces.rest)) ∧
        pieces.texts.length = buffer.count splitter.delimiter ∧
        pieces.tokens.length = 2 * buffer.count splitter.delimiter ∧
        pieces.tokens = pairsAt buffer.toArray 0 places ∧
        pieces.rest = buffer.drop (textStartAfter 0 places) ∧
        pieces.tokens.flatMap (·.text) ++ pieces.rest = buffer := by
  refine ⟨split_join, fun buffer => ?_⟩
  rcases splitter.exists_pieces buffer with ⟨pieces, rfl⟩
  have cutOut := pieces.tokens_eq_pairsAt
  refine ⟨pieces, rfl, ?_, split_join pieces, pieces.count_join.symm, ?_,
    cutOut.1, cutOut.2, pieces.spells⟩
  · intro other same
    exact Pieces.join_injective same.symm
  · rw [Pieces.tokens, length_tokensOf, pieces.count_join]

end Splitter

end Munch
