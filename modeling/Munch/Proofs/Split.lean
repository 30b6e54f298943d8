import Mathlib.Data.List.Basic
import Munch.Split.Parallel

/-!
# What splitting makes of a buffer

The tokens and the remainder are determined by the places of the delimiter
alone: two tokens for each place, with the text since the place before it, and
what follows the last one. Places of a buffer that is cut in two are those of
its parts, and so are the tokens.
-/

namespace Munch

namespace ParallelSplitter

/-! ## Places -/

theorem placesFrom_append (wanted : UInt8) (start : Nat) (left right : Bytes) :
    placesFrom wanted start (left ++ right) =
      placesFrom wanted start left ++
        placesFrom wanted (start + left.length) right := by
  induction left generalizing start with
  | nil => rfl
  | cons byte left ih =>
      have shift : start + (left.length + 1) =
        start + 1 + left.length := by omega
      rw [List.cons_append, placesFrom, placesFrom, ih, List.length_cons, shift]
      split <;> rfl

@[simp] theorem textStartAfter_nil (start : Nat) :
    textStartAfter start [] = start := rfl

@[simp] theorem textStartAfter_cons (start place : Nat) (places : List Nat) :
    textStartAfter start (place :: places) =
      textStartAfter (place + 1) places := by
  cases places with
  | nil => rfl
  | cons next places =>
      rw [textStartAfter, textStartAfter, List.getLast?_cons_cons,
        List.getLast?_cons]

/-! ## Tokens -/

/-- The two tokens of each place, where the text before the first place begins
at `textStart`. -/
def pairsAt (buffer : Array UInt8) : (textStart : Nat) → List Nat → List Token
  | _, [] => []
  | textStart, place :: places =>
      ⟨(Span.mk textStart place).extract buffer, SplitType.text.types⟩ ::
        ⟨(Span.mk place (place + 1)).extract buffer,
          SplitType.delimiter.types⟩ ::
        pairsAt buffer (place + 1) places

theorem pairsAt_append (buffer : Array UInt8) (textStart : Nat)
    (left right : List Nat) :
    pairsAt buffer textStart (left ++ right) =
      pairsAt buffer textStart left ++
        pairsAt buffer (textStartAfter textStart left) right := by
  induction left generalizing textStart with
  | nil => rfl
  | cons place left ih =>
      rw [List.cons_append, pairsAt, pairsAt, ih, textStartAfter_cons]
      rfl

end ParallelSplitter

namespace Splitter

open ParallelSplitter

theorem splitFrom_eq (delimiter : UInt8) (rest : Bytes) :
    ∀ {buffer front text : Bytes} (tokens : Array Token),
      buffer = front ++ text.reverse ++ rest →
      splitFrom delimiter text tokens rest =
        (tokens ++ pairsAt buffer.toArray front.length
            (placesFrom delimiter (front.length + text.length) rest),
          buffer.drop (textStartAfter front.length
            (placesFrom delimiter (front.length + text.length) rest))) := by
  induction rest with
  | nil =>
      intro buffer front text tokens cut
      subst cut
      simp [splitFrom, placesFrom, pairsAt]
  | cons byte rest ih =>
      intro buffer front text tokens cut
      rw [splitFrom, placesFrom]
      split
      next found =>
          have behind : buffer = (front ++ text.reverse ++ [byte]) ++
              ([] : Bytes).reverse ++ rest := by
            rw [cut]
            simp
          have before :
              (Span.mk front.length (front.length + text.length)).extract
              buffer.toArray = text.reverse := by
            subst cut
            simp [Span.slice, Span.length]
          have itself : (Span.mk (front.length + text.length)
              (front.length + text.length + 1)).extract buffer.toArray =
                [byte] := by
            subst cut
            simp [Span.slice, Span.length]
          have next : (front ++ text.reverse ++ [byte]).length =
              front.length + text.length + 1 := by
            simp [Nat.add_assoc]
          rw [ih _ behind, next, textStartAfter_cons, pairsAt, before, itself]
          simp [pair]
      next =>
          have further : buffer = front ++ (byte :: text).reverse ++ rest := by
            rw [cut]
            simp
          rw [ih tokens further, List.length_cons]
          rfl

/-- Splitting adds the pairs of all places of the delimiter and leaves what
follows the last of them. -/
theorem split_eq (splitter : Splitter) (buffer : Bytes) (tokens : Array Token) :
    splitter.split buffer tokens =
      (tokens ++ pairsAt buffer.toArray 0
          (placesFrom splitter.delimiter 0 buffer),
        buffer.drop (textStartAfter 0
          (placesFrom splitter.delimiter 0 buffer))) :=
  @splitFrom_eq splitter.delimiter buffer buffer [] [] tokens rfl

end Splitter

end Munch
