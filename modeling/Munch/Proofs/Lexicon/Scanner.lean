import Mathlib.Data.List.TakeWhile
import Munch.CommandLine.Run
import Munch.Proofs.Lexicon
import Munch.Proofs.PatternSet

/-!
# The lexicon is its scanner

The scanner and the patterns of the lexicon read the same lexemes. A word of the
lexicon in front of a text is never longer than what the scanner takes, and what
the scanner takes is a word of the lexicon, so it is the longest match. Only the
underscore is a word of two kinds, so the scanner's types are all that match.
With that, taking longest matches again and again is scanning.
-/

namespace Munch

namespace Lexeme

open Pattern

/-- The number of a kind's type, which is its place among all kinds. -/
def type : Lexeme → Nat
  | .word => 0
  | .number => 1
  | .blank => 2
  | .punctuation => 3

theorem mem_all (kind : Lexeme) : kind ∈ all := by
  cases kind <;> decide

theorem getElem?_all {index : Nat} {kind : Lexeme} :
    all[index]? = some kind ↔ index = kind.type := by
  constructor
  · intro found
    match index with
    | 0 | 1 | 2 | 3 => cases found; rfl
    | index + 4 => simp [all] at found
  · rintro rfl
    cases kind <;> rfl

namespace Scanner

/-! ## Bytes of different kinds -/

theorem isWordHead_of_isDigit {byte : UInt8} (digit : isDigit byte = true) :
    isWordHead byte = false := by
  have checked : ∀ byte ∈ allBytes, isDigit byte = true →
      isWordHead byte = false := by decide +kernel
  exact checked byte (mem_allBytes byte) digit

theorem of_isBlank {byte : UInt8} (blank : isBlank byte = true) :
    isWordHead byte = false ∧ isDigit byte = false := by
  have checked : ∀ byte ∈ allBytes, isBlank byte = true →
      isWordHead byte = false ∧ isDigit byte = false := by decide +kernel
  exact checked byte (mem_allBytes byte) blank

/-- The underscore is the only byte that both begins words and is
punctuation. -/
theorem of_isPunctuation {byte : UInt8} (mark : isPunctuation byte = true) :
    isDigit byte = false ∧ isBlank byte = false ∧
      (isWordHead byte = true ↔ byte = 0x5f) := by
  have checked : ∀ byte ∈ allBytes, isPunctuation byte = true →
      isDigit byte = false ∧ isBlank byte = false ∧
        (isWordHead byte = true ↔ byte = 0x5f) := by decide +kernel
  exact checked byte (mem_allBytes byte) mark

/-! ## How far a lexeme goes -/

theorem lexemeLength_eq_zero_iff {byte : UInt8} {rest : Bytes} :
    lexemeLength (byte :: rest) = 0 ↔ isKnown byte = false := by
  simp only [lexemeLength, isKnown, isWordTail]
  cases isWordHead byte <;> cases isDigit byte <;> cases isBlank byte <;>
    cases isPunctuation byte <;> simp

/-- A run of bytes that pass a test goes at least as far as the bytes in front
that pass it. -/
theorem length_le_takeWhile {test : UInt8 → Bool} {front : Bytes}
    (passes : ∀ byte ∈ front, test byte = true) (back : Bytes) :
    front.length ≤ ((front ++ back).takeWhile test).length := by
  rw [List.takeWhile_append_of_pos passes, List.length_append]
  exact Nat.le_add_right _ _

theorem take_length_takeWhile (test : UInt8 → Bool) (text : Bytes) :
    text.take (text.takeWhile test).length = text.takeWhile test :=
  (List.prefix_iff_eq_take.mp (List.takeWhile_prefix test)).symm

/-- The scanner takes at least a fraction that stands in front. -/
theorem length_le_fractionLength {fraction : Bytes}
    (isFraction : IsFraction fraction) (back : Bytes) :
    fraction.length ≤ fractionLength (fraction ++ back) := by
  rcases isFraction with ⟨digits, rfl, nonempty, passes⟩
  have enough := length_le_takeWhile passes back
  have positive := List.length_pos_iff.mpr nonempty
  rw [List.cons_append, fractionLength, if_neg (by omega), List.length_cons]
  omega

/-- What the scanner takes behind digits, if anything, is a fraction. -/
theorem isFraction_take {text : Bytes} (taken : fractionLength text ≠ 0) :
    IsFraction (text.take (fractionLength text)) := by
  unfold fractionLength at taken ⊢
  split at taken
  next rest =>
      dsimp only at taken ⊢
      by_cases noDigits : (rest.takeWhile isDigit).length = 0
      · rw [if_pos noDigits] at taken
        exact absurd rfl taken
      · rw [if_neg noDigits, Nat.add_comm, List.take_succ_cons,
          take_length_takeWhile]
        exact ⟨_, rfl, mt List.length_eq_zero_iff.mpr noDigits,
          fun byte => List.mem_takeWhile_imp⟩
  next => exact absurd rfl taken

/-- No digit stands in front of a fraction. -/
theorem takeWhile_fraction {fraction : Bytes}
    (isFraction : IsFraction fraction) (back : Bytes) :
    (fraction ++ back).takeWhile isDigit = [] ∧
      (fraction ++ back).dropWhile isDigit = fraction ++ back := by
  rcases isFraction with ⟨digits, rfl, -⟩
  exact ⟨rfl, rfl⟩

theorem lexemeLength_of_isWordHead {byte : UInt8}
    (head : isWordHead byte = true) (rest : Bytes) :
    lexemeLength (byte :: rest) = (rest.takeWhile isWordTail).length + 1 := by
  rw [lexemeLength, if_pos head, Nat.add_comm]

theorem lexemeLength_of_isBlank {byte : UInt8} (blank : isBlank byte = true)
    (rest : Bytes) :
    lexemeLength (byte :: rest) = (rest.takeWhile isBlank).length + 1 := by
  rw [lexemeLength, (of_isBlank blank).1, (of_isBlank blank).2,
    if_neg Bool.false_ne_true, if_neg Bool.false_ne_true, if_pos blank,
    Nat.add_comm]

/-- Where digits begin a text, the scanner takes them, the digits that follow
and then a fraction. -/
theorem lexemeLength_digits {digits : Bytes} (nonempty : digits ≠ [])
    (passes : ∀ byte ∈ digits, isDigit byte = true) (back : Bytes) :
    lexemeLength (digits ++ back) =
      digits.length + (back.takeWhile isDigit).length +
        fractionLength (back.dropWhile isDigit) := by
  rcases List.exists_cons_of_ne_nil nonempty with ⟨byte, more, rfl⟩
  rw [List.forall_mem_cons] at passes
  rw [List.cons_append, lexemeLength, isWordHead_of_isDigit passes.1,
    if_neg Bool.false_ne_true, if_pos passes.1,
    List.takeWhile_append_of_pos passes.2,
    List.dropWhile_append_of_pos passes.2, List.length_append, List.length_cons]
  omega

/-- No word of the lexicon in front of a text is longer than the scanner's
lexeme. -/
theorem length_le_lexemeLength {kind : Lexeme} {word : Bytes}
    (belongs : Matches kind.pattern word) (back : Bytes) :
    word.length ≤ lexemeLength (word ++ back) := by
  cases kind with
  | word =>
      rcases matches_word.mp belongs with ⟨byte, tail, rfl, head, passes⟩
      rw [List.cons_append, lexemeLength_of_isWordHead head, List.length_cons]
      exact Nat.succ_le_succ (length_le_takeWhile passes back)
  | number =>
      rcases matches_number.mp belongs with
        ⟨digits, tail, rfl, ⟨nonempty, passes⟩, absent | fraction⟩
      · rw [absent, List.append_nil, lexemeLength_digits nonempty passes,
          Nat.add_assoc]
        exact Nat.le_add_right _ _
      · have enough := length_le_fractionLength fraction back
        rcases takeWhile_fraction fraction back with ⟨ends, behind⟩
        rw [List.append_assoc, lexemeLength_digits nonempty passes, ends,
          behind, List.length_append]
        exact Nat.add_le_add_left enough _
  | blank =>
      rcases matches_blank.mp belongs with ⟨nonempty, passes⟩
      rcases List.exists_cons_of_ne_nil nonempty with ⟨byte, tail, rfl⟩
      rw [List.forall_mem_cons] at passes
      rw [List.cons_append, lexemeLength_of_isBlank passes.1, List.length_cons]
      exact Nat.succ_le_succ (length_le_takeWhile passes.2 back)
  | punctuation =>
      rcases matches_punctuation.mp belongs with ⟨byte, mark, rfl⟩
      have known : isKnown byte = true := by
        rw [isKnown, mark, Bool.or_true]
      apply Nat.pos_of_ne_zero
      rw [List.cons_append, Ne, lexemeLength_eq_zero_iff, known]
      exact Bool.noConfusion

section

variable {byte : UInt8} {rest : Bytes}

theorem take_of_isWordHead (head : isWordHead byte = true) :
    (byte :: rest).take (lexemeLength (byte :: rest)) =
      byte :: rest.takeWhile isWordTail := by
  rw [lexemeLength_of_isWordHead head, List.take_succ_cons,
    take_length_takeWhile]

theorem take_of_isDigit (digit : isDigit byte = true) :
    (byte :: rest).take (lexemeLength (byte :: rest)) =
      (byte :: rest.takeWhile isDigit) ++
        (rest.dropWhile isDigit).take
          (fractionLength (rest.dropWhile isDigit)) := by
  have cut : byte :: rest =
      (byte :: rest.takeWhile isDigit) ++ rest.dropWhile isDigit := by
    rw [List.cons_append, List.takeWhile_append_dropWhile]
  have length : lexemeLength (byte :: rest) =
      (byte :: rest.takeWhile isDigit).length +
        fractionLength (rest.dropWhile isDigit) := by
    have taken := lexemeLength_digits (List.cons_ne_nil byte [])
      (List.forall_mem_singleton.mpr digit) rest
    rwa [List.length_singleton, Nat.add_comm 1] at taken
  rw [length]
  nth_rewrite 1 [cut]
  exact List.take_length_add_append _

theorem take_of_isBlank (blank : isBlank byte = true) :
    (byte :: rest).take (lexemeLength (byte :: rest)) =
      byte :: rest.takeWhile isBlank := by
  rw [lexemeLength_of_isBlank blank, List.take_succ_cons,
    take_length_takeWhile]

theorem take_of_isPunctuation (mark : isPunctuation byte = true)
    (other : isWordHead byte = false) :
    (byte :: rest).take (lexemeLength (byte :: rest)) = [byte] := by
  rcases of_isPunctuation mark with ⟨digit, blank, -⟩
  simp [lexemeLength, other, digit, blank, mark]

theorem exists_matches_take_cons (known : isKnown byte = true) :
    ∃ kind : Lexeme, Matches kind.pattern
      ((byte :: rest).take (lexemeLength (byte :: rest))) := by
  cases head : isWordHead byte with
  | true =>
      refine ⟨.word, ?_⟩
      rw [take_of_isWordHead head, matches_word]
      exact ⟨byte, _, rfl, head, fun byte => List.mem_takeWhile_imp⟩
  | false =>
      -- What is left of the known bytes are digits, blanks and punctuation.
      rw [isKnown, isWordTail, head, Bool.false_or, Bool.or_assoc,
        Bool.or_eq_true, Bool.or_eq_true] at known
      rcases known with digit | blank | mark
      · refine ⟨.number, ?_⟩
        rw [take_of_isDigit digit, matches_number]
        refine ⟨_, _, rfl, ⟨List.cons_ne_nil _ _, ?_⟩, ?_⟩
        · rw [List.forall_mem_cons]
          exact ⟨digit, fun byte => List.mem_takeWhile_imp⟩
        · by_cases absent : fractionLength (rest.dropWhile isDigit) = 0
          · rw [absent]
            exact .inl rfl
          · exact .inr (isFraction_take absent)
      · refine ⟨.blank, ?_⟩
        rw [take_of_isBlank blank, matches_blank, List.forall_mem_cons]
        exact ⟨List.cons_ne_nil _ _, blank, fun byte => List.mem_takeWhile_imp⟩
      · refine ⟨.punctuation, ?_⟩
        rw [take_of_isPunctuation mark head, matches_punctuation]
        exact ⟨byte, mark, rfl⟩

end

/-- What the scanner takes is a word of the lexicon. -/
theorem exists_matches_take {text : Bytes} (taken : lexemeLength text ≠ 0) :
    ∃ kind : Lexeme, Matches kind.pattern (text.take (lexemeLength text)) := by
  cases text with
  | nil => exact absurd rfl taken
  | cons byte rest =>
      rw [Ne, lexemeLength_eq_zero_iff, Bool.not_eq_false] at taken
      exact exists_matches_take_cons taken

/-! ## What a lexeme is -/

/-- Apart from the underscore, a word of a kind has the type of that kind. -/
theorem types_of_matches {kind : Lexeme} {word : Bytes}
    (belongs : Matches kind.pattern word) (notUnderscore : word ≠ [0x5f]) :
    types word = [kind.type] := by
  cases kind with
  | word =>
      rcases matches_word.mp belongs with ⟨byte, back, rfl, head, -⟩
      rw [types, if_neg notUnderscore, if_pos head, type]
  | number =>
      rcases matches_number.mp belongs with
        ⟨digits, back, rfl, ⟨nonempty, passes⟩, -⟩
      rcases List.exists_cons_of_ne_nil nonempty with ⟨byte, more, rfl⟩
      have digit := passes byte List.mem_cons_self
      rw [List.cons_append] at notUnderscore ⊢
      rw [types, if_neg notUnderscore, isWordHead_of_isDigit digit,
        if_neg Bool.false_ne_true, if_pos digit, type]
  | blank =>
      rcases matches_blank.mp belongs with ⟨nonempty, passes⟩
      rcases List.exists_cons_of_ne_nil nonempty with ⟨byte, more, rfl⟩
      have blank := passes byte List.mem_cons_self
      rcases of_isBlank blank with ⟨head, digit⟩
      rw [types, if_neg notUnderscore, head, digit, if_neg Bool.false_ne_true,
        if_neg Bool.false_ne_true, if_pos blank, type]
  | punctuation =>
      rcases matches_punctuation.mp belongs with ⟨byte, mark, rfl⟩
      rcases of_isPunctuation mark with ⟨digit, blank, head⟩
      have other : isWordHead byte ≠ true := by
        intro begins
        exact notUnderscore (by rw [head.mp begins])
      rw [types, if_neg notUnderscore, if_neg other, digit, blank,
        if_neg Bool.false_ne_true, if_neg Bool.false_ne_true, type]

/-- The underscore alone is a word and punctuation. -/
theorem matches_underscore {kind : Lexeme} :
    Matches kind.pattern [0x5f] ↔ kind = .word ∨ kind = .punctuation := by
  constructor
  · intro belongs
    cases kind with
    | word => exact .inl rfl
    | punctuation => exact .inr rfl
    | number =>
        rcases matches_number.mp belongs with
          ⟨digits, back, cut, ⟨nonempty, passes⟩, -⟩
        rcases List.exists_cons_of_ne_nil nonempty with ⟨byte, more, rfl⟩
        have digit := passes byte List.mem_cons_self
        rw [List.cons_append, List.cons.injEq] at cut
        rw [← cut.1] at digit
        exact absurd digit (by decide)
    | blank =>
        have blank := (matches_blank.mp belongs).2 0x5f List.mem_cons_self
        exact absurd blank (by decide)
  · rintro (rfl | rfl)
    · exact matches_word.mpr ⟨0x5f, [], rfl, by decide, by simp⟩
    · exact matches_punctuation.mpr ⟨0x5f, by decide, rfl⟩

/-- The types of a word are those of all kinds that it is of. -/
theorem mem_types {kind : Lexeme} {word : Bytes}
    (belongs : Matches kind.pattern word) {index : Nat} :
    index ∈ types word ↔
      ∃ other : Lexeme, index = other.type ∧ Matches other.pattern word := by
  by_cases underscore : word = [0x5f]
  · have both : types [0x5f] = [type .word, type .punctuation] := rfl
    simp [underscore, matches_underscore, both, and_or_left, exists_or]
  · rw [types_of_matches belongs underscore, List.mem_singleton]
    constructor
    · intro equal
      exact ⟨kind, equal, belongs⟩
    · rintro ⟨other, rfl, also⟩
      have same := types_of_matches belongs underscore
      rw [types_of_matches also underscore, List.cons.injEq] at same
      exact same.1

theorem types_ascending (text : Bytes) : (types text).Pairwise (· < ·) := by
  unfold types
  split
  next => exact .nil
  next => split_ifs <;> simp

/-- The types of a lexeme are the numbers of all patterns that match it. -/
theorem acceptingIndices_eq_types {kind : Lexeme} {word : Bytes}
    (belongs : Matches kind.pattern word) :
    PatternSet.acceptingIndices
        (PatternSet.statusesAfter ((all.map pattern).map Pattern.compile)
          word) =
      types word := by
  apply List.Pairwise.eq_of_mem_iff (PatternSet.acceptingIndices_ascending _)
    (types_ascending word)
  intro index
  rw [PatternSet.mem_acceptingIndices, PatternSet.getElem?_statusesAfter,
    mem_types belongs]
  simp only [List.getElem?_map, Option.map_eq_some_iff, getElem?_all,
    exists_exists_and_eq_and]

/-! ## The longest match -/

theorem fractionLength_le (text : Bytes) :
    fractionLength text ≤ text.length := by
  unfold fractionLength
  split
  next rest =>
      have within := (List.takeWhile_prefix (l := rest) isDigit).length_le
      dsimp only
      split <;> simp only [List.length_cons] <;> omega
  next => exact Nat.zero_le _

theorem lexemeLength_le (text : Bytes) : lexemeLength text ≤ text.length := by
  cases text with
  | nil => exact Nat.zero_le _
  | cons byte rest =>
      have tail := (List.takeWhile_prefix (l := rest) isWordTail).length_le
      have blanks := (List.takeWhile_prefix (l := rest) isBlank).length_le
      have digits := congrArg List.length
        (@List.takeWhile_append_dropWhile _ isDigit rest)
      have fraction := fractionLength_le (rest.dropWhile isDigit)
      rw [List.length_append] at digits
      rw [lexemeLength, List.length_cons]
      split_ifs <;> omega

theorem ne_nil_of_matches {kind : Lexeme} {word : Bytes}
    (belongs : Matches kind.pattern word) : word ≠ [] := by
  rintro rfl
  exact nomatch types_of_matches belongs (List.cons_ne_nil _ _).symm

/-- The scanner's lexeme is the longest match, and its types are those of the
match. -/
theorem longest_patternSet_eq_some {text : Bytes}
    (taken : lexemeLength text ≠ 0) :
    patternSet.longest text =
      some ⟨lexemeLength text, types (text.take (lexemeLength text))⟩ := by
  rcases exists_matches_take taken with ⟨kind, belongs⟩
  apply PatternSet.longest_ofPatterns_eq_some_iff.mpr
  refine ⟨⟨lexemeLength_le text, kind.pattern, ?_, belongs⟩, ?_,
    (acceptingIndices_eq_types belongs).symm⟩
  · exact List.mem_map_of_mem (mem_all kind)
  · intro other inside some
    rcases some with ⟨pattern, listed, also⟩
    rcases List.mem_map.mp listed with ⟨kind, _, rfl⟩
    have within := length_le_lexemeLength also (text.drop other)
    rwa [List.take_append_drop, List.length_take_of_le inside] at within

/-- Where the scanner finds no lexeme, nothing matches. -/
theorem longest_patternSet_eq_none {text : Bytes}
    (nothing : lexemeLength text = 0) :
    patternSet.longest text = none := by
  apply PatternSet.longest_ofPatterns_eq_none_iff.mpr
  intro length inside some
  rcases some with ⟨pattern, listed, belongs⟩
  rcases List.mem_map.mp listed with ⟨kind, _, rfl⟩
  have within := length_le_lexemeLength belongs (text.drop length)
  rw [List.take_append_drop, nothing, Nat.le_zero,
    List.length_eq_zero_iff] at within
  exact ne_nil_of_matches belongs within

/-! ## All lexemes -/

theorem lexemeLength_of_stopped {text : Bytes}
    (stopped : ¬(0 < lexemeLength text ∧ text ≠ [])) :
    lexemeLength text = 0 := by
  by_contra taken
  apply stopped
  refine ⟨Nat.pos_of_ne_zero taken, ?_⟩
  rintro rfl
  exact taken rfl

/-- Taking longest matches again and again is scanning. -/
theorem munchFrom_eq_scan (text : Bytes) (tokens : Array Token) :
    patternSet.munchFrom text tokens =
      (tokens ++ (scan text).1, (scan text).2) := by
  fun_induction scan text generalizing tokens with
  | case1 text length taken lexemes rest scanned ih =>
      rw [PatternSet.munchFrom,
        longest_patternSet_eq_some (Nat.ne_of_gt taken.1)]
      dsimp only
      rw [dif_pos taken, ih, scanned, Prod.mk.injEq]
      constructor
      · apply Array.ext'
        simp [length]
      · rfl
  | case2 text length stopped =>
      rw [PatternSet.munchFrom,
        longest_patternSet_eq_none (lexemeLength_of_stopped stopped)]
      simp

/-- The bytes of a word of the lexicon are known. -/
theorem isKnown_of_matches {kind : Lexeme} {word : Bytes}
    (belongs : Matches kind.pattern word) :
    ∀ byte ∈ word, isKnown byte = true := by
  have digit {byte : UInt8} (digit : isDigit byte = true) :
      isKnown byte = true := by
    simp [isKnown, isWordTail, digit]
  cases kind with
  | word =>
      rcases matches_word.mp belongs with ⟨byte, back, rfl, head, passes⟩
      rw [List.forall_mem_cons]
      refine ⟨by simp [isKnown, isWordTail, head], ?_⟩
      intro byte member
      simp [isKnown, passes byte member]
  | number =>
      rcases matches_number.mp belongs with
        ⟨digits, back, rfl, ⟨-, passes⟩, fraction⟩
      rw [List.forall_mem_append]
      refine ⟨fun byte member => digit (passes byte member), ?_⟩
      rcases fraction with rfl | ⟨more, rfl, -, others⟩
      · simp
      · rw [List.forall_mem_cons]
        exact ⟨by decide, fun byte member => digit (others byte member)⟩
  | blank =>
      intro byte member
      simp [isKnown, (matches_blank.mp belongs).2 byte member]
  | punctuation =>
      rcases matches_punctuation.mp belongs with ⟨byte, mark, rfl⟩
      simp [isKnown, mark]

/-- Scanning stops at the first byte that belongs to no lexeme. -/
theorem scan_rest (text : Bytes) : (scan text).2 = text.dropWhile isKnown := by
  fun_induction scan text with
  | case1 text length taken lexemes rest scanned ih =>
      rcases exists_matches_take (Nat.ne_of_gt taken.1) with ⟨kind, belongs⟩
      have skipped : (text.take length ++ text.drop length).dropWhile isKnown =
          (text.drop length).dropWhile isKnown :=
        List.dropWhile_append_of_pos (isKnown_of_matches belongs)
      rw [List.take_append_drop] at skipped
      rw [skipped, ← ih, scanned]
  | case2 text length stopped =>
      cases text with
      | nil => rfl
      | cons byte rest =>
          have unknown :=
            lexemeLength_eq_zero_iff.mp (lexemeLength_of_stopped stopped)
          rw [List.dropWhile_cons_of_neg (Bool.eq_false_iff.mp unknown)]

/-- The tokenizer of the lexicon is the scanner: on every buffer it adds the
scanner's tokens and leaves its remainder, which begins at the first byte that
belongs to no lexeme. Listing the tokens warns of that byte, and of nothing if
there is none. -/
theorem tokenize_eq_scan (buffer : Bytes) (tokens : Array Token) :
    tokenizer.tokenize buffer tokens =
        ⟨tokenizer, tokens ++ (scan buffer).1, .ok (scan buffer).2⟩ ∧
      (scan buffer).2 = buffer.dropWhile isKnown ∧
      ((scan buffer).2 = [] ↔ ∀ byte ∈ buffer, isKnown byte = true) ∧
      CommandLine.lexProduct buffer =
        .ok
          { text := Listing.listing kindName (scan buffer).1 (scan buffer).2
            warnings :=
              if buffer.all isKnown then []
              else
                ["stopped at byte " ++
                  toString (buffer.takeWhile isKnown).length ++
                  ": no lexeme matches"] } := by
  have read : ∀ tokens, tokenizer.tokenize buffer tokens =
      ⟨tokenizer, tokens ++ (scan buffer).1, .ok (scan buffer).2⟩ := by
    intro tokens
    rw [tokenizer, Tokenizer.tokenize, munchFrom_eq_scan]
  have ends : (scan buffer).2 = [] ↔ ∀ byte ∈ buffer, isKnown byte = true := by
    rw [scan_rest, List.dropWhile_eq_nil_iff]
  have consumed : buffer.length - (buffer.dropWhile isKnown).length =
      (buffer.takeWhile isKnown).length := by
    have whole := congrArg List.length
      (@List.takeWhile_append_dropWhile _ isKnown buffer)
    rw [List.length_append] at whole
    omega
  refine ⟨read tokens, scan_rest buffer, ends, ?_⟩
  rw [CommandLine.lexProduct, Tokenizer.tokenizeNew, read]
  simp only [Except.map, bind, Except.bind, List.isEmpty_iff, ends,
    ← List.all_eq_true]
  rw [scan_rest, consumed, Array.toList_appendList, List.nil_append]

end Scanner

end Lexeme

end Munch
