import Mathlib.Data.List.Basic
import Munch.Lexicon.Scanner
import Munch.Pattern.Language

/-!
# The language of the lexicon

What words belong to each kind of lexeme, said by tests on their bytes. The
patterns are put together from patterns of single bytes, so these come first,
and then their repetition.
-/

namespace Munch

namespace Pattern

/-- Whether the words of a pattern are the single bytes that pass a test. -/
structure OneByte (pattern : Pattern) (test : UInt8 → Bool) : Prop where
  matches_iff {word : Bytes} :
    Matches pattern word ↔ ∃ byte, test byte = true ∧ word = [byte]

variable {pattern : Pattern} {test : UInt8 → Bool}

/-! ## Patterns of single bytes -/

theorem oneByte_charset {bytes : Bytes}
    (listed : ∀ byte, byte ∈ bytes ↔ test byte = true) :
    OneByte (.charset bytes) test := by
  constructor
  intro word
  rw [matches_charset]
  simp only [listed]

theorem oneByte_filter (test : UInt8 → Bool) :
    OneByte (.charset (allBytes.filter test)) test :=
  oneByte_charset fun byte => by simp [mem_allBytes]

theorem oneByte_byteRange (low high : UInt8) :
    OneByte (.byteRange low high) fun byte => low ≤ byte && byte ≤ high :=
  oneByte_filter _

theorem oneByte_byte (value : UInt8) : OneByte (.byte value) (· == value) := by
  constructor
  intro word
  simp [byte, matches_literal]

/-- Either of two single bytes. -/
theorem OneByte.or {first second : Pattern} {other : UInt8 → Bool}
    (one : OneByte first test) (two : OneByte second other) {word : Bytes} :
    Matches first word ∨ Matches second word ↔
      ∃ byte, (test byte || other byte) = true ∧ word = [byte] := by
  simp only [one.matches_iff, two.matches_iff, ← exists_or, ← or_and_right,
    Bool.or_eq_true]

/-! ## Repetition -/

theorem OneByte.star (one : OneByte pattern test) {word : Bytes} :
    Matches (.star pattern) word ↔ ∀ byte ∈ word, test byte = true := by
  rw [matches_star]
  constructor
  · rintro ⟨parts, rfl, all⟩ byte member
    rcases List.mem_flatten.mp member with ⟨part, listed, inside⟩
    rcases one.matches_iff.mp (all part listed) with ⟨only, passes, rfl⟩
    rw [List.mem_singleton.mp inside]
    exact passes
  · intro passes
    have flat : word = (word.map fun byte => [byte]).flatten := by
      rw [← List.flatMap_def, List.flatMap_singleton']
    refine ⟨word.map fun byte => [byte], flat, ?_⟩
    intro part listed
    rcases List.mem_map.mp listed with ⟨byte, member, rfl⟩
    exact one.matches_iff.mpr ⟨byte, passes byte member, rfl⟩

/-- A byte of one kind and then bytes of another. -/
theorem OneByte.thenStar {more : Pattern} {tests : UInt8 → Bool}
    (one : OneByte pattern test) (rest : OneByte more tests) {word : Bytes} :
    Matches (.concatenate [pattern, .star more]) word ↔
      ∃ byte back, word = byte :: back ∧ test byte = true ∧
        ∀ byte ∈ back, tests byte = true := by
  rw [matches_pair]
  simp only [one.matches_iff, rest.star]
  constructor
  · rintro ⟨_, back, rfl, ⟨byte, passes, rfl⟩, all⟩
    exact ⟨byte, back, rfl, passes, all⟩
  · rintro ⟨byte, back, rfl, passes, all⟩
    exact ⟨[byte], back, rfl, ⟨byte, passes, rfl⟩, all⟩

theorem OneByte.plus (one : OneByte pattern test) {word : Bytes} :
    Matches (.plus pattern) word ↔
      word ≠ [] ∧ ∀ byte ∈ word, test byte = true := by
  rw [Pattern.plus, one.thenStar one]
  constructor
  · rintro ⟨byte, back, rfl, passes, all⟩
    exact ⟨List.cons_ne_nil byte back, List.forall_mem_cons.mpr ⟨passes, all⟩⟩
  · rintro ⟨nonempty, all⟩
    rcases List.exists_cons_of_ne_nil nonempty with ⟨byte, back, rfl⟩
    exact ⟨byte, back, rfl, List.forall_mem_cons.mp all⟩

end Pattern

namespace Lexeme

open Pattern Scanner

/-! ## The kinds of lexemes -/

theorem oneByte_digit : OneByte digit isDigit :=
  oneByte_byteRange 0x30 0x39

theorem oneByte_wordHead : OneByte wordHead isWordHead := by
  constructor
  intro word
  simp only [wordHead, matches_alternate_cons, List.mem_cons, List.not_mem_nil,
    or_false, exists_eq_or_imp, exists_eq_left,
    (oneByte_byteRange _ _).matches_iff, (oneByte_byte _).matches_iff]
  simp only [← exists_or, ← or_and_right, ← or_assoc, isWordHead,
    Bool.or_eq_true]

theorem oneByte_wordTail :
    OneByte (.alternate [wordHead, digit]) isWordTail := by
  constructor
  intro word
  rw [matches_either, oneByte_wordHead.or oneByte_digit]
  rfl

theorem oneByte_blank : OneByte (.charset [0x20, 0x09, 0x0d, 0x0a]) isBlank :=
  oneByte_charset fun byte => by simp [isBlank, or_assoc]

/-- A word is a letter or an underscore, and then letters, digits and
underscores. -/
theorem matches_word {word : Bytes} :
    Matches Lexeme.word.pattern word ↔
      ∃ byte back, word = byte :: back ∧ isWordHead byte = true ∧
        ∀ byte ∈ back, isWordTail byte = true :=
  oneByte_wordHead.thenStar oneByte_wordTail

/-- Whether a text is a fraction: a point and behind it digits only, at least
one. -/
def IsFraction (text : Bytes) : Prop :=
  ∃ digits, text = 0x2e :: digits ∧ digits ≠ [] ∧
    ∀ byte ∈ digits, isDigit byte = true

/-- A number is a row of digits that a fraction may follow. -/
theorem matches_number {word : Bytes} :
    Matches Lexeme.number.pattern word ↔
      ∃ digits back, word = digits ++ back ∧
        (digits ≠ [] ∧ ∀ byte ∈ digits, isDigit byte = true) ∧
        (back = [] ∨ IsFraction back) := by
  rw [Lexeme.pattern, matches_pair]
  simp only [oneByte_digit.plus, matches_optional, matches_pair, IsFraction,
    byte, matches_literal]
  simp

/-- Blanks are a row of blank bytes. -/
theorem matches_blank {word : Bytes} :
    Matches Lexeme.blank.pattern word ↔
      word ≠ [] ∧ ∀ byte ∈ word, isBlank byte = true :=
  oneByte_blank.plus

/-- Punctuation is a single byte. -/
theorem matches_punctuation {word : Bytes} :
    Matches Lexeme.punctuation.pattern word ↔
      ∃ byte, isPunctuation byte = true ∧ word = [byte] :=
  (oneByte_filter isPunctuation).matches_iff

end Lexeme

end Munch
