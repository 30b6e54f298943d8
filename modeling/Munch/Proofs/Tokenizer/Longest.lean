import Munch.Proofs.PatternSet
import Munch.Tokenizer

/-!
# Tokens are longest matches

What a set of patterns makes of a buffer, said by the languages of the patterns
alone: each token is the longest word in front of what its predecessors have
left, named after all patterns that it belongs to, and the remainder begins with
no such word (`Munches`). Words without bytes do not count, so the loop goes on
past a pattern that has the empty word as long as another word is in front.

These rules leave no choice (`Munches.unique`), so they say everything about the
tokens.
-/

namespace Munch

/-- Whether a token is what a set of patterns has to find in front of a text: a
word with at least one byte, as long as a word of the patterns in front of the
text can be, with the places of all patterns that it belongs to, ascending. -/
structure Token.Longest (patterns : List Pattern) (text : Bytes)
    (token : Token) : Prop where
  begins : token.text <+: text
  nonempty : token.text ≠ []
  belongs : Pattern.SomeMatches patterns token.text
  longest : ∀ word, word <+: text → Pattern.SomeMatches patterns word →
    word.length ≤ token.text.length
  ascending : token.types.Pairwise (· < ·)
  mem_types : ∀ index, index ∈ token.types ↔
    ∃ pattern, patterns[index]? = some pattern ∧
      Pattern.Matches pattern token.text

/-- Whether no word of the patterns is in front of a text, the empty word
aside. -/
def Stuck (patterns : List Pattern) (text : Bytes) : Prop :=
  ∀ word, word <+: text → word ≠ [] → ¬Pattern.SomeMatches patterns word

/-- Whether taking longest matches off the front of a buffer gives tokens and
leaves a remainder. -/
inductive Munches (patterns : List Pattern) :
    Bytes → List Token → Bytes → Prop where
  | stop {rest : Bytes} (stuck : Stuck patterns rest) :
      Munches patterns rest [] rest
  | take {buffer rest : Bytes} {token : Token} {tokens : List Token}
      (longest : token.Longest patterns buffer)
      (more : Munches patterns (buffer.drop token.length) tokens rest) :
      Munches patterns buffer (token :: tokens) rest

variable {patterns : List Pattern} {text buffer rest : Bytes}
variable {tokens : List Token}

theorem stuck_nil (patterns : List Pattern) : Stuck patterns [] := by
  intro word front nonempty
  exact absurd (List.prefix_nil.mp front) nonempty

namespace Token.Longest

variable {token other : Token}

theorem not_stuck (longest : token.Longest patterns text) :
    ¬Stuck patterns text := by
  intro stuck
  exact stuck token.text longest.begins longest.nonempty longest.belongs

/-- There is only one longest match. -/
theorem unique (one : token.Longest patterns text)
    (two : other.Longest patterns text) : token = other := by
  have atMost := two.longest token.text one.begins one.belongs
  have atLeast := one.longest other.text two.begins two.belongs
  have texts : token.text = other.text :=
    (List.prefix_of_prefix_length_le one.begins two.begins atMost).eq_of_length
      (Nat.le_antisymm atMost atLeast)
  have types : token.types = other.types := by
    apply List.Pairwise.eq_of_mem_iff one.ascending two.ascending
    intro index
    rw [one.mem_types, two.mem_types, texts]
  exact congrArg₂ Token.mk texts types

/-- The longest match is still the longest when the text is cut off behind
it. -/
theorem of_prefix {shorter : Bytes} (longest : token.Longest patterns text)
    (within : shorter <+: text) (begins : token.text <+: shorter) :
    token.Longest patterns shorter :=
  { longest with
    begins := begins
    longest := fun word front belongs =>
      longest.longest word (front.trans within) belongs }

end Token.Longest

namespace Munches

/-- The tokens and the remainder spell the buffer. -/
theorem spells (munches : Munches patterns buffer tokens rest) :
    tokens.flatMap (·.text) ++ rest = buffer := by
  induction munches with
  | stop stuck => rfl
  | take longest more ih =>
      rw [List.flatMap_cons, List.append_assoc, ih, Token.length]
      exact List.prefix_iff_eq_append.mp longest.begins

theorem stuck (munches : Munches patterns buffer tokens rest) :
    Stuck patterns rest := by
  induction munches with
  | stop stuck => exact stuck
  | take longest more ih => exact ih

/-- Each token is the longest match behind those before it. -/
theorem longest_of_getElem? (munches : Munches patterns buffer tokens rest)
    {place : Nat} {token : Token} (found : tokens[place]? = some token) :
    token.Longest patterns
      (buffer.drop ((tokens.take place).flatMap (·.text)).length) := by
  induction munches generalizing place with
  | stop stuck => cases found
  | take longest more ih =>
      cases place with
      | zero =>
          cases found
          exact longest
      | succ place =>
          rw [List.take_succ_cons, List.flatMap_cons, List.length_append,
            ← List.drop_drop]
          exact ih found

theorem longest_of_mem (munches : Munches patterns buffer tokens rest)
    {token : Token} (member : token ∈ tokens) :
    ∃ text, token.Longest patterns text := by
  cases List.mem_iff_getElem?.mp member with
  | intro place found => exact ⟨_, munches.longest_of_getElem? found⟩

/-- Nothing is left open by taking longest matches. -/
theorem unique {others : List Token} {left : Bytes}
    (one : Munches patterns buffer tokens rest)
    (two : Munches patterns buffer others left) :
    tokens = others ∧ rest = left := by
  induction one generalizing others with
  | stop stuck =>
      cases two with
      | stop _ => exact ⟨rfl, rfl⟩
      | take longest _ => exact absurd stuck longest.not_stuck
  | take longest more ih =>
      cases two with
      | stop stuck => exact absurd stuck longest.not_stuck
      | take otherLongest otherMore =>
          cases longest.unique otherLongest
          cases ih otherMore with
          | intro tokens rest =>
              subst tokens rest
              exact ⟨rfl, rfl⟩

end Munches

/-! ## What the loop does -/

namespace PatternSet

section Longest

variable {found : Match} (hit : (ofPatterns patterns).longest text = some found)
include hit

/-- No word in front of a text is longer than the match that is found. -/
theorem length_le_of_longest {word : Bytes} (front : word <+: text)
    (belongs : Pattern.SomeMatches patterns word) :
    word.length ≤ found.length := by
  have largest := (longest_ofPatterns_eq_some_iff.mp hit).2.1 word.length
  rw [← List.prefix_iff_eq_take.mp front] at largest
  exact largest front.length_le belongs

theorem longest_token (progress : 0 < found.length ∧ text ≠ []) :
    (Token.mk (text.take found.length) found.types).Longest patterns text := by
  rcases longest_ofPatterns_eq_some_iff.mp hit with
    ⟨⟨inside, some⟩, _, types⟩
  refine ⟨List.take_prefix _ _, ?_, some, ?_, ?_, ?_⟩
  · have taken := Nat.ne_of_gt progress.1
    simp [taken, progress.2]
  · intro word front belongs
    rw [List.length_take_of_le inside]
    exact length_le_of_longest hit front belongs
  · change found.types.Pairwise (· < ·)
    rw [types]
    exact acceptingIndices_ascending _
  · intro index
    change index ∈ found.types ↔ _
    rw [types, mem_acceptingIndices, getElem?_statusesAfter]

/-- The loop stops at an empty match only where there is no other. -/
theorem stuck_of_longest (stopped : ¬(0 < found.length ∧ text ≠ [])) :
    Stuck patterns text := by
  intro word front nonempty belongs
  apply stopped
  have some := List.length_pos_iff.mpr nonempty
  refine ⟨Nat.lt_of_lt_of_le some (length_le_of_longest hit front belongs), ?_⟩
  rintro rfl
  exact nonempty (List.prefix_nil.mp front)

end Longest

theorem stuck_of_longest_eq_none
    (none : (ofPatterns patterns).longest text = none) :
    Stuck patterns text := by
  intro word front _ belongs
  have absent := longest_ofPatterns_eq_none_iff.mp none word.length
    front.length_le
  rw [← List.prefix_iff_eq_take.mp front] at absent
  exact absent belongs

/-- The loop takes longest matches. -/
theorem munchFrom_munches (patterns : List Pattern) (buffer : Bytes)
    (tokens : Array Token) :
    ∃ added : List Token, ∃ rest,
      (ofPatterns patterns).munchFrom buffer tokens = (tokens ++ added, rest) ∧
      Munches patterns buffer added rest := by
  fun_induction munchFrom (ofPatterns patterns) buffer tokens with
  | case1 buffer tokens none =>
      exact ⟨[], buffer, by simp, .stop (stuck_of_longest_eq_none none)⟩
  | case2 buffer tokens found hit progress ih =>
      rcases ih with ⟨added, rest, behind, munches⟩
      have longest := longest_token hit progress
      refine ⟨_ :: added, rest, ?_, .take longest ?_⟩
      · rw [behind, Prod.mk.injEq]
        refine ⟨?_, rfl⟩
        apply Array.ext'
        simp
      · have inside := (longest_ofPatterns_eq_some_iff.mp hit).1.1
        rw [Token.length, List.length_take_of_le inside]
        exact munches
  | case3 buffer tokens found hit stopped =>
      exact ⟨[], buffer, by simp, .stop (stuck_of_longest hit stopped)⟩

end PatternSet

/-- What taking longest matches can give is what the tokenizer gives. -/
theorem Munches.tokenize (munches : Munches patterns buffer tokens rest)
    (before : Array Token) :
    (Tokenizer.munch (.ofPatterns patterns)).tokenize buffer before =
      ⟨.munch (.ofPatterns patterns), before ++ tokens, .ok rest⟩ := by
  rcases PatternSet.munchFrom_munches patterns buffer before with
    ⟨added, left, result, again⟩
  cases again.unique munches with
  | intro same left =>
      rw [Tokenizer.tokenize, result, same, left]

/-- A set of patterns reads every buffer. Its tokens stand behind those that were
there, and they and the remainder spell the buffer. Each token is the longest
match where those before it end, and no word of the patterns with at least one
byte is in front of the remainder. -/
theorem Tokenizer.tokenize_takes_longest (patterns : List Pattern)
    (buffer : Bytes) (tokens : Array Token) :
    let tokenizer := Tokenizer.munch (.ofPatterns patterns)
    ∃ added : List Token, ∃ rest,
      tokenizer.tokenize buffer tokens =
        ⟨tokenizer, tokens ++ added, .ok rest⟩ ∧
      buffer = added.flatMap (·.text) ++ rest ∧
      (∀ (place : Nat) (token : Token), added[place]? = some token →
        token.Longest patterns
          (buffer.drop ((added.take place).flatMap (·.text)).length)) ∧
      Stuck patterns rest := by
  rcases PatternSet.munchFrom_munches patterns buffer tokens with
    ⟨added, rest, _, munches⟩
  refine ⟨added, rest, munches.tokenize tokens, munches.spells.symm, ?_,
    munches.stuck⟩
  intro place token found
  exact munches.longest_of_getElem? found

end Munch
