import Munch.Proofs.Tokenizer.Longest

/-!
# Reading again from a token on

A buffer can be cut between two tokens of a set of patterns: what is in front is
read as the tokens in front, what is behind as the tokens behind. The front part
loses bytes that the loop had looked at before it took the last token, but a
match that was the longest with them is the longest without them. And a
remainder that is read again stays as it is.
-/

namespace Munch

variable {patterns : List Pattern} {buffer rest : Bytes} {tokens : List Token}

/-- Tokens in front of a buffer and tokens behind them are those of two parts of
the buffer. -/
theorem Munches.exists_cut (munches : Munches patterns buffer tokens rest)
    (count : Nat) :
    ∃ back, buffer = (tokens.take count).flatMap (·.text) ++ back ∧
      Munches patterns ((tokens.take count).flatMap (·.text))
        (tokens.take count) [] ∧
      Munches patterns back (tokens.drop count) rest := by
  induction munches generalizing count with
  | @stop rest stuck =>
      rw [List.take_nil, List.drop_nil]
      exact ⟨rest, rfl, .stop (stuck_nil patterns), .stop stuck⟩
  | @take buffer rest token tokens longest more ih =>
      cases count with
      | zero => exact ⟨buffer, rfl, .stop (stuck_nil patterns), .take longest more⟩
      | succ count =>
          rcases ih count with ⟨back, cut, front, behind⟩
          have whole : buffer =
              (token.text ++ (tokens.take count).flatMap (·.text)) ++ back := by
            rw [List.append_assoc, ← cut]
            exact (List.prefix_iff_eq_append.mp longest.begins).symm
          refine ⟨back, whole, ?_, behind⟩
          have within : token.text ++ (tokens.take count).flatMap (·.text) <+:
              buffer := by
            rw [whole]
            exact List.prefix_append _ back
          apply Munches.take (longest.of_prefix within (List.prefix_append _ _))
          rw [Token.length, List.drop_left]
          exact front

/-- A buffer is read as tokens and a remainder, and however many of the tokens
are taken, they are what is read from their own bytes, with nothing left, and
the other tokens are what is read from the bytes behind, with the same
remainder. From the remainder no token is read. -/
theorem Tokenizer.tokenize_restarts (patterns : List Pattern)
    (buffer : Bytes) :
    let tokenizer := Tokenizer.munch (.ofPatterns patterns)
    ∃ added : List Token, ∃ rest,
      (∀ tokens, tokenizer.tokenize buffer tokens =
        ⟨tokenizer, tokens ++ added, .ok rest⟩) ∧
      (∀ count, ∃ front back, buffer = front ++ back ∧
        front = (added.take count).flatMap (·.text) ∧
        ∀ tokens,
          tokenizer.tokenize front tokens =
            ⟨tokenizer, tokens ++ added.take count, .ok []⟩ ∧
          tokenizer.tokenize back tokens =
            ⟨tokenizer, tokens ++ added.drop count, .ok rest⟩) ∧
      ∀ tokens, tokenizer.tokenize rest tokens =
        ⟨tokenizer, tokens, .ok rest⟩ := by
  intro tokenizer
  rcases PatternSet.munchFrom_munches patterns buffer #[] with
    ⟨added, rest, _, munches⟩
  refine ⟨added, rest, munches.tokenize, ?_, ?_⟩
  · intro count
    rcases munches.exists_cut count with ⟨back, cut, front, behind⟩
    exact ⟨_, back, cut, rfl,
      fun tokens => ⟨front.tokenize tokens, behind.tokenize tokens⟩⟩
  · intro tokens
    have again : Munches patterns rest [] rest := .stop munches.stuck
    have read := again.tokenize tokens
    rwa [Array.appendList_nil] at read

end Munch
