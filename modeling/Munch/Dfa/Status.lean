/-!
# Verdicts on a word

What is known about a word once it has been read: whether it is accepted, and if
not, whether reading on may still lead to acceptance.
-/

namespace Munch

/-- The verdict of an automaton state. -/
inductive Status where
  /-- Not accepted; a longer word may be. -/
  | pass
  /-- Accepted. -/
  | accept
  /-- Not accepted, and no longer word is. -/
  | reject
  deriving DecidableEq, Repr, Inhabited

namespace Status

variable {one other : Status}

/-- Verdicts that accept alike and reject alike are equal. -/
theorem eq_of_iff (accepts : one = .accept ↔ other = .accept)
    (rejects : one = .reject ↔ other = .reject) : one = other := by
  cases one <;> cases other <;> simp_all

theorem eq_pass_iff : one = .pass ↔ one ≠ .accept ∧ one ≠ .reject := by
  cases one <;> decide

end Status

end Munch
