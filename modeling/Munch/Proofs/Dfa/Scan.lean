import Mathlib.Data.List.Sort
import Munch.Dfa.Scan

/-!
# Scans find the longest and the shortest accepted prefix

`acceptedLengths` lists the lengths of all accepted prefixes of a text without
any regard to how they are found. Where nothing is accepted behind a rejecting
state, the scan that stops there still finds the last of these lengths, or the
first.
-/

namespace Munch

/-- The lengths of the prefixes of a text that pass a test, ascending. -/
def acceptedLengths (accepts : Bytes → Bool) (text : Bytes) : List Nat :=
  (List.range (text.length + 1)).filter fun length => accepts (text.take length)

section AcceptedLengths

variable {accepts : Bytes → Bool} {text : Bytes} {length : Nat}

@[simp] theorem mem_acceptedLengths :
    length ∈ acceptedLengths accepts text ↔
      length ≤ text.length ∧ accepts (text.take length) = true := by
  rw [acceptedLengths, List.mem_filter, List.mem_range, Nat.lt_succ_iff]

theorem acceptedLengths_ascending (accepts : Bytes → Bool) (text : Bytes) :
    (acceptedLengths accepts text).Pairwise (· < ·) :=
  List.pairwise_lt_range.filter _

theorem acceptedLengths_nil (accepts : Bytes → Bool) :
    acceptedLengths accepts [] = if accepts [] then [0] else [] := by
  rw [acceptedLengths]
  cases accepted : accepts [] <;> simp [accepted]

theorem acceptedLengths_cons (accepts : Bytes → Bool) (byte : UInt8)
    (text : Bytes) :
    acceptedLengths accepts (byte :: text) =
      (if accepts [] then [0] else []) ++
        (acceptedLengths (fun word => accepts (byte :: word)) text).map
          (· + 1) := by
  rw [acceptedLengths, List.length_cons, List.range_succ_eq_map,
    List.filter_cons, acceptedLengths, List.filter_map, List.take_zero]
  cases accepted : accepts [] <;> simp [Function.comp_def]

end AcceptedLengths

namespace Dfa

variable {σ : Type} {dfa : Dfa σ} {status : σ → Status}

/-- Whether a word leads from a state to an accepting one. -/
def acceptsFrom (dfa : Dfa σ) (status : σ → Status) (state : Nat)
    (word : Bytes) : Bool :=
  dfa.verdict status (dfa.run state word) == .accept

/-- Where a word that comes from a state is rejected, none that begins with it
is accepted. -/
def RejectsFinally (dfa : Dfa σ) (status : σ → Status) (state : Nat) : Prop :=
  ∀ word more, dfa.verdict status (dfa.run state word) = .reject →
    dfa.verdict status (dfa.run state (word ++ more)) ≠ .accept

@[simp] theorem run_nil (state : Nat) : dfa.run state [] = state := rfl

@[simp] theorem run_cons (state : Nat) (byte : UInt8) (word : Bytes) :
    dfa.run state (byte :: word) = dfa.run (dfa.next state byte) word := rfl

theorem run_append (state : Nat) (left right : Bytes) :
    dfa.run state (left ++ right) = dfa.run (dfa.run state left) right :=
  List.foldl_append

theorem RejectsFinally.next {state : Nat}
    (final : dfa.RejectsFinally status state)
    (byte : UInt8) : dfa.RejectsFinally status (dfa.next state byte) :=
  fun word more => final (byte :: word) more

theorem acceptedLengths_eq_nil_of_reject {state : Nat}
    (final : dfa.RejectsFinally status state)
    (rejected : dfa.verdict status state = .reject) (text : Bytes) :
    acceptedLengths (dfa.acceptsFrom status state) text = [] := by
  apply List.eq_nil_iff_forall_not_mem.mpr
  intro length member
  have accepted := (mem_acceptedLengths.mp member).2
  rw [acceptsFrom, beq_iff_eq] at accepted
  exact final [] (text.take length) rejected accepted

theorem longestFrom_eq {state : Nat} (final : dfa.RejectsFinally status state)
    (length : Nat) (best : Option Hit) (text : Bytes) :
    dfa.longestFrom status state length best text =
      (((acceptedLengths (dfa.acceptsFrom status state) text).getLast?.map
        fun more =>
        ⟨length + more, dfa.run state (text.take more)⟩) :
        Option Hit).or best := by
  induction text generalizing state length best with
  | nil =>
      rw [longestFrom]
      split
      next rejected => rw [acceptedLengths_eq_nil_of_reject final rejected]; rfl
      next notRejected =>
          rw [acceptedLengths_nil, acceptsFrom, run_nil]
          by_cases accepted : dfa.verdict status state = .accept
          · simp [accepted]
          · simp [accepted]
  | cons byte text ih =>
      rw [longestFrom]
      split
      next rejected => rw [acceptedLengths_eq_nil_of_reject final rejected]; rfl
      next notRejected =>
          have tail :
              (fun word => dfa.acceptsFrom status state (byte :: word)) =
              dfa.acceptsFrom status (dfa.next state byte) := rfl
          dsimp only
          rw [ih (final.next byte), acceptedLengths_cons, tail,
            List.getLast?_append, List.getLast?_map]
          cases (acceptedLengths (dfa.acceptsFrom status (dfa.next state byte))
            text).getLast? with
          | some more => simp [Nat.add_assoc, Nat.add_comm 1 more]
          | none =>
              rw [acceptsFrom, run_nil]
              by_cases accepted : dfa.verdict status state = .accept
              · simp [accepted]
              · simp [accepted]

/-- A scan finds the longest accepted prefix, together with the state after
it. -/
theorem longest_eq (final : dfa.RejectsFinally status initial) (text : Bytes) :
    dfa.longest status text =
      (acceptedLengths (dfa.acceptsFrom status initial) text).getLast?.map
        fun length =>
        ⟨length, dfa.run initial (text.take length)⟩ := by
  rw [longest, longestFrom_eq final, Option.or_none]
  simp only [Nat.zero_add]

theorem shortestFrom_eq {state : Nat} (final : dfa.RejectsFinally status state)
    (length : Nat) (text : Bytes) :
    dfa.shortestFrom status state length text =
      (acceptedLengths (dfa.acceptsFrom status state) text).head?.map (length + ·) := by
  induction text generalizing state length with
  | nil =>
      rw [shortestFrom, acceptedLengths_nil, acceptsFrom, run_nil]
      cases verdict : dfa.verdict status state <;> rfl
  | cons byte text ih =>
      rw [shortestFrom]
      split
      next accepted => rw [acceptedLengths_cons, acceptsFrom, run_nil, accepted]; rfl
      next rejected => rw [acceptedLengths_eq_nil_of_reject final rejected]; rfl
      next passed =>
          have tail : (fun word => dfa.acceptsFrom status state (byte :: word)) =
              dfa.acceptsFrom status (dfa.next state byte) := rfl
          rw [ih (final.next byte), acceptedLengths_cons, tail, acceptsFrom,
            run_nil, passed]
          cases (acceptedLengths (dfa.acceptsFrom status
            (dfa.next state byte)) text) with
          | nil => rfl
          | cons more _ => simp [Nat.add_assoc, Nat.add_comm 1 more]

/-- A scan finds the length of the shortest accepted prefix. -/
theorem shortest_eq (final : dfa.RejectsFinally status initial) (text : Bytes) :
    dfa.shortest status text =
      (acceptedLengths (dfa.acceptsFrom status initial) text).head? := by
  rw [shortest, shortestFrom_eq final]
  simp

end Dfa

end Munch
