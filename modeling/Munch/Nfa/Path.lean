import Munch.Nfa.Walk

/-!
# Paths

A path leads from a state to a state and spells a word: steps read one byte each,
free moves read nothing and may come anywhere. What a walk keeps is meant to be
where paths lead; the definition of a path knows nothing of sets.
-/

namespace Munch

namespace Nfa

/-- Whether a path that spells `word` leads from one state to another. -/
inductive Path (nfa : Nfa) : (source : Nat) → (word : Bytes) → (target : Nat) → Prop
  | here {state : Nat} : Path nfa state [] state
  | free {source middle target : Nat} {word : Bytes} (move : middle ∈ nfa.epsilons source)
      (rest : Path nfa middle word target) : Path nfa source word target
  | read {source middle target : Nat} {byte : UInt8} {word : Bytes}
      (step : nfa.target? source byte = some middle) (rest : Path nfa middle word target) :
      Path nfa source (byte :: word) target

/-- Whether a path that spells `word` leads from one of the given states to
another. -/
def PathFrom (nfa : Nfa) (sources : List Nat) (word : Bytes) (target : Nat) : Prop :=
  ∃ source ∈ sources, nfa.Path source word target

namespace Path

variable {nfa : Nfa}

/-- Paths can be put behind each other, and so can the words they spell. -/
theorem append {source middle target : Nat} {left right : Bytes}
    (first : nfa.Path source left middle) (second : nfa.Path middle right target) :
    nfa.Path source (left ++ right) target := by
  induction first with
  | here => exact second
  | free move _ ih => exact .free move (ih second)
  | read step _ ih => exact .read step (ih second)

/-- A path whose word has two parts passes a state in between. -/
theorem split {source target : Nat} {left right : Bytes}
    (path : nfa.Path source (left ++ right) target) :
    ∃ middle, nfa.Path source left middle ∧ nfa.Path middle right target := by
  generalize equal : left ++ right = word at path
  induction path generalizing left with
  | @here state =>
    rcases List.append_eq_nil_iff.mp equal with ⟨rfl, rfl⟩
    exact ⟨state, .here, .here⟩
  | free move _ ih =>
    rcases ih equal with ⟨middle, first, second⟩
    exact ⟨middle, .free move first, second⟩
  | @read source next target byte word step rest ih =>
    cases left with
    | nil =>
      rw [List.nil_append] at equal
      subst equal
      exact ⟨source, .here, .read step rest⟩
    | cons head left =>
      rw [List.cons_append, List.cons.injEq] at equal
      rcases equal with ⟨rfl, equal⟩
      rcases ih equal with ⟨middle, first, second⟩
      exact ⟨middle, .read step first, second⟩

end Path

end Nfa

end Munch
