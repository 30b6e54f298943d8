import Mathlib.Data.List.Sort
import Munch.Pattern.Prefixes

/-!
# Ascending lists of places

The places that matching by definition finds are kept as strictly ascending
lists. Such a list is nothing but its members, so the unions below need to be
known by their members only, and its last element is its largest member and its
first element the least.
-/

namespace Munch

theorem getLast?_eq_some_iff_largest {list : List Nat}
    (ascending : list.Pairwise (· < ·)) {last : Nat} :
    list.getLast? = some last ↔
      last ∈ list ∧ ∀ other ∈ list, other ≤ last := by
  constructor
  · intro found
    rcases List.getLast?_eq_some_iff.mp found with ⟨front, rfl⟩
    refine ⟨by simp, ?_⟩
    intro other member
    rw [List.pairwise_append] at ascending
    rcases List.mem_append.mp member with inFront | atEnd
    · exact Nat.le_of_lt (ascending.2.2 other inFront last List.mem_cons_self)
    · exact Nat.le_of_eq (List.mem_singleton.mp atEnd)
  · intro largest
    rcases List.append_of_mem largest.1 with ⟨front, behind, rfl⟩
    cases behind with
    | nil => exact List.getLast?_concat
    | cons next behind =>
        rw [List.pairwise_append, List.pairwise_cons] at ascending
        have above := ascending.2.1.1 next List.mem_cons_self
        have below := largest.2 next (by simp)
        omega

theorem head?_eq_some_iff_least {list : List Nat}
    (ascending : list.Pairwise (· < ·)) {first : Nat} :
    list.head? = some first ↔
      first ∈ list ∧ ∀ other ∈ list, first ≤ other := by
  cases list with
  | nil => simp
  | cons head tail =>
      have above := (List.pairwise_cons.mp ascending).1
      rw [List.head?_cons, Option.some.injEq]
      constructor
      · rintro rfl
        refine ⟨List.mem_cons_self, ?_⟩
        rw [List.forall_mem_cons]
        exact ⟨Nat.le_refl head, fun other member => (above other member).le⟩
      · rintro ⟨listed, least⟩
        cases listed with
        | head => rfl
        | tail _ behind =>
            have less := above first behind
            have atMost := least head List.mem_cons_self
            exact absurd less (Nat.not_lt.mpr atMost)

@[simp] theorem mem_unionAscending {place : Nat} (left right : List Nat) :
    place ∈ unionAscending left right ↔ place ∈ left ∨ place ∈ right := by
  fun_induction unionAscending left right with
  | case1 right => simp
  | case2 left => simp
  | case3 left lefts right rights less ih =>
      rw [List.mem_cons, ih]
      simp only [List.mem_cons]
      exact or_assoc.symm
  | case4 left lefts right rights _ less ih =>
      rw [List.mem_cons, ih]
      simp only [List.mem_cons]
      exact or_left_comm
  | case5 left lefts right rights notLess notGreater ih =>
      have equal : left = right :=
        Nat.le_antisymm (Nat.not_lt.mp notGreater) (Nat.not_lt.mp notLess)
      subst equal
      rw [List.mem_cons, ih]
      simp only [List.mem_cons]
      constructor
      · rintro (here | inLeft | inRight)
        · exact .inl (.inl here)
        · exact .inl (.inr inLeft)
        · exact .inr (.inr inRight)
      · rintro ((here | inLeft) | (here | inRight))
        · exact .inl here
        · exact .inr (.inl inLeft)
        · exact .inl here
        · exact .inr (.inr inRight)

theorem pairwise_unionAscending {left right : List Nat}
    (leftAscending : left.Pairwise (· < ·))
    (rightAscending : right.Pairwise (· < ·)) :
    (unionAscending left right).Pairwise (· < ·) := by
  fun_induction unionAscending left right with
  | case1 right => exact rightAscending
  | case2 left => exact leftAscending
  | case3 left lefts right rights less ih =>
      rw [List.pairwise_cons] at leftAscending
      refine List.pairwise_cons.mpr ⟨?_, ih leftAscending.2 rightAscending⟩
      intro place member
      rcases (mem_unionAscending _ _).mp member with inLeft | inRight
      · exact leftAscending.1 place inLeft
      · rcases List.mem_cons.mp inRight with rfl | inRights
        · exact less
        · exact less.trans
            ((List.pairwise_cons.mp rightAscending).1 place inRights)
  | case4 left lefts right rights _ less ih =>
      rw [List.pairwise_cons] at rightAscending
      refine List.pairwise_cons.mpr ⟨?_, ih leftAscending rightAscending.2⟩
      intro place member
      rcases (mem_unionAscending _ _).mp member with inLeft | inRight
      · rcases List.mem_cons.mp inLeft with rfl | inLefts
        · exact less
        · exact less.trans
            ((List.pairwise_cons.mp leftAscending).1 place inLefts)
      · exact rightAscending.1 place inRight
  | case5 left lefts right rights notLess notGreater ih =>
      have equal : left = right :=
        Nat.le_antisymm (Nat.not_lt.mp notGreater) (Nat.not_lt.mp notLess)
      subst equal
      rw [List.pairwise_cons] at leftAscending rightAscending
      refine List.pairwise_cons.mpr ⟨?_, ih leftAscending.2 rightAscending.2⟩
      intro place member
      rcases (mem_unionAscending _ _).mp member with inLeft | inRight
      · exact leftAscending.1 place inLeft
      · exact rightAscending.1 place inRight

@[simp] theorem mem_unionAll {place : Nat} (lists : List (List Nat)) :
    place ∈ unionAll lists ↔ ∃ list ∈ lists, place ∈ list := by
  induction lists with
  | nil => simp [unionAll]
  | cons list lists ih => simp [unionAll, ih]

theorem mem_unionAll_map {α : Type} {place : Nat} {items : List α}
    {list : α → List Nat} :
    place ∈ unionAll (items.map list) ↔ ∃ item ∈ items, place ∈ list item := by
  simp

theorem pairwise_unionAll {lists : List (List Nat)}
    (ascending : ∀ list ∈ lists, list.Pairwise (· < ·)) :
    (unionAll lists).Pairwise (· < ·) := by
  induction lists with
  | nil => exact List.Pairwise.nil
  | cons list lists ih =>
      have rest : ∀ other ∈ lists, other.Pairwise (· < ·) := by
        intro other member
        exact ascending other (List.mem_cons_of_mem list member)
      exact pairwise_unionAscending
        (ascending list List.mem_cons_self) (ih rest)

end Munch
