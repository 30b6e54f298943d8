import Munch.Pool.Size

/-!
# Shares lie side by side

The shares of a buffer cover it from its beginning to its end without gaps and
overlaps, whatever the number of shares is. Some may be empty.
-/

namespace Munch

/-- Whether stretches lie side by side and fill everything between two
places. -/
def Tiles : (start stop : Nat) → List Span → Prop
  | start, stop, [] => start = stop
  | start, stop, span :: spans =>
      span.first = start ∧ start ≤ span.stop ∧ Tiles span.stop stop spans

theorem Tiles.le {spans : List Span} {start stop : Nat}
    (tiles : Tiles start stop spans) :
    start ≤ stop := by
  induction spans generalizing start with
  | nil => exact Nat.le_of_eq tiles
  | cons span spans ih => exact Nat.le_trans tiles.2.1 (ih tiles.2.2)

theorem sharesFrom_tiles {base extra count start : Nat}
    (enough : extra ≤ count) :
    Tiles start (start + (base * count + extra))
      (sharesFrom base extra count start) := by
  fun_induction sharesFrom base extra count start with
  | case1 extra start =>
      have none : extra = 0 := Nat.le_zero.mp enough
      rw [Tiles, none]
      rfl
  | case2 count start ih =>
      have rest := ih (Nat.zero_le _)
      refine ⟨rfl, Nat.le_add_right _ _, ?_⟩
      have stop : start + (base * (count + 1) + 0) =
          start + base + (base * count + 0) := by
        rw [Nat.mul_succ]
        omega
      rw [stop]
      exact rest
  | case3 extra count start ih =>
      have rest := ih (Nat.le_of_succ_le_succ enough)
      refine ⟨rfl, Nat.le_add_right _ _, ?_⟩
      have stop : start + (base * (count + 1) + (extra + 1)) =
          start + (base + 1) + (base * count + extra) := by
        rw [Nat.mul_succ]
        omega
      rw [stop]
      exact rest

/-- The shares of a buffer fill it. -/
theorem shares_tiles {count : Nat} (positive : 0 < count) (length : Nat) :
    Tiles 0 length (shares length count) := by
  have tiles := @sharesFrom_tiles (length / count) (length % count) count 0
    (Nat.le_of_lt (Nat.mod_lt length positive))
  rwa [Nat.zero_add, Nat.mul_comm, Nat.div_add_mod] at tiles

end Munch
