import Mathlib.Algebra.Order.Ring.Int
import Mathlib.Tactic.Linarith
import Mathlib.Tactic.Ring

/-!
# Amounts rounded at a price

An amount `x` at a price of `n` for `d` is `x * n / d`, rounded down (`down`) or up (`up`). Each is characterised by a
comparison of products. What is rounded down and then up again at the inverse price is no more than before, and the rest is
worth less than a unit.
-/

namespace Rounding

variable {x y n d : ℤ}

/-- An amount at a price, rounded down. -/
def down (x n d : ℤ) : ℤ := x * n / d

/-- An amount at a price, rounded up. -/
def up (x n d : ℤ) : ℤ := (x * n + d - 1) / d

theorem le_down_iff (hd : 0 < d) : y ≤ down x n d ↔ y * d ≤ x * n := Int.le_ediv_iff_mul_le hd

theorem down_lt_iff (hd : 0 < d) : down x n d < y ↔ x * n < y * d := Int.ediv_lt_iff_lt_mul hd

theorem down_mul_le (hd : 0 < d) : down x n d * d ≤ x * n := (le_down_iff hd).mp le_rfl

theorem lt_down_mul (hd : 0 < d) : x * n < down x n d * d + d := by
  have hlt := (down_lt_iff hd).mp (show down x n d < down x n d + 1 by omega)
  rwa [add_mul, one_mul] at hlt

theorem up_le_iff (hd : 0 < d) : up x n d ≤ y ↔ x * n ≤ y * d := by
  rw [up, ← Int.lt_add_one_iff, Int.ediv_lt_iff_lt_mul hd, add_mul, one_mul]
  omega

theorem lt_up_iff (hd : 0 < d) : y < up x n d ↔ y * d < x * n := by
  rw [← not_le, up_le_iff hd, not_le]

theorem le_up_mul (hd : 0 < d) : x * n ≤ up x n d * d := (up_le_iff hd).mp le_rfl

theorem up_mul_lt (hd : 0 < d) : up x n d * d < x * n + d := by
  have hlt := (lt_up_iff hd).mp (show up x n d - 1 < up x n d by omega)
  rw [sub_mul, one_mul] at hlt
  omega

theorem down_le_up (hd : 0 < d) : down x n d ≤ up x n d :=
  le_of_mul_le_mul_right ((down_mul_le hd).trans (le_up_mul hd)) hd

theorem down_nonneg (hx : 0 ≤ x) (hn : 0 ≤ n) (hd : 0 < d) : 0 ≤ down x n d :=
  (le_down_iff hd).mpr (by rw [zero_mul]; exact mul_nonneg hx hn)

theorem up_pos (hx : 0 < x) (hn : 0 < n) (hd : 0 < d) : 0 < up x n d :=
  (lt_up_iff hd).mpr (by rw [zero_mul]; exact mul_pos hx hn)

theorem down_mono (hn : 0 ≤ n) (hd : 0 < d) (h : x ≤ y) : down x n d ≤ down y n d :=
  (le_down_iff hd).mpr ((down_mul_le hd).trans (mul_le_mul_of_nonneg_right h hn))

theorem up_mono (hn : 0 ≤ n) (hd : 0 < d) (h : x ≤ y) : up x n d ≤ up y n d :=
  (up_le_iff hd).mpr ((mul_le_mul_of_nonneg_right h hn).trans (le_up_mul hd))

/-- **Rounding up is adjoint to rounding down at the inverse price.** -/
theorem up_le_iff_le_down (hn : 0 < n) (hd : 0 < d) : up x n d ≤ y ↔ x ≤ down y d n :=
  (up_le_iff hd).trans (le_down_iff hn).symm

/-- **A round trip costs nothing.** -/
theorem up_down_le (hn : 0 < n) (hd : 0 < d) : up (down x n d) d n ≤ x := (up_le_iff hn).mpr (down_mul_le hd)

/-- **The rest of a round trip is worth less than a unit.** -/
theorem rest_lt (hn : 0 < n) (hd : 0 < d) : (x - up (down x n d) d n) * n < d := by
  have hlow : down x n d * d ≤ up (down x n d) d n * n := le_up_mul hn
  have hhigh := @lt_down_mul x n d hd
  rw [sub_mul]
  omega

end Rounding
