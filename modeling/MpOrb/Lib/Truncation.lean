import Mathlib.Algebra.Order.Floor.Ring
import Mathlib.Tactic.Linarith

/-!
# Truncation toward zero

* `truncate` — the integer part of a number, rounded toward zero.
* `remainder` — what truncation leaves; `truncate_add_remainder` splits a number into both.
* `abs_remainder_lt_one`, `remainder_nonneg`, `remainder_nonpos` — it is smaller than one and has
  the sign of the number.
-/

set_option autoImplicit false

namespace Truncation

variable {K : Type*} [Field K] [LinearOrder K] [FloorRing K]

/-- Rounding towards zero. -/
def truncate (x : K) : ℤ := if 0 ≤ x then ⌊x⌋ else ⌈x⌉

/-- What truncation cuts off. -/
def remainder (x : K) : K := x - truncate x

theorem truncate_add_remainder (x : K) : (truncate x : K) + remainder x = x :=
  add_sub_cancel _ _

theorem truncate_of_nonneg {x : K} (hx : 0 ≤ x) : truncate x = ⌊x⌋ := if_pos hx

variable [IsStrictOrderedRing K] {x : K}

@[simp] theorem truncate_intCast (n : ℤ) : truncate (n : K) = n := by
  unfold truncate
  split <;> simp

@[simp] theorem truncate_zero : truncate (0 : K) = 0 := by
  simp [truncate]

theorem remainder_nonneg (hx : 0 ≤ x) : 0 ≤ remainder x := by
  unfold remainder
  rw [truncate_of_nonneg hx]
  exact sub_nonneg.2 (Int.floor_le x)

theorem remainder_nonpos (hx : x ≤ 0) : remainder x ≤ 0 := by
  rcases hx.eq_or_lt with rfl | hneg
  · simp [remainder]
  · unfold remainder truncate
    rw [if_neg (not_le.2 hneg)]
    exact sub_nonpos.2 (Int.le_ceil x)

theorem abs_remainder_lt_one (x : K) : |remainder x| < 1 := by
  rw [abs_lt]
  unfold remainder truncate
  split
  · have hlow := Int.floor_le x
    have hhigh := Int.lt_floor_add_one x
    constructor <;> linarith
  · have hlow := Int.le_ceil x
    have hhigh := Int.ceil_lt_add_one x
    constructor <;> linarith

end Truncation
