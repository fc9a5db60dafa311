import Mathlib.Algebra.Order.Field.Basic
import Mathlib.Algebra.Order.Group.Unbundled.Abs
import Mathlib.Logic.Function.Iterate
import Mathlib.Tactic.Linarith
import Mathlib.Tactic.Ring

/-!
# Bisection

A bracket is a pair of ends; a test tells the points below a threshold from the others.

* `narrow below b` — the half of the bracket whose ends the test tells apart.
* `Splits below b` — the test holds at the low end and fails at the high end.
* `Splits.iterate` — it stays so; `low_le_iterate`, `iterate_width` — the low end only rises, and
  the width is halved at every step.
* `abs_mid_sub_le` — the middle of a bracket is half a width away from everything inside.
-/

set_option autoImplicit false

namespace Bisection

variable {K : Type*} [Field K]

def mid (b : K × K) : K := (b.1 + b.2) / 2

/-- Keep the half in which the predicate changes. -/
def narrow (below : K → Bool) (b : K × K) : K × K :=
  if below (mid b) then (mid b, b.2) else (b.1, mid b)

theorem iterate_width [CharZero K] (below : K → Bool) (b : K × K) (k : ℕ) :
    ((narrow below)^[k] b).2 - ((narrow below)^[k] b).1 = (b.2 - b.1) / 2 ^ k := by
  induction k with
  | zero => simp
  | succ k ih =>
    have hhalf : ∀ c : K × K, (narrow below c).2 - (narrow below c).1 = (c.2 - c.1) / 2 := by
      intro c
      unfold narrow mid
      split <;> ring
    rw [Function.iterate_succ_apply', hhalf, ih, pow_succ, div_div]

variable [LinearOrder K] [IsStrictOrderedRing K] {below : K → Bool} {b : K × K}

theorem le_mid (h : b.1 ≤ b.2) : b.1 ≤ mid b := by
  unfold mid
  linarith

theorem mid_le (h : b.1 ≤ b.2) : mid b ≤ b.2 := by
  unfold mid
  linarith

theorem abs_mid_sub_le {x : K} (hlow : b.1 ≤ x) (hhigh : x ≤ b.2) :
    |mid b - x| ≤ (b.2 - b.1) / 2 := by
  unfold mid
  rw [abs_le]
  constructor <;> linarith

/-- The threshold is between the ends. -/
structure Splits (below : K → Bool) (b : K × K) : Prop where
  ordered : b.1 ≤ b.2
  low : below b.1 = true
  high : below b.2 = false

theorem Splits.narrow (h : Splits below b) : Splits below (narrow below b) := by
  unfold Bisection.narrow
  split
  · rename_i hmid
    exact ⟨mid_le h.ordered, hmid, h.high⟩
  · rename_i hmid
    exact ⟨le_mid h.ordered, h.low, Bool.not_eq_true _ ▸ hmid⟩

/-- **Every bracket of a bisection splits what the first one splits.** -/
theorem Splits.iterate (h : Splits below b) (k : ℕ) :
    Splits below ((Bisection.narrow below)^[k] b) := by
  induction k with
  | zero => exact h
  | succ k ih =>
    rw [Function.iterate_succ_apply']
    exact ih.narrow

theorem Splits.low_le_iterate (h : Splits below b) (k : ℕ) :
    b.1 ≤ ((Bisection.narrow below)^[k] b).1 := by
  induction k with
  | zero => exact le_rfl
  | succ k ih =>
    rw [Function.iterate_succ_apply']
    refine ih.trans ?_
    unfold Bisection.narrow
    split
    · exact le_mid (h.iterate k).ordered
    · exact le_rfl

end Bisection
