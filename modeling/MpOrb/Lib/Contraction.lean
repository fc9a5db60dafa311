import Mathlib.Algebra.Order.Field.Basic
import Mathlib.Tactic.FieldSimp
import Mathlib.Tactic.Linarith
import Mathlib.Tactic.Ring

/-!
# Perturbed contractions

A quantity that a step shrinks to a part `ρ` of itself and that moves by at most `δ` besides.

* `bound` — what is left of it after some steps; `bound_succ`.
* `run_le` — a run of such steps stays below the bound.
-/

set_option autoImplicit false

namespace Contraction

variable {K : Type*} [Field K]

/-- What is left of the start after `n` rounds, with the drift of all rounds. -/
def bound (ρ δ start : K) (n : ℕ) : K := ρ ^ n * start + δ / (1 - ρ)

theorem bound_succ {ρ : K} (hρ : 1 - ρ ≠ 0) (δ start : K) (n : ℕ) :
    bound ρ δ start (n + 1) = ρ * bound ρ δ start n + δ := by
  unfold bound
  field_simp
  ring

variable [LinearOrder K] [IsStrictOrderedRing K]

/-- **What every step shrinks, a run shrinks geometrically.** -/
theorem run_le {ρ δ : K} (hρ : 0 ≤ ρ) (hlt : ρ < 1) (hδ : 0 ≤ δ) {a : ℕ → K} {n : ℕ}
    (hstep : ∀ k < n, a (k + 1) ≤ ρ * a k + δ) : a n ≤ bound ρ δ (a 0) n := by
  induction n with
  | zero =>
    have hrest : 0 ≤ δ / (1 - ρ) := div_nonneg hδ (sub_nonneg.2 hlt.le)
    unfold bound
    rw [pow_zero, one_mul]
    exact le_add_of_nonneg_right hrest
  | succ n ih =>
    have hn : a n ≤ bound ρ δ (a 0) n := ih fun k hk => hstep k (Nat.lt_succ_of_lt hk)
    calc a (n + 1) ≤ ρ * a n + δ := hstep n (Nat.lt_succ_self n)
      _ ≤ ρ * bound ρ δ (a 0) n + δ := add_le_add_left (mul_le_mul_of_nonneg_left hn hρ) δ
      _ = bound ρ δ (a 0) (n + 1) := (bound_succ (sub_pos.2 hlt).ne' δ (a 0) n).symm

end Contraction
