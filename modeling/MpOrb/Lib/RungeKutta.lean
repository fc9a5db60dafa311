import Mathlib.Algebra.Field.Defs
import Mathlib.Algebra.Module.LinearMap.Defs

/-!
# The classical Runge–Kutta method

* `step f h z` — one step of length `h` from `z` along the field `f`.
* `step_of_zero` — a zero of the field stays where it is.
* `step_map` — a linear map that takes one field to another takes the steps to each other.
-/

set_option autoImplicit false

namespace RungeKutta

variable {K V V' : Type*} [Field K] [AddCommGroup V] [Module K V] [AddCommGroup V'] [Module K V']

/-- One step of the classical method of order four. -/
def step (f : V → V) (h : K) (z : V) : V :=
  let k₁ := f z
  let k₂ := f (z + (h / (2 : ℕ)) • k₁)
  let k₃ := f (z + (h / (2 : ℕ)) • k₂)
  let k₄ := f (z + h • k₃)
  z + (h / (6 : ℕ)) • (k₁ + 2 • k₂ + 2 • k₃ + k₄)

/-- **A zero of the field is a fixed point of the method.** -/
theorem step_of_zero {f : V → V} {z : V} (hz : f z = 0) (h : K) : step f h z = z := by
  simp only [step, hz, smul_zero, add_zero]

/-- **The method commutes with a linear map that relates the fields.** -/
theorem step_map {f : V → V} {f' : V' → V'} (L : V →ₗ[K] V') (hL : ∀ z, L (f z) = f' (L z)) (h : K)
    (z : V) : L (step f h z) = step f' h (L z) := by
  simp only [step, map_add, map_smul, map_nsmul, hL]

end RungeKutta
