import MpOrb.FluidModel
import Mathlib.Analysis.SpecialFunctions.Log.Basic

/-!
# Real arithmetic for the fluid model

The real numbers as an instance of Python's floats, for results that need logarithms or roots.

* `PyFloat ℝ` — the instance, with the lemmas that push it down to the reals; `Case.real` — a case
  over it.
* `NumPy` — what the fluid integration uses besides; the reals are an instance.
-/

set_option autoImplicit false

namespace MpOrb.FluidModel

open Classical in
/-- Exact real arithmetic. -/
noncomputable instance : PyFloat ℝ where
  lit x := x
  lt x y := decide (x < y)
  eq x y := decide (x = y)
  isnan _ := false
  floor x := some ⌊x⌋
  ceil x := some ⌈x⌉
  int x := some (Truncation.truncate x)
  astype x := Truncation.truncate x
  log x b := if 0 < x ∧ 0 < b ∧ b ≠ 1 then some (Real.log x / Real.log b) else none
  pow x k := x ^ k

namespace PyFloat

@[simp] theorem lit_real (x : ℚ) : (lit x : ℝ) = x := rfl

@[simp] theorem ofInt_real (k : ℤ) : (ofInt k : ℝ) = k := by
  show ((k : ℚ) : ℝ) = k
  exact Rat.cast_intCast k

@[simp] theorem lt_real (x y : ℝ) : lt x y = decide (x < y) := by
  show @decide _ _ = _
  congr

theorem le_real (x y : ℝ) : le x y = decide (x ≤ y) := by
  show (@decide _ _ || @decide _ _) = _
  rw [← Bool.decide_or]
  exact decide_eq_decide.2 le_iff_lt_or_eq.symm

theorem sum_real (l : List ℝ) : PyFloat.sum l = l.sum := by
  unfold PyFloat.sum
  rw [lit_real, Rat.cast_zero]
  exact List.sum_eq_foldl.symm

theorem sum_finRange_real {k : ℕ} (f : Fin k → ℝ) :
    PyFloat.sum ((List.finRange k).map f) = ∑ i, f i := by
  rw [sum_real, Fin.sum_univ_def]

end PyFloat

/-- A case over the reals. -/
noncomputable def Case.real {n m : ℕ} (case : Case ℚ n m) : Case ℝ n m where
  capacity j := case.capacity j
  pathLink := case.pathLink
  connection := case.connection
  propagation i := case.propagation i
  initialFraction i := case.initialFraction i
  alpha := case.alpha
  chargedPacketBytes := case.chargedPacketBytes

/-- What `model.py` uses of NumPy besides; `round` is Python's. -/
class NumPy (K : Type) extends PyFloat K, Neg K where
  log1p : K → K
  round : K → Option ℤ

namespace NumPy

open PyFloat

section

variable {K : Type} [NumPy K]

/-- `np.maximum` of two elements; a `nan` wins. -/
def maximum (x y : K) : K := if isnan x || le y x then x else y

/-- `np.minimum` of two elements. -/
def minimum (x y : K) : K := if isnan x || le x y then x else y

end

/-- To the nearest integer, ties to even. -/
noncomputable def roundHalfEven (x : ℝ) : ℤ :=
  if Int.fract x < 1 - Int.fract x ∨ Int.fract x = 1 - Int.fract x ∧ Even ⌊x⌋ then ⌊x⌋
  else ⌊x⌋ + 1

noncomputable instance : NumPy ℝ where
  log1p x := Real.log (1 + x)
  round x := some (roundHalfEven x)

theorem maximum_real (x y : ℝ) : NumPy.maximum x y = Max.max x y := by
  unfold NumPy.maximum
  rw [le_real, max_comm, max_def]
  show (if (false || decide (y ≤ x)) = true then x else y) = _
  simp

theorem minimum_real (x y : ℝ) : NumPy.minimum x y = Min.min x y := by
  unfold NumPy.minimum
  rw [le_real, min_def]
  show (if (false || decide (x ≤ y)) = true then x else y) = _
  simp

end NumPy

end MpOrb.FluidModel
