import Mathlib.Algebra.BigOperators.Field
import Mathlib.Algebra.Order.BigOperators.Group.Finset
import Mathlib.Data.Rat.BigOperators
import Mathlib.Topology.Order.IntermediateValue
import Mathlib.Topology.Instances.Real.Lemmas
import Mathlib.Tactic.Linarith

/-!
# Sums of poles

The sum of `w i / (T - p i)` over finitely many poles, to the right of all of them.

* `value w p T` — the sum; `value_cast` — in another field.
* `value_strictAnti` — it falls; `root_unique` — so it takes a value once.
* `term_le_value`, `value_le_of_far` — near a pole it is large, far from all poles it is small.
* `exists_root` — over the reals it takes every value between those at two points.
* `sum_mul_div` — the terms scaled by `T`.
-/

set_option autoImplicit false

namespace PoleSum

variable {ι K : Type*} [Fintype ι] [Field K]

def value (w p : ι → K) (T : K) : K := ∑ i, w i / (T - p i)

theorem value_cast [CharZero K] (w p : ι → ℚ) (T : ℚ) :
    ((value w p T : ℚ) : K) = value (fun i => (w i : K)) (fun i => (p i : K)) T := by
  unfold value
  rw [Rat.cast_sum]
  apply Finset.sum_congr rfl
  intro i _
  rw [Rat.cast_div, Rat.cast_sub]

theorem sum_mul_div (w p : ι → K) (T : K) :
    ∑ i, w i * T / (T - p i) = T * value w p T := by
  unfold value
  rw [Finset.mul_sum]
  apply Finset.sum_congr rfl
  intro i _
  rw [mul_comm (w i) T, mul_div_assoc]

section Order

variable [LinearOrder K] [IsStrictOrderedRing K] {w p : ι → K} {S T : K}

theorem value_strictAnti [Nonempty ι] (hw : ∀ i, 0 < w i) (hS : ∀ i, p i < S) (hST : S < T) :
    value w p T < value w p S := by
  apply Finset.sum_lt_sum_of_nonempty Finset.univ_nonempty
  intro i _
  have hpos : 0 < S - p i := sub_pos.2 (hS i)
  exact div_lt_div_of_pos_left (hw i) hpos (sub_lt_sub_right hST (p i))

/-- **A value is taken once.** -/
theorem root_unique [Nonempty ι] (hw : ∀ i, 0 < w i) (hS : ∀ i, p i < S) (hT : ∀ i, p i < T)
    (h : value w p S = value w p T) : S = T := by
  rcases lt_trichotomy S T with hlt | heq | hgt
  · exact absurd h (value_strictAnti hw hS hlt).ne'
  · exact heq
  · exact absurd h (value_strictAnti hw hT hgt).ne

theorem term_le_value (hw : ∀ i, 0 ≤ w i) (hT : ∀ i, p i < T) (i : ι) :
    w i / (T - p i) ≤ value w p T := by
  apply Finset.single_le_sum (f := fun i => w i / (T - p i)) _ (Finset.mem_univ i)
  intro j _
  exact div_nonneg (hw j) (sub_pos.2 (hT j)).le

theorem value_le_of_far {d : K} (hw : ∀ i, 0 ≤ w i) (hd : 0 < d) (hT : ∀ i, d ≤ T - p i) :
    value w p T ≤ (∑ i, w i) / d := by
  unfold value
  rw [Finset.sum_div]
  apply Finset.sum_le_sum
  intro i _
  exact div_le_div_of_nonneg_left (hw i) hd (hT i)

end Order

/-- **Over the reals every value between those at two points is taken between them.** -/
theorem exists_root {w p : ι → ℝ} {low high level : ℝ} (hpoles : ∀ i, p i < low)
    (hle : low ≤ high) (hlow : level ≤ value w p low) (hhigh : value w p high ≤ level) :
    ∃ T, low ≤ T ∧ T ≤ high ∧ value w p T = level := by
  have hcont : ContinuousOn (value w p) (Set.Icc low high) := by
    apply continuousOn_finsetSum
    intro i _
    apply ContinuousOn.div continuousOn_const (continuousOn_id.sub continuousOn_const)
    intro T hT
    exact (sub_pos.2 ((hpoles i).trans_le hT.1)).ne'
  obtain ⟨T, hT, hroot⟩ := intermediate_value_Icc' hle hcont ⟨hhigh, hlow⟩
  exact ⟨T, hT.1, hT.2, hroot⟩

end PoleSum
