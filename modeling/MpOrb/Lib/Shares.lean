import Mathlib.Algebra.BigOperators.Field
import Mathlib.Algebra.Order.BigOperators.Ring.Finset
import Mathlib.Tactic.Linarith

/-!
# Shares of a total

The share of an element is its part of the total of a nonnegative function over a set.

* `share_nonneg`, `share_le_one` — one share.
* `sum_le_one`, `sum_eq_one` — the shares of a part of the set, and of all of it.
* `split_le` — a budget split by weights that add up to at most one stays within its largest value.
-/

set_option autoImplicit false

namespace Shares

variable {ι K : Type*} [Field K] {s t : Finset ι} {f : ι → K}

theorem sum_eq_one (ht : ∑ j ∈ t, f j ≠ 0) : ∑ i ∈ t, f i / ∑ j ∈ t, f j = 1 := by
  rw [← Finset.sum_div, div_self ht]

variable [LinearOrder K] [IsStrictOrderedRing K]

theorem share_nonneg (hf : ∀ i ∈ t, 0 ≤ f i) {i : ι} (hi : i ∈ t) : 0 ≤ f i / ∑ j ∈ t, f j :=
  div_nonneg (hf i hi) (Finset.sum_nonneg hf)

theorem share_le_one (hf : ∀ i ∈ t, 0 ≤ f i) {i : ι} (hi : i ∈ t) : f i / ∑ j ∈ t, f j ≤ 1 :=
  div_le_one_of_le₀ (Finset.single_le_sum hf hi) (Finset.sum_nonneg hf)

theorem sum_le_one (hf : ∀ i ∈ t, 0 ≤ f i) (hst : s ⊆ t) : ∑ i ∈ s, f i / ∑ j ∈ t, f j ≤ 1 := by
  rw [← Finset.sum_div]
  apply div_le_one_of_le₀
  · exact Finset.sum_le_sum_of_subset_of_nonneg hst fun i hi _ => hf i hi
  · exact Finset.sum_nonneg hf

theorem split_le {w : ι → K} {bound : K} (hbound : 0 ≤ bound) (hw : ∀ i ∈ s, 0 ≤ w i)
    (hsum : ∑ i ∈ s, w i ≤ 1) (hf : ∀ i ∈ s, f i ≤ bound) : ∑ i ∈ s, f i * w i ≤ bound := by
  calc ∑ i ∈ s, f i * w i
      ≤ ∑ i ∈ s, bound * w i :=
        Finset.sum_le_sum fun i hi => mul_le_mul_of_nonneg_right (hf i hi) (hw i hi)
    _ = bound * ∑ i ∈ s, w i := (Finset.mul_sum _ _ _).symm
    _ ≤ bound * 1 := mul_le_mul_of_nonneg_left hsum hbound
    _ = bound := mul_one bound

end Shares
