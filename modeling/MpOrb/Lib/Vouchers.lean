import Mathlib.Algebra.BigOperators.Group.Finset.Piecewise
import Mathlib.Algebra.Order.BigOperators.Group.Finset
import Mathlib.Algebra.Order.BigOperators.Group.List
import Mathlib.Data.List.Perm.Subperm

/-!
# Vouchers that are redeemed at most once

Vouchers are issued to holders; every holder redeems vouchers of its own, none of them twice.

* `sum_held` — the issued value is the sum of what the holders hold.
* `sum_le_of_subset` — distinct elements of a list add up to no more than the list.
* `sum_redeemed_le` — so the holders together redeem no more than was issued.
-/

set_option autoImplicit false

namespace Vouchers

variable {ι β K : Type*} [AddCommMonoid K]

theorem sum_held [Fintype ι] [DecidableEq ι] (holder : β → ι) (value : β → K) (issued : List β) :
    ∑ i, ((issued.filter fun v => holder v = i).map value).sum = (issued.map value).sum := by
  induction issued with
  | nil => simp
  | cons v rest ih =>
    have hhead : ∀ i, (((v :: rest).filter fun v => holder v = i).map value).sum =
        (if holder v = i then value v else 0) +
          ((rest.filter fun v => holder v = i).map value).sum := by
      intro i
      by_cases h : holder v = i <;> simp [h]
    simp only [hhead, Finset.sum_add_distrib, ih, List.map_cons, List.sum_cons]
    rw [Finset.sum_ite_eq Finset.univ (holder v) fun _ => value v,
      if_pos (Finset.mem_univ _)]

variable [Preorder K] [AddLeftMono K]

theorem sum_le_of_subset {value : β → K} {l l' : List β} (hnodup : l.Nodup) (hsub : l ⊆ l')
    (hvalue : ∀ v ∈ l', 0 ≤ value v) : (l.map value).sum ≤ (l'.map value).sum := by
  obtain ⟨l₁, hperm, hsublist⟩ := List.subperm_of_subset hnodup hsub
  rw [← (hperm.map value).sum_eq]
  exact (hsublist.map value).sum_le_sum (List.forall_mem_map.2 hvalue)

/-- **Nothing is redeemed that was not issued.** -/
theorem sum_redeemed_le [Fintype ι] [DecidableEq ι] {holder : β → ι} {value : β → K}
    {issued : List β} {redeemed : ι → List β} (hnodup : ∀ i, (redeemed i).Nodup)
    (hissued : ∀ i, ∀ v ∈ redeemed i, v ∈ issued ∧ holder v = i)
    (hvalue : ∀ v ∈ issued, 0 ≤ value v) :
    ∑ i, ((redeemed i).map value).sum ≤ (issued.map value).sum := by
  rw [← sum_held holder]
  refine Finset.sum_le_sum fun i _ => sum_le_of_subset (hnodup i) ?_ ?_
  · intro v hv
    obtain ⟨hmem, hholder⟩ := hissued i v hv
    exact List.mem_filter.2 ⟨hmem, by simpa using hholder⟩
  · intro v hv
    exact hvalue v (List.mem_of_mem_filter hv)

end Vouchers
