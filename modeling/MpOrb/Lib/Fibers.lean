import Mathlib.Algebra.BigOperators.Group.Finset.Piecewise
import Mathlib.Algebra.BigOperators.Group.List.Basic
import Mathlib.Algebra.Group.Hom.Defs

/-!
# Sums over the fibers of a key

Every element of a list has a key and an amount.

* `fiber` — the total amount under one key.
* `sum_eq_sum_fiber` — a sum whose terms depend on the key, and additively on the amount, is a sum
  over the keys.
* `sum_congr_fiber` — so two lists with the same amount under every key have the same sum, however
  the amounts are split and in whatever order they come.
-/

set_option autoImplicit false

namespace Fibers

variable {α κ M N : Type*} [DecidableEq κ] [AddCommMonoid M] [AddCommMonoid N]
  {key : α → κ} {amount : α → M} {l l' : List α}

/-- The total amount under one key. -/
def fiber (key : α → κ) (amount : α → M) (l : List α) (k : κ) : M :=
  ((l.filter fun a => key a = k).map amount).sum

@[simp] theorem fiber_nil (k : κ) : fiber key amount [] k = 0 := rfl

@[simp] theorem fiber_cons (a : α) (k : κ) :
    fiber key amount (a :: l) k = (if key a = k then amount a else 0) + fiber key amount l k := by
  unfold fiber
  by_cases h : key a = k <;> simp [h]

/-- **A sum by keys.** -/
theorem sum_eq_sum_fiber (φ : κ → M →+ N) {S : Finset κ} (hS : ∀ a ∈ l, key a ∈ S) :
    (l.map fun a => φ (key a) (amount a)).sum = ∑ k ∈ S, φ k (fiber key amount l k) := by
  induction l with
  | nil => simp
  | cons a rest ih =>
    obtain ⟨ha, hrest⟩ := List.forall_mem_cons.1 hS
    have hhead : ∑ k ∈ S, φ k (if key a = k then amount a else 0) = φ (key a) (amount a) := by
      rw [Finset.sum_eq_single_of_mem (key a) ha fun k _ hk => by rw [if_neg hk.symm, map_zero],
        if_pos rfl]
    simp only [List.map_cons, List.sum_cons, fiber_cons, map_add, Finset.sum_add_distrib, hhead,
      ih hrest]

/-- **Equal fibers have equal sums.** -/
theorem sum_congr_fiber (φ : κ → M →+ N)
    (h : ∀ k, fiber key amount l k = fiber key amount l' k) :
    (l.map fun a => φ (key a) (amount a)).sum = (l'.map fun a => φ (key a) (amount a)).sum := by
  have hleft : ∀ a ∈ l, key a ∈ ((l ++ l').map key).toFinset := fun a ha =>
    List.mem_toFinset.2 (List.mem_map_of_mem (List.mem_append_left l' ha))
  have hright : ∀ a ∈ l', key a ∈ ((l ++ l').map key).toFinset := fun a ha =>
    List.mem_toFinset.2 (List.mem_map_of_mem (List.mem_append_right l ha))
  rw [sum_eq_sum_fiber φ hleft, sum_eq_sum_fiber φ hright]
  exact Finset.sum_congr rfl fun k _ => congrArg (φ k) (h k)

end Fibers
