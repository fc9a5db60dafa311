import Mathlib.Order.BoundedOrder.Basic
import Mathlib.Data.List.Basic
import Mathlib.Tactic.Common
import Mathlib.Order.Lattice

/-!
# The cheapest element below a bound

A left-to-right scan starts from the bound `⊤` and takes every element that is strictly cheaper
than what it has.

* `LeastCost cost l best` — `best` is the result of the scan over `l`: either nothing, and then
  every cost is `⊤`, or a cheapest element with its cost.
* `LeastCost.snoc` — the scan step.
* `LeastCost.eq_none_iff` — the scan finds nothing exactly when nothing costs less than `⊤`.
-/

set_option autoImplicit false

variable {α γ : Type*} [LinearOrder γ] [OrderTop γ]

structure LeastCost (cost : α → γ) (l : List α) (best : Option α × γ) : Prop where
  nothing : best.1 = none → best.2 = ⊤ ∧ ∀ x ∈ l, cost x = ⊤
  cheapest : ∀ b, best.1 = some b → b ∈ l ∧ best.2 = cost b ∧ cost b < ⊤ ∧ ∀ x ∈ l, cost b ≤ cost x

namespace LeastCost

variable {cost : α → γ} {l : List α} {best : Option α × γ}

theorem nil (cost : α → γ) : LeastCost cost [] (none, ⊤) where
  nothing := by simp
  cheapest := by simp

theorem bound_le (h : LeastCost cost l best) : ∀ x ∈ l, best.2 ≤ cost x := by
  intro x hx
  cases hbest : best.1 with
  | none =>
    rw [(h.nothing hbest).2 x hx]
    exact le_top
  | some b =>
    obtain ⟨-, hcost, -, hall⟩ := h.cheapest b hbest
    rw [hcost]
    exact hall x hx

theorem snoc (h : LeastCost cost l best) (x : α) :
    LeastCost cost (l ++ [x]) (if cost x < best.2 then (some x, cost x) else best) := by
  split
  · rename_i hlt
    refine ⟨by simp, ?_⟩
    intro b hb
    cases hb
    refine ⟨by simp, rfl, hlt.trans_le le_top, ?_⟩
    intro y hy
    rcases List.mem_append.1 hy with hy | hy
    · exact hlt.le.trans (h.bound_le y hy)
    · rw [List.mem_singleton.1 hy]
  · rename_i hge
    constructor
    · intro hnone
      obtain ⟨htop, hall⟩ := h.nothing hnone
      refine ⟨htop, ?_⟩
      intro y hy
      rcases List.mem_append.1 hy with hy | hy
      · exact hall y hy
      · rw [List.mem_singleton.1 hy]
        rw [htop] at hge
        exact not_lt_top_iff.1 hge
    · intro b hb
      obtain ⟨hmem, hcost, hlt, hall⟩ := h.cheapest b hb
      refine ⟨List.mem_append_left _ hmem, hcost, hlt, ?_⟩
      intro y hy
      rcases List.mem_append.1 hy with hy | hy
      · exact hall y hy
      · rw [List.mem_singleton.1 hy, ← hcost]
        exact not_lt.1 hge

theorem eq_none_iff (h : LeastCost cost l best) : best.1 = none ↔ ∀ x ∈ l, cost x = ⊤ := by
  constructor
  · intro hnone
    exact (h.nothing hnone).2
  · intro hall
    cases hbest : best.1 with
    | none => rfl
    | some b =>
      obtain ⟨hmem, -, hlt, -⟩ := h.cheapest b hbest
      exact absurd (hall b hmem) hlt.ne

end LeastCost
