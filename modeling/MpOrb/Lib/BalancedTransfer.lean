import Mathlib.Algebra.Order.Field.Basic
import Mathlib.Algebra.BigOperators.Group.List.Basic
import Mathlib.Tactic.FieldSimp
import Mathlib.Tactic.Ring

/-!
# A pot moved from debtors to creditors

A pot is taken in equal parts from the debtors of a list and given in equal parts to its creditors.
Nobody is both, and nothing is moved without a creditor.

* `amount` — what one member receives; negative for a debtor.
* `sum_amount` — what is given is what is taken.
* `abs_amount_le`, `sum_received_le` — nobody moves more than the pot, and the creditors receive no
  more than it in total.
* `amount_pos_iff`, `amount_neg_iff`, `amount_eq_zero` — who receives and who pays.
-/

set_option autoImplicit false

namespace BalancedTransfer

variable {α K : Type*} [Field K]

/-- Creditors share the pot and debtors pay it, in equal parts; without a creditor nothing moves. -/
def amount (pot : K) (creditor debtor : α → Bool) (l : List α) (x : α) : K :=
  if 0 < l.countP creditor then
    if creditor x then pot / l.countP creditor
    else if debtor x then -(pot / l.countP debtor)
    else 0
  else 0

variable {pot : K} {creditor debtor : α → Bool} {l : List α} {x : α}

theorem amount_eq_zero (h : ¬ 0 < l.countP creditor) :
    amount pot creditor debtor l x = 0 :=
  if_neg h

theorem sum_two_groups (hdisjoint : ∀ x, creditor x = true → debtor x = false) (l : List α)
    (c d : K) :
    (l.map fun x => if creditor x then c else if debtor x then d else 0).sum =
      l.countP creditor * c + l.countP debtor * d := by
  induction l with
  | nil => simp
  | cons x rest ih =>
    rw [List.map_cons, List.sum_cons, ih, List.countP_cons, List.countP_cons]
    cases hc : creditor x with
    | true =>
      rw [hdisjoint x hc]
      push_cast
      simp only [if_true]
      ring
    | false =>
      cases debtor x with
      | true =>
        push_cast
        simp only [if_true]
        ring
      | false => simp

variable [LinearOrder K] [IsStrictOrderedRing K]

/-- **What is given is what is taken.** -/
theorem sum_amount (hdisjoint : ∀ x, creditor x = true → debtor x = false)
    (hdebtor : 0 < l.countP debtor) : (l.map (amount pot creditor debtor l)).sum = 0 := by
  by_cases hcreditor : 0 < l.countP creditor
  · have hc : (l.countP creditor : K) ≠ 0 := Nat.cast_ne_zero.2 hcreditor.ne'
    have hd : (l.countP debtor : K) ≠ 0 := Nat.cast_ne_zero.2 hdebtor.ne'
    have hamount : l.map (amount pot creditor debtor l) = l.map fun x =>
        if creditor x then pot / l.countP creditor
        else if debtor x then -(pot / l.countP debtor) else 0 := by
      apply List.map_congr_left
      intro x _
      exact if_pos hcreditor
    rw [hamount, sum_two_groups hdisjoint]
    field_simp
    ring
  · apply List.sum_eq_zero
    intro c hc
    obtain ⟨x, -, rfl⟩ := List.mem_map.1 hc
    exact amount_eq_zero hcreditor

theorem part_le (hpot : 0 ≤ pot) (n : ℕ) : |pot / (n : K)| ≤ pot := by
  rw [abs_of_nonneg (div_nonneg hpot (Nat.cast_nonneg n))]
  rcases Nat.eq_zero_or_pos n with rfl | hpos
  · simpa using hpot
  · exact div_le_self hpot (Nat.one_le_cast.2 hpos)

/-- **Nobody moves more than the pot.** -/
theorem abs_amount_le (hpot : 0 ≤ pot) : |amount pot creditor debtor l x| ≤ pot := by
  unfold amount
  split
  · split
    · exact part_le hpot _
    · split
      · rw [abs_neg]
        exact part_le hpot _
      · rwa [abs_zero]
  · rwa [abs_zero]

/-- The creditors receive no more than the pot. -/
theorem sum_received_le (hpot : 0 ≤ pot) (l : List α) :
    (l.map fun x => max 0 (amount pot creditor debtor l x)).sum ≤ pot := by
  by_cases hcreditor : 0 < l.countP creditor
  · have hparts : (l.map fun x => max 0 (amount pot creditor debtor l x)) =
        l.map fun x => if creditor x then pot / l.countP creditor
          else if (fun _ => false) x then 0 else 0 := by
      apply List.map_congr_left
      intro x _
      have hcreditors : 0 ≤ pot / (l.countP creditor : K) := div_nonneg hpot (Nat.cast_nonneg _)
      have hdebtors : 0 ≤ pot / (l.countP debtor : K) := div_nonneg hpot (Nat.cast_nonneg _)
      unfold amount
      rw [if_pos hcreditor]
      cases creditor x with
      | true => exact max_eq_right hcreditors
      | false =>
        cases debtor x with
        | true => exact max_eq_left (neg_nonpos.2 hdebtors)
        | false => exact max_self 0
    rw [hparts, sum_two_groups (fun _ _ => rfl), mul_zero, add_zero,
      mul_div_cancel₀ pot (Nat.cast_ne_zero.2 hcreditor.ne')]
  · have hparts : (l.map fun x => max 0 (amount pot creditor debtor l x)) =
        l.map fun _ => (0 : K) := by
      apply List.map_congr_left
      intro x _
      rw [amount_eq_zero hcreditor, max_self]
    simpa [hparts] using hpot

theorem amount_pos_iff (hpot : 0 < pot) (hx : x ∈ l) :
    0 < amount pot creditor debtor l x ↔ creditor x = true := by
  unfold amount
  by_cases hc : creditor x = true
  · have hcreditor : 0 < l.countP creditor := List.countP_pos_iff.2 ⟨x, hx, hc⟩
    rw [if_pos hcreditor, if_pos hc]
    exact iff_of_true (div_pos hpot (Nat.cast_pos.2 hcreditor)) hc
  · refine iff_of_false (not_lt.2 ?_) hc
    split
    · split
      · exact neg_nonpos.2 (div_nonneg hpot.le (Nat.cast_nonneg _))
      · exact le_rfl
    · exact le_rfl

theorem amount_neg_iff (hpot : 0 < pot) (hdisjoint : ∀ x, creditor x = true → debtor x = false)
    (hx : x ∈ l) : amount pot creditor debtor l x < 0 ↔
      debtor x = true ∧ ∃ y ∈ l, creditor y = true := by
  unfold amount
  rw [← List.countP_pos_iff]
  by_cases hcreditor : 0 < l.countP creditor
  · rw [if_pos hcreditor]
    by_cases hc : creditor x = true
    · rw [if_pos hc, hdisjoint x hc]
      refine iff_of_false (not_lt.2 ?_) (by simp)
      exact div_nonneg hpot.le (Nat.cast_nonneg _)
    · rw [if_neg hc]
      by_cases hd : debtor x = true
      · have hdebtor : 0 < l.countP debtor := List.countP_pos_iff.2 ⟨x, hx, hd⟩
        rw [if_pos hd]
        exact iff_of_true (neg_lt_zero.2 (div_pos hpot (Nat.cast_pos.2 hdebtor))) ⟨hd, hcreditor⟩
      · rw [if_neg hd]
        exact iff_of_false (lt_irrefl 0) fun h => hd h.1
  · rw [if_neg hcreditor]
    exact iff_of_false (lt_irrefl 0) fun h => hcreditor h.2

end BalancedTransfer
