import Mathlib.Algebra.BigOperators.Group.List.Basic
import Mathlib.Algebra.BigOperators.Ring.List
import Mathlib.Algebra.Order.BigOperators.Group.List
import Mathlib.Algebra.Order.Field.Basic
import Mathlib.Tactic.Linarith
import Mathlib.Tactic.Ring

/-!
# Weighted means of a list

Every element `a` of a list has a weight `w a` and a value `x a`.

* `total`, `moment`, `mean` — the sum of the weights, of the weighted values, and their ratio.
* `total_perm`, `moment_perm`, `mean_perm` — they do not depend on the order.
* `le_mean`, `mean_le` — the mean lies between the bounds of the values.
* `eq_zero_of_mean_nonpos` — a mean of nonnegative values is positive unless they all vanish.
* `sum_deviation` — the weighted relative deviations `w a * (1 - x a / mean)` cancel.
* `sum_pos_deviation_le`, `sum_neg_deviation_le` — their positive part is at most the total weight,
  their negative part the moment in units of the mean.
* `deviations_eq_zero_iff` — they all vanish exactly when all values are equal.
-/

set_option autoImplicit false

namespace WeightedMean

variable {α K : Type*} [Field K] {w x : α → K} {l l' : List α}

def total (w : α → K) (l : List α) : K := (l.map w).sum

def moment (w x : α → K) (l : List α) : K := (l.map fun a => w a * x a).sum

/-- The weighted mean, zero without weight. -/
def mean (w x : α → K) (l : List α) : K := moment w x l / total w l

/-- The weighted relative deviation of one element from a given mean. -/
def deviation (w x : α → K) (m : K) (a : α) : K := w a * (1 - x a / m)

@[simp] theorem total_nil : total w [] = 0 := rfl

@[simp] theorem moment_nil : moment w x [] = 0 := rfl

@[simp] theorem total_cons (a : α) : total w (a :: l) = w a + total w l := List.sum_cons

@[simp] theorem moment_cons (a : α) : moment w x (a :: l) = w a * x a + moment w x l :=
  List.sum_cons

theorem total_append : total w (l ++ l') = total w l + total w l' := by
  simp [total]

theorem moment_append : moment w x (l ++ l') = moment w x l + moment w x l' := by
  simp [moment]

theorem total_perm (h : l.Perm l') : total w l = total w l' := (h.map w).sum_eq

theorem moment_perm (h : l.Perm l') : moment w x l = moment w x l' := (h.map _).sum_eq

theorem mean_perm (h : l.Perm l') : mean w x l = mean w x l' := by
  rw [mean, mean, total_perm h, moment_perm h]

theorem total_scale (c : K) : total (fun a => c * w a) l = c * total w l := by
  unfold total
  rw [List.sum_map_mul_left]

theorem moment_scale (c : K) : moment (fun a => c * w a) x l = c * moment w x l := by
  unfold moment
  simp only [mul_assoc]
  rw [List.sum_map_mul_left]

theorem sum_deviation_eq (m : K) :
    (l.map (deviation w x m)).sum = total w l - moment w x l / m := by
  induction l with
  | nil => simp
  | cons a rest ih =>
    simp only [List.map_cons, List.sum_cons, ih, total_cons, moment_cons, deviation]
    ring

/-! ## Bounds -/

variable [LinearOrder K] [IsStrictOrderedRing K]

theorem total_nonneg (hw : ∀ a ∈ l, 0 < w a) : 0 ≤ total w l := by
  refine List.sum_nonneg fun b hb => ?_
  obtain ⟨a, ha, rfl⟩ := List.mem_map.1 hb
  exact (hw a ha).le

theorem total_pos (hl : l ≠ []) (hw : ∀ a ∈ l, 0 < w a) : 0 < total w l := by
  obtain ⟨a, rest, rfl⟩ := List.exists_cons_of_ne_nil hl
  rw [total_cons]
  have ha : 0 < w a := hw a List.mem_cons_self
  have hrest : 0 ≤ total w rest := total_nonneg fun b hb => hw b (List.mem_cons_of_mem a hb)
  linarith

theorem mul_total_le {c : K} (hw : ∀ a ∈ l, 0 < w a) (hc : ∀ a ∈ l, c ≤ x a) :
    c * total w l ≤ moment w x l := by
  induction l with
  | nil => simp
  | cons a rest ih =>
    have ih := ih (fun b hb => hw b (List.mem_cons_of_mem a hb))
      (fun b hb => hc b (List.mem_cons_of_mem a hb))
    have ha : w a * c ≤ w a * x a :=
      mul_le_mul_of_nonneg_left (hc a List.mem_cons_self) (hw a List.mem_cons_self).le
    rw [total_cons, moment_cons]
    linarith

theorem moment_le_mul {c : K} (hw : ∀ a ∈ l, 0 < w a) (hc : ∀ a ∈ l, x a ≤ c) :
    moment w x l ≤ c * total w l := by
  induction l with
  | nil => simp
  | cons a rest ih =>
    have ih := ih (fun b hb => hw b (List.mem_cons_of_mem a hb))
      (fun b hb => hc b (List.mem_cons_of_mem a hb))
    have ha : w a * x a ≤ w a * c :=
      mul_le_mul_of_nonneg_left (hc a List.mem_cons_self) (hw a List.mem_cons_self).le
    rw [total_cons, moment_cons]
    linarith

theorem le_mean {c : K} (hl : l ≠ []) (hw : ∀ a ∈ l, 0 < w a) (hc : ∀ a ∈ l, c ≤ x a) :
    c ≤ mean w x l :=
  (le_div_iff₀ (total_pos hl hw)).2 (mul_total_le hw hc)

theorem mean_le {c : K} (hl : l ≠ []) (hw : ∀ a ∈ l, 0 < w a) (hc : ∀ a ∈ l, x a ≤ c) :
    mean w x l ≤ c :=
  (div_le_iff₀ (total_pos hl hw)).2 (moment_le_mul hw hc)

theorem eq_zero_of_mean_nonpos (hl : l ≠ []) (hw : ∀ a ∈ l, 0 < w a) (hx : ∀ a ∈ l, 0 ≤ x a)
    (hm : mean w x l ≤ 0) : ∀ a ∈ l, x a = 0 := by
  intro a ha
  have hterm : ∀ b ∈ l.map fun a => w a * x a, 0 ≤ b := by
    intro b hb
    obtain ⟨c, hc, rfl⟩ := List.mem_map.1 hb
    exact mul_nonneg (hw c hc).le (hx c hc)
  have hmoment : moment w x l ≤ 0 := by
    have hle := (div_le_iff₀ (total_pos hl hw)).1 hm
    rwa [zero_mul] at hle
  have hsingle : w a * x a ≤ 0 :=
    (List.single_le_sum hterm _ (List.mem_map.2 ⟨a, ha, rfl⟩)).trans hmoment
  exact le_antisymm (nonpos_of_mul_nonpos_right hsingle (hw a ha)) (hx a ha)

/-! ## Deviations -/

/-- **Weighted deviations from the mean cancel.** -/
theorem sum_deviation (hl : l ≠ []) (hw : ∀ a ∈ l, 0 < w a) (hm : mean w x l ≠ 0) :
    (l.map (deviation w x (mean w x l))).sum = 0 := by
  have hpos := total_pos hl hw
  have hmoment : moment w x l = mean w x l * total w l := (div_mul_cancel₀ _ hpos.ne').symm
  rw [sum_deviation_eq, hmoment, mul_div_cancel_left₀ _ hm, sub_self]

theorem deviation_le {m : K} {a : α} (hm : 0 < m) (hw : 0 < w a) (hx : 0 ≤ x a) :
    deviation w x m a ≤ w a := by
  have hdiv : 0 ≤ x a / m := div_nonneg hx hm.le
  calc w a * (1 - x a / m) ≤ w a * 1 := mul_le_mul_of_nonneg_left (by linarith) hw.le
    _ = w a := mul_one _

/-- **The positive deviations are at most the total weight.** -/
theorem sum_pos_deviation_le {m : K} (hm : 0 < m) (hw : ∀ a ∈ l, 0 < w a)
    (hx : ∀ a ∈ l, 0 ≤ x a) : (l.map fun a => max 0 (deviation w x m a)).sum ≤ total w l := by
  refine List.sum_le_sum fun a ha => ?_
  exact max_le (hw a ha).le (deviation_le hm (hw a ha) (hx a ha))

/-- **The negative deviations are at most the moment in units of the mean.** -/
theorem sum_neg_deviation_le {m : K} (hm : 0 < m) (hw : ∀ a ∈ l, 0 < w a)
    (hx : ∀ a ∈ l, 0 ≤ x a) :
    (l.map fun a => max 0 (-deviation w x m a)).sum ≤ moment w x l / m := by
  have hterm : ∀ a ∈ l, max 0 (-deviation w x m a) ≤ w a * x a / m := by
    intro a ha
    have hwa := hw a ha
    have heq : w a * x a / m = w a + -deviation w x m a := by rw [deviation]; ring
    have hnonneg : 0 ≤ w a * x a / m := div_nonneg (mul_nonneg hwa.le (hx a ha)) hm.le
    exact max_le hnonneg (by linarith)
  refine (List.sum_le_sum hterm).trans_eq ?_
  simp only [div_eq_mul_inv]
  rw [List.sum_map_mul_right, moment]

theorem deviation_nonneg_iff {m : K} {a : α} (hm : 0 < m) (hw : 0 < w a) :
    0 ≤ deviation w x m a ↔ x a ≤ m := by
  rw [deviation, mul_nonneg_iff_of_pos_left hw, sub_nonneg, div_le_one hm]

theorem deviation_nonpos_iff {m : K} {a : α} (hm : 0 < m) (hw : 0 < w a) :
    deviation w x m a ≤ 0 ↔ m ≤ x a := by
  rw [deviation, ← not_lt, mul_pos_iff_of_pos_left hw, not_lt, sub_nonpos, one_le_div hm]

/-- **No deviation at all means equal values.** -/
theorem deviations_eq_zero_iff (hl : l ≠ []) (hw : ∀ a ∈ l, 0 < w a) (hm : 0 < mean w x l) :
    (∀ a ∈ l, deviation w x (mean w x l) a = 0) ↔ ∀ a ∈ l, ∀ b ∈ l, x a = x b := by
  have hzero : ∀ a ∈ l, deviation w x (mean w x l) a = 0 ↔ x a = mean w x l := by
    intro a ha
    rw [le_antisymm_iff, deviation_nonpos_iff hm (hw a ha), deviation_nonneg_iff hm (hw a ha),
      le_antisymm_iff, and_comm]
  constructor
  · intro h a ha b hb
    rw [(hzero a ha).1 (h a ha), (hzero b hb).1 (h b hb)]
  · intro h a ha
    refine (hzero a ha).2 (le_antisymm ?_ ?_)
    · exact le_mean hl hw fun b hb => (h a ha b hb).le
    · exact mean_le hl hw fun b hb => (h b hb a ha).le

end WeightedMean
