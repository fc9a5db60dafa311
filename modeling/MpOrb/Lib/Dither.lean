import Mathlib.MeasureTheory.Integral.IntervalIntegral.Basic

/-!
# Dithering

A number between two levels is rounded to one of them by a draw from the unit interval.

* `pick lo hi x r` — the level for the draw `r`.
* `pick_mono` — a larger number gets no smaller level for the same draw.
* `integral_pick` — a uniform draw is unbiased.
* `round level y r` — the levels at the integers next to `y`; `round_mono`, `integral_round`.
-/

set_option autoImplicit false

namespace Dither

/-- Round up with the probability that `x` is above `lo`. -/
noncomputable def pick (lo hi x r : ℝ) : ℝ := if r < (x - lo) / (hi - lo) then hi else lo

variable {lo hi x y r : ℝ}

theorem pick_mem (lo hi x r : ℝ) : pick lo hi x r = lo ∨ pick lo hi x r = hi := by
  unfold pick
  split
  · exact Or.inr rfl
  · exact Or.inl rfl

theorem le_pick (h : lo ≤ hi) (x r : ℝ) : lo ≤ pick lo hi x r := by
  rcases pick_mem lo hi x r with heq | heq <;> rw [heq]
  exact h

theorem pick_le (h : lo ≤ hi) (x r : ℝ) : pick lo hi x r ≤ hi := by
  rcases pick_mem lo hi x r with heq | heq <;> rw [heq]
  exact h

/-- **A larger number gets no smaller level.** -/
theorem pick_mono (h : lo ≤ hi) (hxy : x ≤ y) (r : ℝ) : pick lo hi x r ≤ pick lo hi y r := by
  have hquotient : (x - lo) / (hi - lo) ≤ (y - lo) / (hi - lo) :=
    div_le_div_of_nonneg_right (by linarith) (sub_nonneg.2 h)
  unfold pick
  split
  · rename_i hx
    rw [if_pos (hx.trans_le hquotient)]
  · split
    · exact h
    · exact le_rfl

/-- **A uniform draw is unbiased.** -/
theorem integral_pick (hlo : lo ≤ x) (hhi : x ≤ hi) : ∫ r in (0 : ℝ)..1, pick lo hi x r = x := by
  set q := (x - lo) / (hi - lo) with hq
  have hq0 : 0 ≤ q := div_nonneg (sub_nonneg.2 hlo) (by linarith)
  have hq1 : q ≤ 1 := div_le_one_of_le₀ (by linarith) (by linarith)
  -- below `q` the draw goes up, above it goes down
  have hup : Set.EqOn (fun _ => hi) (pick lo hi x) (Set.uIoo 0 q) := by
    intro r hr
    rw [Set.uIoo_of_le hq0] at hr
    exact (if_pos hr.2).symm
  have hdown : Set.EqOn (fun _ => lo) (pick lo hi x) (Set.uIoo q 1) := by
    intro r hr
    rw [Set.uIoo_of_le hq1] at hr
    exact (if_neg (not_lt.2 hr.1.le)).symm
  have hleft : IntervalIntegrable (pick lo hi x) MeasureTheory.volume 0 q :=
    intervalIntegrable_const.congr_uIoo hup
  have hright : IntervalIntegrable (pick lo hi x) MeasureTheory.volume q 1 :=
    intervalIntegrable_const.congr_uIoo hdown
  rw [← intervalIntegral.integral_add_adjacent_intervals hleft hright,
    ← intervalIntegral.integral_congr_uIoo hup, ← intervalIntegral.integral_congr_uIoo hdown,
    intervalIntegral.integral_const, intervalIntegral.integral_const]
  simp only [smul_eq_mul]
  rcases (hlo.trans hhi).eq_or_lt with heq | hlt
  · have hx : x = lo := le_antisymm (heq ▸ hhi) hlo
    rw [← heq, hx]
    ring
  · have hgap : hi - lo ≠ 0 := (sub_pos.2 hlt).ne'
    rw [hq]
    field_simp
    ring

/-! ## Scales -/

/-- Round the level at `y` to the level at an integer next to `y`. -/
noncomputable def round (level : ℝ → ℝ) (y r : ℝ) : ℝ :=
  pick (level ⌊y⌋) (level ⌈y⌉) (level y) r

section Scale

variable {level : ℝ → ℝ} (hlevel : Monotone level)

include hlevel

theorem level_floor_le_ceil (y : ℝ) : level ⌊y⌋ ≤ level ⌈y⌉ :=
  hlevel ((Int.floor_le y).trans (Int.le_ceil y))

/-- **A larger number gets no smaller level.** -/
theorem round_mono (hxy : x ≤ y) (r : ℝ) : round level x r ≤ round level y r := by
  have hfloor := Int.floor_mono hxy
  have hceil := Int.ceil_mono hxy
  by_cases hnext : ⌈x⌉ ≤ ⌊y⌋
  · have hcast : (⌈x⌉ : ℝ) ≤ ⌊y⌋ := by exact_mod_cast hnext
    exact ((pick_le (level_floor_le_ceil hlevel x) _ r).trans (hlevel hcast)).trans
      (le_pick (level_floor_le_ceil hlevel y) _ r)
  · -- both numbers are between the same integers
    have hx := Int.ceil_le_floor_add_one x
    have hy := Int.ceil_le_floor_add_one y
    have hsame : ⌊x⌋ = ⌊y⌋ := by omega
    have hsame' : ⌈x⌉ = ⌈y⌉ := by omega
    unfold round
    rw [hsame, hsame']
    exact pick_mono (level_floor_le_ceil hlevel y) (hlevel hxy) r

/-- **A uniform draw is unbiased.** -/
theorem integral_round (y : ℝ) : ∫ r in (0 : ℝ)..1, round level y r = level y :=
  integral_pick (hlevel (Int.floor_le y)) (hlevel (Int.le_ceil y))

end Scale

end Dither
