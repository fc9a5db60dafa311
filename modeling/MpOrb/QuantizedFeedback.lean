import MpOrb.PacketProjection
import MpOrb.RealFloat
import MpOrb.Lib.Dither
import Mathlib.Analysis.SpecialFunctions.Log.Base
import Mathlib.Analysis.SpecialFunctions.Pow.Real

/-!
# Quantized feedback

The branch of `packet_projection` that encodes the utilization in 8 bits, in real arithmetic.

* `gridded` — the utilization in steps of `1/512`; `level` — the codes; `power` — the code it needs.
* `quantized u r` — the feedback for the draw `r`; `quantizedFeedback_eq` — the code computes it.
* `quantized_feedback` — a code of 8 bits, monotone, unbiased, and at most 5% off.
-/

set_option autoImplicit false

namespace MpOrb.FluidModel

open PyFloat

variable {n m : ℕ}

/-- `clamped`: full steps of `1/512`, and at least one. -/
noncomputable def gridded (u : ℝ) : ℝ := (Max.max 1 ⌈u * 512⌉ : ℤ) / 512

/-- The value of a code, for all reals. -/
noncomputable def level (y : ℝ) : ℝ := 1 / 512 * (105 / 100) ^ y

/-- The code of a utilization, before it is rounded and cut to 8 bits. -/
noncomputable def power (u : ℝ) : ℝ := Real.logb (105 / 100) (gridded u * 512)

/-- The feedback for a draw. -/
noncomputable def quantized (u r : ℝ) : ℝ := Dither.round level (Min.min 255 (power u)) r

theorem level_strictMono : StrictMono level := by
  intro x y hxy
  have hpow := Real.rpow_lt_rpow_of_exponent_lt (x := (105 / 100 : ℝ)) (by norm_num) hxy
  exact mul_lt_mul_of_pos_left hpow (by norm_num)

theorem level_intCast (k : ℤ) : level k = 1 / 512 * (105 / 100) ^ k := by
  unfold level
  rw [Real.rpow_intCast]

theorem one_le_gridded (u : ℝ) : 1 ≤ gridded u * 512 := by
  have hone : (1 : ℤ) ≤ Max.max 1 ⌈u * 512⌉ := le_max_left _ _
  unfold gridded
  rw [div_mul_cancel₀ _ (by norm_num)]
  exact_mod_cast hone

theorem level_power (u : ℝ) : level (power u) = gridded u := by
  have hpos : 0 < gridded u * 512 := one_pos.trans_le (one_le_gridded u)
  unfold level power
  rw [Real.rpow_logb (by norm_num) (by norm_num) hpos]
  ring

theorem power_nonneg (u : ℝ) : 0 ≤ power u :=
  Real.logb_nonneg (by norm_num) (one_le_gridded u)

theorem floor_cut (y : ℝ) : Min.min 255 ⌊y⌋ = ⌊Min.min 255 y⌋ := by
  rw [Int.floor_mono.map_min]
  norm_num

theorem ceil_cut (y : ℝ) : Min.min 255 ⌈y⌉ = ⌈Min.min 255 y⌉ := by
  rw [Int.ceil_mono.map_min]
  norm_num

theorem log_real (u : ℝ) :
    PyFloat.log (gridded u / (lit (1 / 512) : ℝ)) (lit (105 / 100)) = some (power u) := by
  have hscaled : gridded u / ((1 / 512 : ℚ) : ℝ) = gridded u * 512 := by
    push_cast
    ring
  have hbase : ((105 / 100 : ℚ) : ℝ) = 105 / 100 := by norm_num
  have hpos : 0 < gridded u * 512 := one_pos.trans_le (one_le_gridded u)
  rw [lit_real, lit_real, hscaled, hbase]
  exact if_pos ⟨hpos, by norm_num, by norm_num⟩

/-- **What the code computes.**  A draw is made exactly where two codes are left. -/
theorem quantizedFeedback_eq (p : Projection ℝ n m) (hp : p.quantizedU = true) (u : ℝ)
    (draws : ℕ) : p.quantizedFeedback u draws = some (quantized u (p.rng draws),
      if Min.min 255 ⌊power u⌋ = Min.min 255 ⌈power u⌉ then draws else draws + 1) := by
  have hgridded : (ofInt (Max.max 1 ⌈u * (lit 512 : ℝ)⌉) : ℝ) / lit 512 = gridded u := by
    rw [ofInt_real, lit_real]
    norm_num [gridded]
  have hlevel : ∀ k : ℤ, (lit (1 / 512) : ℝ) * PyFloat.pow (lit (105 / 100)) k = level k := by
    intro k
    rw [level_intCast, lit_real, lit_real]
    show _ * ((105 / 100 : ℚ) : ℝ) ^ k = _
    norm_num
  have hcode : p.quantizedFeedback u draws =
      if Min.min 255 ⌊power u⌋ = Min.min 255 ⌈power u⌉ then
        some (level (Min.min 255 ⌊power u⌋ : ℤ), draws)
      else some (Dither.pick (level (Min.min 255 ⌊power u⌋ : ℤ)) (level (Min.min 255 ⌈power u⌉ : ℤ))
        (gridded u) (p.rng draws), draws + 1) := by
    unfold Projection.quantizedFeedback
    rw [if_pos hp]
    show ((PyFloat.log ((ofInt (Max.max 1 ⌈u * (lit 512 : ℝ)⌉) : ℝ) / lit 512 / lit (1 / 512))
      (lit (105 / 100))).bind fun power => _) = _
    rw [hgridded, log_real, Option.bind_some]
    show (if Min.min 255 ⌊power u⌋ = Min.min 255 ⌈power u⌉ then
      some ((lit (1 / 512) : ℝ) * PyFloat.pow (lit (105 / 100)) (Min.min 255 ⌊power u⌋), draws)
      else some (if lt (p.rng draws) ((gridded u -
        lit (1 / 512) * PyFloat.pow (lit (105 / 100)) (Min.min 255 ⌊power u⌋)) /
          (lit (1 / 512) * PyFloat.pow (lit (105 / 100)) (Min.min 255 ⌈power u⌉) -
            lit (1 / 512) * PyFloat.pow (lit (105 / 100)) (Min.min 255 ⌊power u⌋)))
        then lit (1 / 512) * PyFloat.pow (lit (105 / 100)) (Min.min 255 ⌈power u⌉)
        else lit (1 / 512) * PyFloat.pow (lit (105 / 100)) (Min.min 255 ⌊power u⌋), draws + 1)) = _
    simp only [hlevel, lt_real, decide_eq_true_eq]
    rfl
  rw [hcode]
  split
  · rename_i hsame
    unfold quantized Dither.round
    rw [← floor_cut, ← ceil_cut, ← hsame]
    rcases Dither.pick_mem (level (Min.min 255 ⌊power u⌋ : ℤ)) (level (Min.min 255 ⌊power u⌋ : ℤ))
      (level (Min.min 255 (power u))) (p.rng draws) with heq | heq <;> rw [heq]
  · rename_i hdiffer
    -- two codes are left only below the last one
    have hbelow : power u ≤ 255 := by
      by_contra hlarge
      refine hdiffer ?_
      have hfloor : 255 ≤ ⌊power u⌋ := Int.le_floor.2 (by push_cast; linarith)
      have hceil : 255 ≤ ⌈power u⌉ := hfloor.trans (Int.floor_le_ceil _)
      rw [min_eq_left hfloor, min_eq_left hceil]
    unfold quantized Dither.round
    rw [← floor_cut, ← ceil_cut, min_eq_right hbelow, level_power]

theorem level_add_one (y : ℝ) : level (y + 1) = 105 / 100 * level y := by
  unfold level
  rw [Real.rpow_add_one (by norm_num)]
  ring

theorem level_cut (u : ℝ) : level (Min.min 255 (power u)) = Min.min (level 255) (gridded u) := by
  rw [level_strictMono.monotone.map_min, level_power]

theorem gridded_close {u : ℝ} (hu : 1 / 512 ≤ u) : u ≤ gridded u ∧ gridded u < u + 1 / 512 := by
  have hone : (1 : ℤ) ≤ ⌈u * 512⌉ := Int.one_le_ceil_iff.2 (by linarith)
  have hle := Int.le_ceil (u * 512)
  have hlt := Int.ceil_lt_add_one (u * 512)
  unfold gridded
  rw [max_eq_right hone, le_div_iff₀ (by norm_num), div_lt_iff₀ (by norm_num)]
  exact ⟨hle, by linarith⟩

/-- A quantizer of the utilization with the draw as its second argument. -/
structure Quantizer (f : ℝ → ℝ → ℝ) : Prop where
  code : ∀ u r, ∃ k : ℕ, k ≤ 255 ∧ f u r = 1 / 512 * (105 / 100) ^ k
  mono : ∀ u u' r, u ≤ u' → f u r ≤ f u' r
  /-- The mean over a uniform draw. -/
  unbiased : ∀ u, ∫ r in (0 : ℝ)..1, f u r = Min.min (level 255) (gridded u)
  near : ∀ u r, Min.min (level 255) (gridded u) ≤ 105 / 100 * f u r ∧
    f u r ≤ 105 / 100 * Min.min (level 255) (gridded u)
  grid : ∀ u, 1 / 512 ≤ u → u ≤ gridded u ∧ gridded u < u + 1 / 512

theorem gridded_mono {u u' : ℝ} (h : u ≤ u') : gridded u ≤ gridded u' := by
  have hceil : ⌈u * 512⌉ ≤ ⌈u' * 512⌉ := Int.ceil_mono (by linarith)
  have hmax : Max.max 1 ⌈u * 512⌉ ≤ Max.max 1 ⌈u' * 512⌉ := max_le_max_left 1 hceil
  unfold gridded
  rw [div_le_div_iff_of_pos_right (by norm_num)]
  exact_mod_cast hmax

theorem power_mono {u u' : ℝ} (h : u ≤ u') : power u ≤ power u' := by
  rw [← level_strictMono.le_iff_le, level_power, level_power]
  exact gridded_mono h

/-- The cut codes agree exactly where the utilization in full steps, cut to the largest code, is a
code. -/
theorem codes_agree_iff (u : ℝ) : Min.min 255 ⌊power u⌋ = Min.min 255 ⌈power u⌉ ↔
    ∃ k : ℕ, k ≤ 255 ∧ Min.min (level 255) (gridded u) = 1 / 512 * (105 / 100) ^ k := by
  have hmin : 0 ≤ Min.min 255 (power u) := le_min (by norm_num) (power_nonneg u)
  have hlevel : ∀ k : ℕ, (1 / 512 * (105 / 100) ^ k : ℝ) = level k := by
    intro k
    rw [← Int.cast_natCast, level_intCast, zpow_natCast]
  rw [floor_cut, ceil_cut, ← level_cut]
  constructor
  · intro hsame
    -- a number between equal floor and ceiling is that integer
    have hint : Min.min 255 (power u) = ⌊Min.min 255 (power u)⌋ := by
      refine le_antisymm ?_ (Int.floor_le _)
      rw [hsame]
      exact Int.le_ceil _
    obtain ⟨k, hk⟩ := Int.eq_ofNat_of_zero_le (Int.floor_nonneg.2 hmin)
    have hcode : Min.min 255 (power u) = (k : ℝ) := by
      rw [hint, hk]
      exact Int.cast_natCast k
    refine ⟨k, ?_, by rw [hcode, hlevel]⟩
    have hle : (k : ℝ) ≤ 255 := hcode ▸ min_le_left _ _
    exact_mod_cast hle
  · rintro ⟨k, -, hk⟩
    rw [hlevel, level_strictMono.injective.eq_iff] at hk
    rw [hk, Int.floor_natCast, Int.ceil_natCast]

theorem quantizer_quantized : Quantizer quantized where
  code u r := by
    have hmin : 0 ≤ Min.min 255 (power u) := le_min (by norm_num) (power_nonneg u)
    have hcode : ∀ k : ℤ, 0 ≤ k → k ≤ 255 →
        ∃ k' : ℕ, k' ≤ 255 ∧ level k = 1 / 512 * (105 / 100) ^ k' := by
      intro k hk hk'
      obtain ⟨k, rfl⟩ := Int.eq_ofNat_of_zero_le hk
      exact ⟨k, by omega, by rw [level_intCast, zpow_natCast]⟩
    have hceil : ⌈Min.min 255 (power u)⌉ ≤ 255 :=
      Int.ceil_le.2 (by push_cast; exact min_le_left _ _)
    have hfloor := Int.floor_nonneg.2 hmin
    have hle := Int.floor_le_ceil (Min.min 255 (power u))
    unfold quantized Dither.round
    rcases Dither.pick_mem (level ⌊Min.min 255 (power u)⌋) (level ⌈Min.min 255 (power u)⌉)
      (level (Min.min 255 (power u))) r with heq | heq
    · rw [heq]
      exact hcode _ hfloor (hle.trans hceil)
    · rw [heq]
      exact hcode _ (hfloor.trans hle) hceil
  mono _ _ r h :=
    Dither.round_mono level_strictMono.monotone (min_le_min_left 255 (power_mono h)) r
  unbiased u := by
    unfold quantized
    rw [Dither.integral_round level_strictMono.monotone, level_cut]
  near u r := by
    have hordered := Dither.level_floor_le_ceil level_strictMono.monotone (Min.min 255 (power u))
    have hfloor := level_strictMono.monotone
      (Int.lt_floor_add_one (Min.min 255 (power u))).le
    have hceil := level_strictMono.monotone (Int.ceil_lt_add_one (Min.min 255 (power u))).le
    rw [level_add_one] at hfloor hceil
    rw [← level_cut]
    refine ⟨hfloor.trans (mul_le_mul_of_nonneg_left (Dither.le_pick hordered _ r) (by norm_num)),
      (Dither.pick_le hordered _ r).trans hceil⟩
  grid _ := gridded_close

/-- **Quantized feedback is a dithered code of 8 bits.**  Where feedback is quantized, a departure
returns `quantized` of its utilization and of the draw; it is one of 256 codes, monotone in the
utilization for the same draw, within 5% of the utilization in full steps and, for a uniform draw,
equal to it in the mean, up to the largest code.  A departure makes one draw where the utilization
in full steps is between two codes, and none where it is a code or at least the largest one. -/
theorem quantized_feedback (p : Projection ℝ n m) (hp : p.quantizedU = true) :
    Quantizer quantized ∧ ∀ u draws,
      p.quantizedFeedback u draws = some (quantized u (p.rng draws),
        if Min.min 255 ⌊power u⌋ = Min.min 255 ⌈power u⌉ then draws else draws + 1) ∧
      (Min.min 255 ⌊power u⌋ = Min.min 255 ⌈power u⌉ ↔
        ∃ k : ℕ, k ≤ 255 ∧ Min.min (level 255) (gridded u) = 1 / 512 * (105 / 100) ^ k) :=
  ⟨quantizer_quantized, fun u draws =>
    ⟨quantizedFeedback_eq p hp u draws, codes_agree_iff u⟩⟩

/-- A single subflow with quantized feedback. -/
noncomputable def quantizedPath : Projection ℝ 1 1 :=
  { case := {
      capacity := fun _ => 1448000
      pathLink := fun _ => ⟨0, Nat.one_pos⟩
      connection := fun _ => 0
      propagation := fun _ => 1 / 100
      initialFraction := fun _ => 1 }
    duration := 1
    rng := fun _ => 0
    quantizedU := true }

/-- With the same draw more utilization means no less feedback. -/
theorem quantized_feedback_path : ∃ f f' draws draws',
    quantizedPath.quantizedFeedback (9 / 10) 0 = some (f, draws) ∧
      quantizedPath.quantizedFeedback (11 / 10) 0 = some (f', draws') ∧ f ≤ f' := by
  obtain ⟨hquantizer, hcode⟩ := quantized_feedback quantizedPath rfl
  exact ⟨_, _, _, _, (hcode (9 / 10) 0).1, (hcode (11 / 10) 0).1,
    hquantizer.mono _ _ _ (by norm_num)⟩

end MpOrb.FluidModel
