import MpOrb.Fluid
import Mathlib.Tactic.FieldSimp
import Mathlib.Tactic.Positivity

/-!
# Equilibria of the fluid integration

Where the right-hand side vanishes, in real arithmetic.

* `Case.Admissible` — positive parameters; `Interior` — windows above their floor.
* `share` — the Alpha weight at matching round-trip times.
* `NetworkEquilibrium` — capacity, complementary slackness, utilization and control.
* `stationary_iff` — the right-hand side vanishes exactly at a network equilibrium.
-/

set_option autoImplicit false

namespace MpOrb.FluidModel

open PyFloat

variable {n m : ℕ} {case : Case ℝ n m} {z : Entry n m → ℝ}

/-- Positive capacities, round-trip times above the floor of the integration, packets that charge
at least their payload, and a subflow on every link. -/
structure Case.Admissible (case : Case ℝ n m) : Prop where
  capacity : ∀ j, 0 < case.capacity j
  propagation : ∀ i, 1 / 10 ^ 9 < case.propagation i
  charged : MSS ≤ case.chargedPacketBytes
  used : ∀ j, ∃ i, case.pathLink i = j

/-- Windows above a segment and queues that are not negative. -/
structure Interior (z : Entry n m → ℝ) : Prop where
  window : ∀ i, MSS < z (.W i)
  queue : ∀ j, 0 ≤ z (.Q j)

/-- The integration stands still. -/
def Stationary (case : Case ℝ n m) (z : Entry n m → ℝ) : Prop := ∀ e, rhs case z e = 0

/-! ## Quantities -/

/-- The round-trip time of a subflow. -/
noncomputable def rtt (case : Case ℝ n m) (z : Entry n m → ℝ) (i : Fin n) : ℝ :=
  case.propagation i + z (.Q (case.pathLink i)) / case.capacity (case.pathLink i)

/-- Its rate. -/
noncomputable def payloadRate (case : Case ℝ n m) (z : Entry n m → ℝ) (i : Fin n) : ℝ :=
  z (.W i) / rtt case z i

/-- What arrives at a link. -/
noncomputable def arriving (case : Case ℝ n m) (z : Entry n m → ℝ) (j : Fin m) : ℝ :=
  ∑ i with case.pathLink i = j, payloadRate case z i

/-- The packet-weighted mean of the propagation times. -/
noncomputable def horizon (case : Case ℝ n m) (z : Entry n m → ℝ) (j : Fin m) : ℝ :=
  (∑ i with case.pathLink i = j, case.propagation i ^ 2 / rtt case z i) /
    ∑ i with case.pathLink i = j, case.propagation i / rtt case z i

/-- The payload part of a packet. -/
noncomputable def payload (case : Case ℝ n m) : ℝ := (MSS : ℝ) / case.chargedPacketBytes

theorem incident_real (case : Case ℝ n m) (v : Fin n → ℝ) (j : Fin m) :
    incident case v j = ∑ i with case.pathLink i = j, v i := by
  unfold incident
  rw [sum_finRange_real, Finset.sum_filter]
  refine Finset.sum_congr rfl fun i _ => ?_
  by_cases hi : case.pathLink i = j
  · rw [if_pos hi, if_pos hi, lit_real, Rat.cast_one, one_mul]
  · rw [if_neg hi, if_neg hi, lit_real, Rat.cast_zero, zero_mul]

theorem floatWeights_real (case : Case ℝ n m) (window srtt : Fin n → ℝ) (i : Fin n) :
    floatWeights case window srtt i = if case.alpha then window i / srtt i /
      ∑ k with case.connection k = case.connection i, window k / srtt k else 1 := by
  unfold floatWeights
  cases case.alpha with
  | false => exact (lit_real 1).trans Rat.cast_one
  | true =>
    have hsum : PyFloat.sum (((List.finRange n).filter fun k =>
        case.connection k = case.connection i).map fun k => window k / srtt k) =
        ∑ k with case.connection k = case.connection i, window k / srtt k := by
      rw [sum_real, ← List.sum_toFinset _ ((List.nodup_finRange n).filter _)]
      refine Finset.sum_congr ?_ fun k _ => rfl
      ext k
      simp
    simp only [Bool.not_true, Bool.false_eq_true, if_false, if_true]
    rw [hsum]

namespace Case.Admissible

theorem propagation_pos (h : case.Admissible) (i : Fin n) : 0 < case.propagation i :=
  lt_trans (by norm_num) (h.propagation i)

theorem charged_pos (h : case.Admissible) : (0 : ℝ) < case.chargedPacketBytes := by
  have hmss : 0 < MSS := by decide
  exact_mod_cast hmss.trans_le h.charged

theorem payload_pos (h : case.Admissible) : 0 < payload case :=
  div_pos (by norm_num [MSS]) h.charged_pos

theorem payload_le_one (h : case.Admissible) : payload case ≤ 1 := by
  unfold payload
  rw [div_le_one h.charged_pos]
  exact_mod_cast h.charged

theorem counts_pos (h : case.Admissible) (j : Fin m) : (0 : ℝ) < case.counts j := by
  obtain ⟨i, hi⟩ := h.used j
  exact Nat.cast_pos.2 (Finset.card_pos.2
    ⟨case.connection i, Finset.mem_image_of_mem _ (by simp [hi])⟩)

theorem rtt_ge (h : case.Admissible) (hz : Interior z) (i : Fin n) :
    case.propagation i ≤ rtt case z i :=
  le_add_of_nonneg_right (div_nonneg (hz.queue _) (h.capacity _).le)

theorem rtt_pos (h : case.Admissible) (hz : Interior z) (i : Fin n) : 0 < rtt case z i :=
  (h.propagation_pos i).trans_le (h.rtt_ge hz i)

end Case.Admissible

theorem Interior.window_pos (hz : Interior z) (i : Fin n) : 0 < z (.W i) :=
  lt_trans (by norm_num [MSS]) (hz.window i)

theorem rate_pos (h : case.Admissible) (hz : Interior z) (i : Fin n) : 0 < payloadRate case z i :=
  div_pos (hz.window_pos i) (h.rtt_pos hz i)

theorem arriving_pos (h : case.Admissible) (hz : Interior z) (j : Fin m) :
    0 < arriving case z j := by
  obtain ⟨i, hi⟩ := h.used j
  exact Finset.sum_pos (fun i _ => rate_pos h hz i) ⟨i, by simp [hi]⟩

/-! ## The right-hand side -/

theorem kappa_real (case : Case ℝ n m) : kappa case = payload case := by
  unfold kappa payload
  rw [ofInt_real, ofInt_real]

section Quantities

variable (hz : Interior z)

include hz

/-! In the interior no clamp of `quantities` is active. -/

theorem quantities_W (i : Fin n) : (quantities case z).W i = z (.W i) := by
  show NumPy.maximum (z (.W i)) (ofInt MSS) = _
  rw [NumPy.maximum_real, ofInt_real]
  exact max_eq_left (hz.window i).le

theorem quantities_Q (j : Fin m) : (quantities case z).Q j = z (.Q j) := by
  show NumPy.maximum (z (.Q j)) (lit 0) = _
  rw [NumPy.maximum_real, lit_real, Rat.cast_zero]
  exact max_eq_left (hz.queue j)

theorem quantities_R (i : Fin n) : (quantities case z).R i = rtt case z i := by
  show case.propagation i + (quantities case z).Q _ / _ = _
  rw [quantities_Q hz]
  rfl

theorem quantities_x (i : Fin n) : (quantities case z).x i = payloadRate case z i := by
  show (quantities case z).W i / (quantities case z).R i = _
  rw [quantities_W hz, quantities_R hz]
  rfl

theorem quantities_incoming (j : Fin m) : (quantities case z).incoming j = arriving case z j := by
  show incident case (quantities case z).x j = _
  rw [incident_real]
  exact Finset.sum_congr rfl fun i _ => quantities_x hz i

theorem quantities_service (j : Fin m) : (quantities case z).service j =
    if 0 < z (.Q j) then payload case * case.capacity j
    else min (arriving case z j) (payload case * case.capacity j) := by
  show (if lt (lit 0) ((quantities case z).Q j) then kappa case * case.capacity j
    else NumPy.minimum ((quantities case z).incoming j) (kappa case * case.capacity j)) = _
  rw [quantities_Q hz, quantities_incoming hz, NumPy.minimum_real, kappa_real]
  simp

theorem quantities_H (h : case.Admissible) (j : Fin m) :
    (quantities case z).H j = horizon case z j := by
  -- the window cancels
  have hterm : ∀ (i : Fin n) (D : ℝ),
      (quantities case z).x i * D / (quantities case z).W i = D / rtt case z i := by
    intro i D
    have hW := hz.window_pos i
    have hR := h.rtt_pos hz i
    rw [quantities_x hz, quantities_W hz, payloadRate]
    field_simp
  show incident case (fun i => (quantities case z).x i * case.propagation i * case.propagation i /
      (quantities case z).W i) j / incident case (fun i =>
        (quantities case z).x i * case.propagation i / (quantities case z).W i) j = _
  simp only [incident_real, mul_assoc, hterm, ← sq]
  rfl

end Quantities

/-- The Alpha weight where smoothed and actual round-trip times agree. -/
noncomputable def share (case : Case ℝ n m) (z : Entry n m → ℝ) (i : Fin n) : ℝ :=
  if case.alpha then
    payloadRate case z i / ∑ k with case.connection k = case.connection i, payloadRate case z k
  else 1

theorem share_pos (h : case.Admissible) (hz : Interior z) (i : Fin n) : 0 < share case z i := by
  unfold share
  split
  · exact div_pos (rate_pos h hz i)
      (Finset.sum_pos (fun k _ => rate_pos h hz k) ⟨i, by simp⟩)
  · exact one_pos

theorem gain_pos (gain : ℚ) (hpos : 0 < gain) (hlt : gain < 1) :
    0 < -NumPy.log1p (-(lit gain : ℝ)) := by
  have hpos' : (0 : ℝ) < gain := by exact_mod_cast hpos
  have hlt' : (gain : ℝ) < 1 := by exact_mod_cast hlt
  show 0 < -Real.log (1 + -(gain : ℝ))
  exact neg_pos.2 (Real.log_neg (by linarith) (by linarith))

theorem rhs_s_eq_zero (h : case.Admissible) (hz : Interior z) (i : Fin n) :
    rhs case z (.s i) = 0 ↔ z (.s i) = rtt case z i := by
  have hgain := gain_pos RTT_GAIN (by decide +kernel) (by decide +kernel)
  have hx := rate_pos h hz i
  have hR := (h.propagation i).trans_le (h.rtt_ge hz i)
  have hmss : (0 : ℝ) < MSS := by norm_num [MSS]
  show -NumPy.log1p (-lit RTT_GAIN) * (quantities case z).x i / ofInt MSS *
    ((quantities case z).R i - NumPy.maximum (z (.s i)) (lit (1 / 10 ^ 9))) = 0 ↔ _
  rw [quantities_x hz, quantities_R hz, NumPy.maximum_real, ofInt_real, lit_real (1 / 10 ^ 9),
    mul_eq_zero, or_iff_right (div_pos (mul_pos hgain hx) hmss).ne', sub_eq_zero]
  push_cast
  constructor
  · intro heq
    rcases max_choice (z (.s i)) (1 / 10 ^ 9 : ℝ) with hmax | hmax
    · rw [← hmax, ← heq]
    · rw [hmax] at heq
      exact absurd heq hR.ne'
  · intro heq
    rw [heq, max_eq_left hR.le]

theorem rhs_Q_eq_zero (h : case.Admissible) (hz : Interior z) (j : Fin m) :
    rhs case z (.Q j) = 0 ↔ arriving case z j ≤ payload case * case.capacity j ∧
      (z (.Q j) = 0 ∨ arriving case z j = payload case * case.capacity j) := by
  have hpayload := h.payload_pos
  set service := (quantities case z).service j with hservice
  have hrhs : rhs case z (.Q j) = if z (.Q j) ≤ 0 ∧ (arriving case z j - service) / payload case < 0
      then 0 else (arriving case z j - service) / payload case := by
    show (if le ((quantities case z).Q j) (lit 0) &&
      lt (((quantities case z).incoming j - service) / kappa case) (lit 0) then lit 0
      else ((quantities case z).incoming j - service) / kappa case) = _
    rw [quantities_Q hz, quantities_incoming hz, kappa_real, lit_real, Rat.cast_zero, le_real,
      lt_real]
    simp only [Bool.and_eq_true, decide_eq_true_eq]
  rw [quantities_service hz] at hservice
  rw [hrhs]
  rcases (hz.queue j).eq_or_lt with hQ | hQ
  · -- an empty queue: the link serves what arrives, up to its capacity
    rw [if_neg (by rw [← hQ]; exact lt_irrefl 0)] at hservice
    have hle : service ≤ arriving case z j := hservice ▸ min_le_left _ _
    have hdQ : 0 ≤ (arriving case z j - service) / payload case :=
      div_nonneg (sub_nonneg.2 hle) hpayload.le
    rw [if_neg fun hneg => absurd hneg.2 (not_lt.2 hdQ), div_eq_zero_iff,
      or_iff_left hpayload.ne', sub_eq_zero, hservice, eq_comm, min_eq_left_iff]
    exact ⟨fun hX => ⟨hX, Or.inl hQ.symm⟩, fun hX => hX.1⟩
  · rw [if_pos hQ] at hservice
    rw [if_neg fun hneg => absurd hneg.1 (not_le.2 hQ), div_eq_zero_iff, or_iff_left hpayload.ne',
      sub_eq_zero, hservice]
    exact ⟨fun hX => ⟨hX.le, Or.inr hX⟩, fun hX => hX.2.resolve_left hQ.ne'⟩

/-- At rest a link serves what arrives. -/
theorem service_of_balance (hz : Interior z) {j : Fin m}
    (hle : arriving case z j ≤ payload case * case.capacity j)
    (hslack : z (.Q j) = 0 ∨ arriving case z j = payload case * case.capacity j) :
    (quantities case z).service j = arriving case z j := by
  rw [quantities_service hz]
  split
  · rename_i hQ
    exact (hslack.resolve_left hQ.ne').symm
  · exact min_eq_left hle

/-- The utilization as the integration reads it. -/
noncomputable def floored (u : ℝ) : ℝ := Max.max u (1 / 10 ^ 12)

theorem rhs_u_eq_zero (h : case.Admissible) (hz : Interior z) {j : Fin m}
    (hservice : (quantities case z).service j = arriving case z j) :
    rhs case z (.u j) = 0 ↔ floored (z (.u j)) = arriving case z j / case.capacity j +
      z (.Q j) / (case.capacity j * horizon case z j) := by
  have hgain := gain_pos QUEUE_ALPHA (by decide +kernel) (by decide +kernel)
  have hX := arriving_pos h hz j
  have hmss : (0 : ℝ) < MSS := by norm_num [MSS]
  show -NumPy.log1p (-lit QUEUE_ALPHA) * (quantities case z).service j / ofInt MSS *
    ((quantities case z).service j / case.capacity j + (quantities case z).Q j /
      (case.capacity j * (quantities case z).H j) -
        NumPy.maximum (z (.u j)) (lit (1 / 10 ^ 12))) = 0 ↔ _
  rw [hservice, quantities_Q hz, quantities_H hz h, NumPy.maximum_real, ofInt_real,
    lit_real (1 / 10 ^ 12), mul_eq_zero, or_iff_right (div_pos (mul_pos hgain hX) hmss).ne',
    sub_eq_zero, eq_comm]
  unfold floored
  push_cast
  rfl

theorem rhs_W_eq_zero (h : case.Admissible) (hz : Interior z)
    (hsmoothed : ∀ i, z (.s i) = rtt case z i) (i : Fin n) :
    rhs case z (.W i) = 0 ↔
      payloadRate case z i * Max.max 0 (1 - ETA / floored (z (.u (case.pathLink i)))) =
        AI_GAIN * case.capacity (case.pathLink i) / case.counts (case.pathLink i) *
          share case z i := by
  have hR := h.rtt_pos hz i
  have hs : ∀ k, NumPy.maximum (z (.s k)) (lit (1 / 10 ^ 9)) = rtt case z k := by
    intro k
    rw [NumPy.maximum_real, lit_real, hsmoothed]
    push_cast
    exact max_eq_left ((h.propagation k).le.trans (h.rtt_ge hz k))
  have hweight : floatWeights case (quantities case z).W
      (fun k => NumPy.maximum (z (.s k)) (lit (1 / 10 ^ 9))) i = share case z i := by
    rw [floatWeights_real]
    simp only [hs, quantities_W hz]
    rfl
  have hU : NumPy.maximum (z (.u (case.pathLink i))) (lit (1 / 10 ^ 12)) =
      floored (z (.u (case.pathLink i))) := by
    rw [NumPy.maximum_real, lit_real]
    unfold floored
    push_cast
    rfl
  set A := (AI_GAIN : ℝ) * case.capacity (case.pathLink i) / case.counts (case.pathLink i) *
    share case z i with hA
  set cut := Max.max 0 (1 - ETA / floored (z (.u (case.pathLink i)))) with hcut
  have hrhs : rhs case z (.W i) = (A * rtt case z i - z (.W i) * cut) / rtt case z i := by
    show (if le ((quantities case z).W i) (ofInt MSS) && lt _ (lit 0) then lit 0
      else (lit AI_GAIN * case.capacity (case.pathLink i) / ofInt (case.counts (case.pathLink i)) *
        (quantities case z).R i * floatWeights case (quantities case z).W _ i -
          (quantities case z).W i * NumPy.maximum (lit 0) (lit 1 - lit ETA / NumPy.maximum _ _)) /
            NumPy.maximum _ _) = _
    rw [hweight, hs, hU, quantities_W hz, quantities_R hz, le_real, ofInt_real, ofInt_real,
      decide_eq_false (not_le.2 (hz.window i)), Bool.false_and, if_neg Bool.false_ne_true,
      NumPy.maximum_real]
    simp only [lit_real, Rat.cast_zero, Rat.cast_one, Int.cast_natCast]
    rw [hA]
    ring
  have hW : z (.W i) = payloadRate case z i * rtt case z i := (div_mul_cancel₀ _ hR.ne').symm
  rw [hrhs, div_eq_zero_iff, or_iff_left hR.ne', sub_eq_zero, hW,
    mul_right_comm (payloadRate case z i), mul_left_inj' hR.ne', eq_comm]

/-! ## The network equilibrium -/

/-- **Capacity, complementary slackness, utilization and control.** -/
structure NetworkEquilibrium (case : Case ℝ n m) (z : Entry n m → ℝ) : Prop where
  smoothed : ∀ i, z (.s i) = rtt case z i
  capacity : ∀ j, arriving case z j ≤ payload case * case.capacity j
  slack : ∀ j, z (.Q j) = 0 ∨ arriving case z j = payload case * case.capacity j
  utilization : ∀ j, z (.u j) = arriving case z j / case.capacity j +
    z (.Q j) / (case.capacity j * horizon case z j)
  target : ∀ j, ETA < z (.u j)
  control : ∀ i, payloadRate case z i * (1 - ETA / z (.u (case.pathLink i))) =
    AI_GAIN * case.capacity (case.pathLink i) / case.counts (case.pathLink i) * share case z i

/-- A positive increase needs utilization above the target. -/
theorem target_of_control (h : case.Admissible) (hz : Interior z) {i : Fin n} {u : ℝ}
    (hcontrol : payloadRate case z i * Max.max 0 (1 - ETA / floored u) =
      AI_GAIN * case.capacity (case.pathLink i) / case.counts (case.pathLink i) *
        share case z i) : ETA < u ∧ floored u = u := by
  have hgain : (0 : ℝ) < AI_GAIN := by norm_num [AI_GAIN]
  have hA : 0 < (AI_GAIN : ℝ) * case.capacity (case.pathLink i) / case.counts (case.pathLink i) *
      share case z i :=
    mul_pos (div_pos (mul_pos hgain (h.capacity _)) (h.counts_pos _)) (share_pos h hz i)
  have hcut : 0 < Max.max 0 (1 - ETA / floored u) :=
    pos_of_mul_pos_right (hcontrol ▸ hA) (rate_pos h hz i).le
  have hbelow : (ETA : ℝ) / floored u < 1 := by
    rcases lt_max_iff.1 hcut with hzero | hpos
    · exact absurd hzero (lt_irrefl 0)
    · linarith
  have hfloored : 0 < floored u := lt_max_of_lt_right (by norm_num)
  have hlt : (ETA : ℝ) < floored u := (div_lt_one hfloored).1 hbelow
  have hsame : floored u = u := by
    unfold floored at hlt ⊢
    refine max_eq_left (le_of_not_gt fun hsmall => ?_)
    rw [max_eq_right hsmall.le] at hlt
    norm_num [ETA] at hlt
  exact ⟨hsame ▸ hlt, hsame⟩

/-- **The integration stands still exactly at a network equilibrium.** -/
theorem stationary_iff (h : case.Admissible) (hz : Interior z) :
    Stationary case z ↔ NetworkEquilibrium case z := by
  constructor
  · intro hrest
    have hsmoothed := fun i => (rhs_s_eq_zero h hz i).1 (hrest (.s i))
    have hbalance := fun j => (rhs_Q_eq_zero h hz j).1 (hrest (.Q j))
    have hcontrol := fun i => (rhs_W_eq_zero h hz hsmoothed i).1 (hrest (.W i))
    have hfloored : ∀ j, ETA < z (.u j) ∧ floored (z (.u j)) = z (.u j) := by
      intro j
      obtain ⟨i, rfl⟩ := h.used j
      exact target_of_control h hz (hcontrol i)
    refine ⟨hsmoothed, fun j => (hbalance j).1, fun j => (hbalance j).2, fun j => ?_,
      fun j => (hfloored j).1, fun i => ?_⟩
    · have hservice := service_of_balance hz (hbalance j).1 (hbalance j).2
      rw [← (hfloored j).2]
      exact (rhs_u_eq_zero h hz hservice).1 (hrest (.u j))
    · obtain ⟨htarget, hsame⟩ := hfloored (case.pathLink i)
      have hcut : 0 ≤ 1 - (ETA : ℝ) / z (.u (case.pathLink i)) := by
        have hpos : (0 : ℝ) < ETA := by norm_num [ETA]
        rw [sub_nonneg, div_le_one (hpos.trans htarget)]
        exact htarget.le
      have hc := hcontrol i
      rwa [hsame, max_eq_right hcut] at hc
  · intro heq e
    have heta : (0 : ℝ) < ETA := by norm_num [ETA]
    have hsame : ∀ j, floored (z (.u j)) = z (.u j) := fun j => max_eq_left <| by
      have := heq.target j
      norm_num [ETA] at this
      norm_num
      linarith
    cases e with
    | s i => exact (rhs_s_eq_zero h hz i).2 (heq.smoothed i)
    | Q j => exact (rhs_Q_eq_zero h hz j).2 ⟨heq.capacity j, heq.slack j⟩
    | u j =>
      have hservice := service_of_balance hz (heq.capacity j) (heq.slack j)
      rw [rhs_u_eq_zero h hz hservice, hsame]
      exact heq.utilization j
    | W i =>
      have htarget := heq.target (case.pathLink i)
      have hcut : 0 ≤ 1 - (ETA : ℝ) / z (.u (case.pathLink i)) := by
        rw [sub_nonneg, div_le_one (heta.trans htarget)]
        exact htarget.le
      rw [rhs_W_eq_zero h hz heq.smoothed, hsame, max_eq_right hcut]
      exact heq.control i

end MpOrb.FluidModel
