import MpOrb.FluidRuns
import MpOrb.Equilibrium

/-!
# Equilibrium rates of the fluid integration

The network equilibria of the cases that `analytical` lists.

* `full_link` — a link whose increases add up to the budget of one connection is full.
* `shared_equilibrium` — Alpha on shared links: equal rates for connections, however many subflows;
  `analytical_shared` — the closed form of a single link.
* `uncoupled_equilibrium` — uncoupled subflows on links of their own.
* `alpha_equilibrium` — one Alpha connection on links of its own, at the root of the bisection:
  one state at rest if its windows are above their floor, and none otherwise.
-/

set_option autoImplicit false

namespace MpOrb.FluidModel

open PyFloat

/-! ## Full links -/

/-- The utilization of a full link with a payload fraction of `κ`. -/
noncomputable def fullUtilization (κ : ℝ) : ℝ := ETA / (1 - AI_GAIN / κ)

theorem eta_add_aiGain : (ETA : ℝ) + AI_GAIN = 1 := by norm_num [ETA, AI_GAIN]

theorem real_eta_pos : (0 : ℝ) < ETA := by norm_num [ETA]

theorem real_aiGain_pos : (0 : ℝ) < AI_GAIN := by norm_num [AI_GAIN]

theorem utilization_iff {u a : ℝ} (hu : 0 < u) (ha : a < 1) :
    1 - ETA / u = a ↔ u = ETA / (1 - a) := by
  have ha' : 0 < 1 - a := by linarith
  rw [eq_div_iff ha'.ne', sub_eq_iff_eq_add, ← sub_eq_iff_eq_add', eq_div_iff hu.ne', mul_comm]

/-- **A link whose increases add up to the budget of one connection is full**, and the queue makes
up for the header bytes. -/
theorem full_link {B H κ X Q u : ℝ} (hB : 0 < B) (hH : 0 < H) (hκ : AI_GAIN < κ) (hκ1 : κ ≤ 1) :
    (X ≤ κ * B ∧ (Q = 0 ∨ X = κ * B) ∧ u = X / B + Q / (B * H) ∧ ETA < u ∧
        X * (1 - ETA / u) = AI_GAIN * B) ↔
      X = κ * B ∧ u = fullUtilization κ ∧ Q = B * H * (fullUtilization κ - κ) := by
  have hapos := real_aiGain_pos
  have hκ0 : 0 < κ := hapos.trans hκ
  have hfrac : (AI_GAIN : ℝ) / κ < 1 := (div_lt_one hκ0).2 hκ
  have hqueue : ∀ {u Q : ℝ}, u = κ + Q / (B * H) ↔ Q = B * H * (u - κ) := by
    intro u Q
    have hBH := (mul_pos hB hH).ne'
    constructor
    · intro hu
      rw [hu]
      field_simp
      ring
    · intro hQ
      rw [hQ, mul_div_cancel_left₀ _ hBH]
      ring
  constructor
  · rintro ⟨hle, hslack, hu, htarget, hcontrol⟩
    have hupos := real_eta_pos.trans htarget
    have hX : X = κ * B := by
      rcases hslack with hQ | hX
      · -- an empty queue: the rate would be the capacity
        rw [hQ, zero_div, add_zero] at hu
        have hXpos : 0 < X := by
          by_contra hneg
          have : X / B ≤ 0 := div_nonpos_of_nonpos_of_nonneg (not_lt.1 hneg) hB.le
          linarith
        have hfull : X = B := by
          rw [hu] at hcontrol
          field_simp at hcontrol
          linear_combination hcontrol + B * eta_add_aiGain
        have : κ * B ≤ 1 * B := mul_le_mul_of_nonneg_right hκ1 hB.le
        linarith
      · exact hX
    have hu' : u = fullUtilization κ := by
      refine (utilization_iff hupos hfrac).1 ?_
      rw [hX] at hcontrol
      rw [eq_div_iff hκ0.ne']
      have := mul_right_cancel₀ hB.ne' (a := (1 - ETA / u) * κ) (c := AI_GAIN) (by linarith)
      exact this
    refine ⟨hX, hu', ?_⟩
    rw [hX, mul_div_cancel_right₀ _ hB.ne'] at hu
    rw [← hu']
    exact hqueue.1 hu
  · rintro ⟨hX, hu, hQ⟩
    have hgap : 0 < 1 - (AI_GAIN : ℝ) / κ := sub_pos.2 hfrac
    have hupos : 0 < u := hu ▸ div_pos real_eta_pos hgap
    have hcut := (utilization_iff hupos hfrac).2 hu
    refine ⟨hX.le, Or.inr hX, ?_, ?_, ?_⟩
    · rw [hX, mul_div_cancel_right₀ _ hB.ne', hqueue, hQ, hu]
    · have hpos : 0 < 1 - ETA / u := hcut ▸ div_pos hapos hκ0
      rw [sub_pos, div_lt_one hupos] at hpos
      exact hpos
    · rw [hcut, hX]
      field_simp

section Budget

variable {n m : ℕ} {case : Case ℝ n m} {z : Entry n m → ℝ}

theorem horizon_pos (h : case.Admissible) (hz : Interior z) (j : Fin m) :
    0 < horizon case z j := by
  obtain ⟨i, hi⟩ := h.used j
  have hmem : i ∈ Finset.univ.filter fun i => case.pathLink i = j := by simp [hi]
  exact div_pos
    (Finset.sum_pos (fun i _ => div_pos (pow_pos (h.propagation_pos i) 2) (h.rtt_pos hz i))
      ⟨i, hmem⟩)
    (Finset.sum_pos (fun i _ => div_pos (h.propagation_pos i) (h.rtt_pos hz i)) ⟨i, hmem⟩)

theorem horizon_eq (h : case.Admissible) (hz : Interior z) {j : Fin m} {D : ℝ}
    (hD : ∀ i, case.pathLink i = j → case.propagation i = D) : horizon case z j = D := by
  obtain ⟨i, hi⟩ := h.used j
  have hDpos : 0 < D := hD i hi ▸ h.propagation_pos i
  have hsum : 0 < ∑ i with case.pathLink i = j, 1 / rtt case z i :=
    Finset.sum_pos (fun i _ => one_div_pos.2 (h.rtt_pos hz i)) ⟨i, by simp [hi]⟩
  have hterm : ∀ d : ℝ → ℝ, ∑ i with case.pathLink i = j, d (case.propagation i) / rtt case z i =
      d D * ∑ i with case.pathLink i = j, 1 / rtt case z i := by
    intro d
    rw [Finset.mul_sum]
    refine Finset.sum_congr rfl fun k hk => ?_
    rw [hD k (Finset.mem_filter.1 hk).2, mul_one_div]
  unfold horizon
  rw [hterm fun x => x ^ 2, hterm fun x => x]
  field_simp

/-- What all links are like at rest. -/
structure Full (case : Case ℝ n m) (z : Entry n m → ℝ) : Prop where
  smoothed : ∀ i, z (.s i) = rtt case z i
  utilization : ∀ j, z (.u j) = fullUtilization (payload case)
  queue : ∀ j, z (.Q j) = case.capacity j * horizon case z j *
    (fullUtilization (payload case) - payload case)

/-- **Where the weights on every link add up to its connections, all links are full** and every
subflow has its share. -/
theorem equilibrium_of_budget (h : case.Admissible) (hκ : AI_GAIN < payload case)
    (hz : Interior z) (hbudget : ∀ j, ∑ i with case.pathLink i = j, share case z i =
      case.counts j) :
    NetworkEquilibrium case z ↔ Full case z ∧ ∀ i, payloadRate case z i =
      payload case * case.capacity (case.pathLink i) / case.counts (case.pathLink i) *
        share case z i := by
  have hlink := fun j => full_link (X := arriving case z j) (Q := z (.Q j)) (u := z (.u j))
    (h.capacity j) (horizon_pos h hz j) hκ h.payload_le_one
  have hκ0 := h.payload_pos
  have hfrac : (AI_GAIN : ℝ) / payload case < 1 := (div_lt_one hκ0).2 hκ
  have hcut : 1 - ETA / fullUtilization (payload case) = AI_GAIN / payload case :=
    (utilization_iff (div_pos real_eta_pos (sub_pos.2 hfrac)) hfrac).2 rfl
  constructor
  · intro heq
    have htotal : ∀ j, arriving case z j * (1 - ETA / z (.u j)) = AI_GAIN * case.capacity j := by
      intro j
      have hN := h.counts_pos j
      have hsum : arriving case z j * (1 - ETA / z (.u j)) =
          AI_GAIN * case.capacity j / case.counts j * ∑ i with case.pathLink i = j,
            share case z i := by
        rw [arriving, Finset.sum_mul, Finset.mul_sum]
        refine Finset.sum_congr rfl fun i hi => ?_
        obtain rfl := (Finset.mem_filter.1 hi).2
        exact heq.control i
      rw [hsum, hbudget, div_mul_cancel₀ _ hN.ne']
    have hfull := fun j => (hlink j).1
      ⟨heq.capacity j, heq.slack j, heq.utilization j, heq.target j, htotal j⟩
    refine ⟨⟨heq.smoothed, fun j => (hfull j).2.1, fun j => (hfull j).2.2⟩, fun i => ?_⟩
    have hcontrol := heq.control i
    rw [(hfull _).2.1, hcut] at hcontrol
    have hgain := real_aiGain_pos
    field_simp at hcontrol ⊢
    linarith
  · rintro ⟨hfull, hrate⟩
    have htotal : ∀ j, arriving case z j = payload case * case.capacity j := by
      intro j
      have hN := h.counts_pos j
      have hsum : arriving case z j = payload case * case.capacity j / case.counts j *
          ∑ i with case.pathLink i = j, share case z i := by
        rw [arriving, Finset.mul_sum]
        refine Finset.sum_congr rfl fun i hi => ?_
        obtain rfl := (Finset.mem_filter.1 hi).2
        exact hrate i
      rw [hsum, hbudget, div_mul_cancel₀ _ hN.ne']
    have hall := fun j => (hlink j).2 ⟨htotal j, hfull.utilization j, hfull.queue j⟩
    refine ⟨hfull.smoothed, fun j => (hall j).1, fun j => (hall j).2.1, fun j => (hall j).2.2.1,
      fun j => (hall j).2.2.2.1, fun i => ?_⟩
    rw [hfull.utilization, hcut, hrate]
    have hN := h.counts_pos (case.pathLink i)
    field_simp

/-! ## Alpha on shared links -/

theorem sum_share (h : case.Admissible) (hz : Interior z) (halpha : case.alpha = true)
    (hlocal : ∀ i k, case.connection i = case.connection k → case.pathLink i = case.pathLink k)
    (j : Fin m) : ∑ i with case.pathLink i = j, share case z i = case.counts j := by
  have hconnection : ∀ c ∈ case.connections j,
      ∑ i ∈ (Finset.univ.filter fun i => case.pathLink i = j) with case.connection i = c,
        share case z i = 1 := by
    intro c hc
    obtain ⟨i, hi, rfl⟩ := Finset.mem_image.1 hc
    have hi' : case.pathLink i = j := (Finset.mem_filter.1 hi).2
    have hsame : (Finset.univ.filter fun k => case.pathLink k = j).filter
        (fun k => case.connection k = case.connection i) =
          Finset.univ.filter fun k => case.connection k = case.connection i := by
      ext k
      simp only [Finset.mem_filter, Finset.mem_univ, true_and, and_iff_right_iff_imp]
      exact fun hk => (hlocal k i hk).trans hi'
    have hpos : 0 < ∑ k with case.connection k = case.connection i, payloadRate case z k :=
      Finset.sum_pos (fun k _ => rate_pos h hz k) ⟨i, by simp⟩
    rw [hsame, ← div_self hpos.ne', Finset.sum_div]
    refine Finset.sum_congr rfl fun k hk => ?_
    have hk' : case.connection k = case.connection i := (Finset.mem_filter.1 hk).2
    unfold share
    rw [if_pos halpha, hk']
  rw [← Finset.sum_fiberwise_of_maps_to (g := case.connection) (t := case.connections j)
    (fun i hi => Finset.mem_image_of_mem _ hi), Finset.sum_congr rfl hconnection]
  simp [Case.counts]

/-- **Alpha shares a link between connections, not between subflows.**  Where every connection has
its subflows on one link, the integration stands still exactly when all links are full and every
connection has an equal part of its link, with any split between its subflows. -/
theorem shared_equilibrium (case : Case ℝ n m) (h : case.Admissible)
    (hκ : AI_GAIN < payload case) (halpha : case.alpha = true)
    (hlocal : ∀ i k, case.connection i = case.connection k → case.pathLink i = case.pathLink k)
    (z : Entry n m → ℝ) (hz : Interior z) :
    Stationary case z ↔ Full case z ∧ ∀ i,
      ∑ k with case.connection k = case.connection i, payloadRate case z k =
        payload case * case.capacity (case.pathLink i) / case.counts (case.pathLink i) := by
  rw [stationary_iff h hz, equilibrium_of_budget h hκ hz (sum_share h hz halpha hlocal)]
  refine and_congr_right fun _ => forall_congr' fun i => ?_
  have hx := rate_pos h hz i
  have hpos : 0 < ∑ k with case.connection k = case.connection i, payloadRate case z k :=
    Finset.sum_pos (fun k _ => rate_pos h hz k) ⟨i, by simp⟩
  unfold share
  rw [if_pos halpha, mul_div_assoc', eq_div_iff hpos.ne', mul_comm (payloadRate case z i),
    mul_left_inj' hx.ne']

/-- A connection of two subflows and one of a single subflow on a link of 100 Mbps. -/
def sharedLink : Case ℚ 3 1 :=
  { capacity := fun _ => 12500000
    pathLink := fun _ => ⟨0, Nat.one_pos⟩
    connection := ![0, 0, 1]
    propagation := fun _ => 1 / 25
    initialFraction := fun _ => 1 / 4 }

/-- The first connection splits its half 1:3. -/
noncomputable def sharedState : Entry 3 1 → ℝ
  | .W i => ![62500, 187500, 250000] i
  | .Q _ => 0
  | .u _ => 1
  | .s _ => 1 / 25

theorem sharedLink_admissible : sharedLink.real.Admissible := by
  refine ⟨fun j => ?_, fun i => ?_, le_rfl, fun j => ⟨0, Subsingleton.elim _ _⟩⟩
  · show (0 : ℝ) < ((12500000 : ℚ) : ℝ)
    norm_num
  · show (1 / 10 ^ 9 : ℝ) < ((1 / 25 : ℚ) : ℝ)
    norm_num

theorem sharedState_interior : Interior sharedState := by
  refine ⟨fun i => ?_, fun j => le_rfl⟩
  fin_cases i <;> norm_num [sharedState, MSS]

theorem sharedState_rest : Stationary sharedLink.real sharedState := by
  have hcapacity : ∀ j, sharedLink.real.capacity j = 12500000 := by
    intro j
    show ((12500000 : ℚ) : ℝ) = _
    norm_num
  have hpayload : payload sharedLink.real = 1 := div_self (by norm_num [MSS])
  have hrtt : ∀ i, rtt sharedLink.real sharedState i = 1 / 25 := by
    intro i
    show ((1 / 25 : ℚ) : ℝ) + 0 / _ = _
    norm_num
  have hcounts : ∀ j, sharedLink.real.counts j = 2 := by
    have hboth : ∀ j, sharedLink.counts j = 2 := by decide
    exact hboth
  have hconnection : sharedLink.real.connection = ![0, 0, 1] := rfl
  have harriving : ∀ j, arriving sharedLink.real sharedState j = 12500000 := by
    intro j
    rw [arriving, Finset.filter_true_of_mem fun i _ => Subsingleton.elim _ _]
    simp only [payloadRate, hrtt, sharedState]
    norm_num [Fin.sum_univ_succ]
  rw [stationary_iff sharedLink_admissible sharedState_interior]
  refine ⟨fun i => (hrtt i).symm, fun j => ?_, fun j => Or.inl rfl, fun j => ?_, fun j => ?_,
    fun i => ?_⟩
  · rw [harriving, hpayload, hcapacity, one_mul]
  · rw [harriving, hcapacity]
    simp [sharedState]
  · norm_num [sharedState, ETA]
  · simp only [payloadRate, share, hrtt, hcapacity, hcounts, hconnection, Finset.sum_filter,
      sharedState, if_pos (show sharedLink.real.alpha = true from rfl)]
    fin_cases i <;> norm_num [Fin.sum_univ_succ, ETA, AI_GAIN]

theorem shared_equilibrium_unequal_split : Full sharedLink.real sharedState := by
  have hκ : AI_GAIN < payload sharedLink.real := by
    norm_num [payload, AI_GAIN, sharedLink, Case.real, MSS]
  exact ((shared_equilibrium sharedLink.real sharedLink_admissible hκ rfl
    (fun _ _ _ => Subsingleton.elim _ _) sharedState sharedState_interior).1 sharedState_rest).1

theorem analytical_single (case : Case ℝ n 1) : analytical case =
    if (Finset.univ.image case.connection).card = 1 then
      some ((List.ofFn case.initialFraction).map fun fraction =>
        case.capacity 0 * (fraction / ∑ i, case.initialFraction i))
    else some (List.replicate n (case.capacity 0 / n)) := by
  have htotal : case.capacity 0 * ((lit ETA : ℝ) + lit AI_GAIN) = case.capacity 0 := by
    rw [lit_real, lit_real, eta_add_aiGain, mul_one]
  have hsum : PyFloat.sum (List.ofFn case.initialFraction) = ∑ i, case.initialFraction i := by
    rw [sum_real, List.sum_ofFn]
  have hone : List.ofFn case.capacity = [case.capacity 0] := by simp
  unfold analytical
  rw [hone]
  simp only [htotal, hsum, ofInt_real, Int.cast_natCast]

theorem counts_single (case : Case ℝ n 1) (j : Fin 1) :
    case.counts j = (Finset.univ.image case.connection).card := by
  unfold Case.counts Case.connections
  rw [Finset.filter_true_of_mem fun i _ => Subsingleton.elim _ _]

/-- **On a single link the rates at rest are the analytical ones**: they have the same total, and
they are the same where every subflow is a connection. -/
theorem analytical_shared (case : Case ℝ n 1) (h : case.Admissible)
    (hcharged : case.chargedPacketBytes = MSS) (halpha : case.alpha = true)
    (hfractions : 0 < ∑ i, case.initialFraction i) (z : Entry n 1 → ℝ) (hz : Interior z)
    (hrest : Stationary case z) :
    ∃ rates, analytical case = some rates ∧ rates.sum = ∑ i, payloadRate case z i ∧
      (Function.Injective case.connection → rates = List.ofFn (payloadRate case z)) := by
  have hpayload : payload case = 1 := by
    unfold payload
    rw [hcharged]
    exact div_self (by norm_num [MSS])
  have hκ : AI_GAIN < payload case := by
    rw [hpayload]
    norm_num [AI_GAIN]
  obtain ⟨i₀, -⟩ := h.used 0
  have hN := h.counts_pos 0
  have hlocal : ∀ i k, case.connection i = case.connection k → case.pathLink i = case.pathLink k :=
    fun _ _ _ => Subsingleton.elim _ _
  have hbudget := sum_share h hz halpha hlocal
  obtain ⟨-, hrate⟩ := (equilibrium_of_budget h hκ hz hbudget).1 ((stationary_iff h hz).1 hrest)
  replace hrate : ∀ i, payloadRate case z i = case.capacity 0 / case.counts 0 * share case z i := by
    intro i
    rw [hrate, hpayload, one_mul, Subsingleton.elim (case.pathLink i) 0]
  have hsum : ∑ i, payloadRate case z i = case.capacity 0 := by
    have hshares := hbudget 0
    rw [Finset.filter_true_of_mem fun i _ => Subsingleton.elim _ _] at hshares
    rw [Finset.sum_congr rfl fun i _ => hrate i, ← Finset.mul_sum, hshares,
      div_mul_cancel₀ _ hN.ne']
  have hdistinct : Function.Injective case.connection →
      ∀ i, payloadRate case z i = case.capacity 0 / n := by
    intro hinj i
    have hshare : share case z i = 1 := by
      unfold share
      rw [if_pos halpha]
      simp only [hinj.eq_iff, Finset.filter_eq', Finset.mem_univ, if_true, Finset.sum_singleton]
      exact div_self (rate_pos h hz i).ne'
    rw [hrate, hshare, mul_one, counts_single, Finset.card_image_of_injective _ hinj,
      Finset.card_fin]
  have hn : (n : ℝ) ≠ 0 := Nat.cast_ne_zero.2 i₀.pos.ne'
  rw [analytical_single]
  split
  · rename_i hone
    refine ⟨_, rfl, ?_, fun hinj => ?_⟩
    · rw [hsum, List.map_ofFn, List.sum_ofFn]
      simp only [Function.comp_apply]
      rw [← Finset.mul_sum, ← Finset.sum_div, div_self hfractions.ne', mul_one]
    · rw [Finset.card_image_of_injective _ hinj, Finset.card_fin] at hone
      subst hone
      rw [List.map_ofFn]
      refine congrArg List.ofFn (funext fun i => ?_)
      have hfraction : case.initialFraction i = ∑ k, case.initialFraction k := by
        rw [Fin.sum_univ_one, Subsingleton.elim i 0]
      rw [Function.comp_apply, hfraction, div_self hfractions.ne', mul_one, hdistinct hinj i,
        Nat.cast_one, div_one]
  · refine ⟨_, rfl, ?_, fun hinj => ?_⟩
    · rw [hsum, List.sum_replicate, nsmul_eq_mul, mul_div_cancel₀ _ hn]
    · rw [← List.ofFn_const]
      exact congrArg List.ofFn (funext fun i => (hdistinct hinj i).symm)

theorem analytical_shared_unequal_split : ∃ rates, analytical sharedLink.real = some rates ∧
    rates.sum = ∑ i, payloadRate sharedLink.real sharedState i := by
  have hfractions : 0 < ∑ i, sharedLink.real.initialFraction i :=
    Finset.sum_pos (fun i _ => show (0 : ℝ) < ((1 / 4 : ℚ) : ℝ) by norm_num) Finset.univ_nonempty
  obtain ⟨rates, hrates, hsum, -⟩ := analytical_shared sharedLink.real sharedLink_admissible rfl rfl
    hfractions sharedState sharedState_interior sharedState_rest
  exact ⟨rates, hrates, hsum⟩

/-! ## Uncoupled subflows -/

/-- **Uncoupled subflows share a link equally** where they count as different connections there. -/
theorem uncoupled_equilibrium (case : Case ℝ n m) (h : case.Admissible)
    (hκ : AI_GAIN < payload case) (halpha : case.alpha = false)
    (hdistinct : ∀ i k, case.connection i = case.connection k →
      case.pathLink i = case.pathLink k → i = k)
    (z : Entry n m → ℝ) (hz : Interior z) :
    Stationary case z ↔ Full case z ∧ ∀ i, payloadRate case z i =
      payload case * case.capacity (case.pathLink i) / case.counts (case.pathLink i) := by
  have hshare : ∀ i, share case z i = 1 :=
    fun i => if_neg (by rw [halpha]; exact Bool.false_ne_true)
  have hbudget : ∀ j, ∑ i with case.pathLink i = j, share case z i = case.counts j := by
    intro j
    have hcard : case.counts j = (Finset.univ.filter fun i => case.pathLink i = j).card := by
      refine Finset.card_image_of_injOn fun i hi k hk hsame => ?_
      rw [Finset.mem_coe, Finset.mem_filter] at hi hk
      exact hdistinct i k hsame (hi.2.trans hk.2.symm)
    rw [hcard]
    simp [hshare]
  rw [stationary_iff h hz, equilibrium_of_budget h hκ hz hbudget]
  simp only [hshare, mul_one]

/-- Two uncoupled subflows on links of 100 Mbps, with 52 header bytes in a packet. -/
def uncoupledLinks : Case ℚ 2 2 :=
  { capacity := fun _ => 12500000
    pathLink := id
    connection := fun _ => 0
    propagation := fun _ => 1 / 25
    initialFraction := fun _ => 1 / 2
    alpha := false
    chargedPacketBytes := 1500 }

/-- Full links with the queues that the header bytes leave. -/
noncomputable def uncoupledState : Entry 2 2 → ℝ :=
  let κ := payload uncoupledLinks.real
  let delay := 1 / 25 * (1 + fullUtilization κ - κ)
  fun
  | .W _ => κ * 12500000 * delay
  | .Q _ => 12500000 * (1 / 25) * (fullUtilization κ - κ)
  | .u _ => fullUtilization κ
  | .s _ => delay

theorem uncoupled_equilibrium_header_bytes : Stationary uncoupledLinks.real uncoupledState := by
  have hpayload : payload uncoupledLinks.real = 362 / 375 := by
    show (MSS : ℝ) / ((1500 : ℤ) : ℝ) = _
    norm_num [MSS]
  have hfull : fullUtilization (362 / 375) = 34390 / 34325 := by
    norm_num [fullUtilization, ETA, AI_GAIN]
  have hcapacity : ∀ j, uncoupledLinks.real.capacity j = 12500000 := by
    intro j
    show ((12500000 : ℚ) : ℝ) = _
    norm_num
  have hpropagation : ∀ i, uncoupledLinks.real.propagation i = 1 / 25 := by
    intro i
    show ((1 / 25 : ℚ) : ℝ) = _
    norm_num
  have hadmissible : uncoupledLinks.real.Admissible := by
    refine ⟨fun j => ?_, fun i => ?_, by decide, fun j => ⟨j, rfl⟩⟩
    · rw [hcapacity]
      norm_num
    · rw [hpropagation]
      norm_num
  have hinterior : Interior uncoupledState := by
    refine ⟨fun i => ?_, fun j => ?_⟩
    · simp only [uncoupledState, hpayload, hfull]
      norm_num [MSS]
    · simp only [uncoupledState, hpayload, hfull]
      norm_num
  have hrtt : ∀ i, rtt uncoupledLinks.real uncoupledState i = uncoupledState (.s i) := by
    intro i
    simp only [rtt, hcapacity, hpropagation, uncoupledState, hpayload, hfull]
    norm_num
  have hκ : AI_GAIN < payload uncoupledLinks.real := by
    rw [hpayload]
    norm_num [AI_GAIN]
  have hcounts : ∀ j, uncoupledLinks.real.counts j = 1 := by
    have hone : ∀ j, uncoupledLinks.counts j = 1 := by decide
    exact hone
  refine (uncoupled_equilibrium uncoupledLinks.real hadmissible hκ rfl (fun i k _ hlink => hlink)
    uncoupledState hinterior).2 ⟨⟨fun i => (hrtt i).symm, fun j => rfl, fun j => ?_⟩, fun i => ?_⟩
  · rw [horizon_eq hadmissible hinterior fun i _ => hpropagation i, hcapacity]
    rfl
  · rw [payloadRate, hrtt, hcapacity, hcounts]
    simp only [uncoupledState, hpayload, hfull]
    norm_num

end Budget

/-! ## Alpha on links of its own -/

section Alpha

variable {n m : ℕ}

/-- Empty queues and the rates at a root of the bisection's equation. -/
noncomputable def alphaEquilibrium (case : Case ℚ n m) (root : ℝ) : Entry n m → ℝ
  | .W i => realRate case.capacity root (case.pathLink i) * case.propagation i
  | .Q _ => 0
  | .u j => realRate case.capacity root j / case.capacity j
  | .s i => case.propagation i

variable {case : Case ℚ n m} {z : Entry n m → ℝ} {largest : ℚ} {root : ℝ}

/-- One Alpha connection, every subflow on a link of its own, and no header bytes. -/
structure Case.Disjoint (case : Case ℚ n m) : Prop where
  admissible : case.real.Admissible
  alpha : case.alpha = true
  one : ∀ i k, case.connection i = case.connection k
  links : Function.Bijective case.pathLink
  charged : case.chargedPacketBytes = MSS

namespace Case.Disjoint

theorem capacity_pos (h : case.Disjoint) (j : Fin m) : 0 < case.capacity j := by
  have hj : (0 : ℝ) < case.capacity j := h.admissible.capacity j
  exact_mod_cast hj

theorem payload_eq (h : case.Disjoint) : payload case.real = 1 := by
  unfold payload
  rw [show case.real.chargedPacketBytes = MSS from h.charged]
  exact div_self (by norm_num [MSS])

theorem counts_eq (h : case.Disjoint) (j : Fin m) : case.real.counts j = 1 := by
  obtain ⟨i, hi⟩ := h.links.surjective j
  refine Finset.card_eq_one.2 ⟨case.connection i, Finset.eq_singleton_iff_unique_mem.2 ⟨?_, ?_⟩⟩
  · exact Finset.mem_image_of_mem case.connection
      (Finset.mem_filter.2 ⟨Finset.mem_univ i, hi⟩)
  · intro c hc
    obtain ⟨k, -, rfl⟩ := Finset.mem_image.1 hc
    exact h.one k i

theorem sum_link (h : case.Disjoint) (f : Fin n → ℝ) (i : Fin n) :
    ∑ k with case.pathLink k = case.pathLink i, f k = f i := by
  have hone : (Finset.univ.filter fun k => case.pathLink k = case.pathLink i) = {i} := by
    ext k
    simp [h.links.injective.eq_iff]
  rw [hone, Finset.sum_singleton]

theorem share_eq (h : case.Disjoint) (z : Entry n m → ℝ) (i : Fin n) :
    share case.real z i = payloadRate case.real z i / ∑ k, payloadRate case.real z k := by
  unfold share
  rw [if_pos (show case.real.alpha = true from h.alpha), Finset.filter_true_of_mem]
  exact fun k _ => h.one k i

end Case.Disjoint

theorem IsEquilibrium.le_capacity (hB : ∀ j, 0 < case.capacity j)
    (hmax : maximum case.capacity = some largest) (h : IsEquilibrium case.capacity largest root)
    (j : Fin m) : realRate case.capacity root j ≤ case.capacity j := by
  have hpoles := real_poles_below (maximum_spec hmax).1 h.above
  have hj : (0 : ℝ) < case.capacity j := by exact_mod_cast hB j
  have hgap := sub_pos.2 (hpoles j)
  have hterm : (ETA : ℝ) * case.capacity j / (root - AI_GAIN * case.capacity j) ≤ 1 :=
    (PoleSum.term_le_value (fun k => (real_weight_pos hB k).le) hpoles j).trans_eq h.load
  rw [div_le_one hgap] at hterm
  have hle : (case.capacity j : ℝ) ≤ root := by
    have hsum : ((ETA : ℝ) + AI_GAIN) * case.capacity j = case.capacity j := by
      rw [eta_add_aiGain, one_mul]
    linarith
  unfold realRate
  rw [div_le_iff₀ hgap]
  have hscaled : (ETA : ℝ) * root ≤ root - AI_GAIN * case.capacity j := by
    have hgain := mul_le_mul_of_nonneg_left hle real_aiGain_pos.le
    have hsum : ((ETA : ℝ) + AI_GAIN) * root = root := by rw [eta_add_aiGain, one_mul]
    linarith
  calc (ETA : ℝ) * case.capacity j * root = case.capacity j * (ETA * root) := by ring
    _ ≤ case.capacity j * (root - AI_GAIN * case.capacity j) :=
      mul_le_mul_of_nonneg_left hscaled hj.le

theorem IsEquilibrium.target_le (hB : ∀ j, 0 < case.capacity j)
    (hmax : maximum case.capacity = some largest) (h : IsEquilibrium case.capacity largest root)
    (j : Fin m) : ETA * case.capacity j ≤ realRate case.capacity root j := by
  have hgap := sub_pos.2 (real_poles_below (maximum_spec hmax).1 h.above j)
  have hj : (0 : ℝ) < case.capacity j := by exact_mod_cast hB j
  unfold realRate
  rw [le_div_iff₀ hgap]
  refine mul_le_mul_of_nonneg_left ?_ (mul_pos real_eta_pos hj).le
  exact sub_le_self _ (mul_pos real_aiGain_pos hj).le

/-- The equation of a subflow whose queue is empty. -/
theorem rate_of_control {x X B : ℝ} (hx : 0 < x) (hX : 0 < X) (hB : 0 < B)
    (hcontrol : 1 - ETA / (x / B) = AI_GAIN * B / X) :
    AI_GAIN * B < X ∧ x = ETA * B * X / (X - AI_GAIN * B) := by
  have hprod : x * (X - AI_GAIN * B) = ETA * B * X := by
    field_simp at hcontrol
    linarith
  have hpos : 0 < x * (X - AI_GAIN * B) :=
    hprod ▸ mul_pos (mul_pos real_eta_pos hB) hX
  have hgap : 0 < X - AI_GAIN * B := pos_of_mul_pos_right hpos hx.le
  exact ⟨sub_pos.1 hgap, (eq_div_iff hgap.ne').2 hprod⟩

/-- A queue would need more increase than the target leaves. -/
theorem queue_empty (h : case.Disjoint) (hz : Interior z) (heq : NetworkEquilibrium case.real z)
    (i : Fin n) : z (.Q (case.pathLink i)) = 0 := by
  by_contra hQ
  have hB := h.admissible.capacity (case.pathLink i)
  have hH := horizon_pos h.admissible hz (case.pathLink i)
  have hx := rate_pos h.admissible hz i
  have hQpos : 0 < z (.Q (case.pathLink i)) := (hz.queue _).lt_of_ne' hQ
  have hfull : payloadRate case.real z i = case.real.capacity (case.pathLink i) := by
    have hslack := (heq.slack (case.pathLink i)).resolve_left hQ
    rwa [h.payload_eq, one_mul, arriving, show case.real.pathLink = case.pathLink from rfl,
      h.sum_link] at hslack
  have hu : 1 < z (.u (case.pathLink i)) := by
    rw [heq.utilization, (heq.slack (case.pathLink i)).resolve_left hQ, h.payload_eq, one_mul,
      div_self hB.ne']
    exact lt_add_of_pos_right _ (div_pos hQpos (mul_pos hB hH))
  have hle : payloadRate case.real z i ≤ ∑ k, payloadRate case.real z k :=
    Finset.single_le_sum (fun k _ => (rate_pos h.admissible hz k).le) (Finset.mem_univ i)
  have hshare : share case.real z i ≤ 1 := by
    rw [h.share_eq]
    exact div_le_one_of_le₀ hle (hx.le.trans hle)
  have hcontrol := heq.control i
  rw [show case.real.pathLink = case.pathLink from rfl, h.counts_eq, Nat.cast_one, div_one, hfull,
    mul_comm (AI_GAIN : ℝ), mul_assoc, mul_right_inj' hB.ne'] at hcontrol
  have hcut : (ETA : ℝ) / z (.u (case.pathLink i)) < ETA :=
    div_lt_self real_eta_pos hu
  have hgain : (AI_GAIN : ℝ) * share case.real z i ≤ AI_GAIN :=
    mul_le_of_le_one_right real_aiGain_pos.le hshare
  have hsum := eta_add_aiGain
  linarith

/-- At rest every rate is the one that the total determines, and the total is a root. -/
theorem rates_of_equilibrium (h : case.Disjoint) (hmax : maximum case.capacity = some largest)
    (hz : Interior z) (heq : NetworkEquilibrium case.real z) :
    IsEquilibrium case.capacity largest (∑ k, payloadRate case.real z k) ∧
    ∀ i, payloadRate case.real z i =
      realRate case.capacity (∑ k, payloadRate case.real z k) (case.pathLink i) := by
  obtain ⟨-, j, hj⟩ := maximum_spec hmax
  set X := ∑ k, payloadRate case.real z k with hXdef
  have hX : 0 < X := by
    obtain ⟨i, -⟩ := h.links.surjective j
    exact Finset.sum_pos (fun k _ => rate_pos h.admissible hz k) ⟨i, Finset.mem_univ i⟩
  have hrate : ∀ i, AI_GAIN * case.capacity (case.pathLink i) < X ∧ payloadRate case.real z i =
      realRate case.capacity X (case.pathLink i) := by
    intro i
    have hx := rate_pos h.admissible hz i
    have hB : (0 : ℝ) < case.capacity (case.pathLink i) := h.admissible.capacity _
    have hu : z (.u (case.pathLink i)) =
        payloadRate case.real z i / case.capacity (case.pathLink i) := by
      rw [heq.utilization, queue_empty h hz heq, zero_div, add_zero, arriving,
        show case.real.pathLink = case.pathLink from rfl, h.sum_link]
      rfl
    have hcontrol := heq.control i
    rw [show case.real.pathLink = case.pathLink from rfl, h.counts_eq, Nat.cast_one, div_one,
      h.share_eq, hu, mul_div_assoc', mul_comm (_ * _) (payloadRate case.real z i), mul_div_assoc,
      mul_right_inj' hx.ne'] at hcontrol
    exact rate_of_control hx hX hB hcontrol
  refine ⟨⟨?_, ?_⟩, fun i => (hrate i).2⟩
  · obtain ⟨i, rfl⟩ := h.links.surjective j
    rw [← hj]
    exact (hrate i).1
  · have hterm : ∀ i, payloadRate case.real z i / X = (ETA : ℝ) * case.capacity (case.pathLink i) /
        (X - AI_GAIN * case.capacity (case.pathLink i)) := by
      intro i
      rw [(hrate i).2, realRate, div_right_comm, mul_div_cancel_right₀ _ hX.ne']
    unfold realLoad
    rw [← h.links.sum_comp fun j => (ETA : ℝ) * case.capacity j / (X - AI_GAIN * case.capacity j),
      ← Finset.sum_congr rfl fun i _ => hterm i, ← Finset.sum_div, ← hXdef, div_self hX.ne']

theorem alphaEquilibrium_rate (case : Case ℚ n m) (h : case.Disjoint) (root : ℝ) (i : Fin n) :
    rtt case.real (alphaEquilibrium case root) i = case.propagation i ∧
      payloadRate case.real (alphaEquilibrium case root) i =
        realRate case.capacity root (case.pathLink i) := by
  have hrtt : rtt case.real (alphaEquilibrium case root) i = case.propagation i := by
    show (case.propagation i : ℝ) + 0 / _ = _
    rw [zero_div, add_zero]
  have hD : (case.propagation i : ℝ) ≠ 0 := (h.admissible.propagation_pos i).ne'
  refine ⟨hrtt, ?_⟩
  rw [payloadRate, hrtt]
  exact mul_div_cancel_right₀ _ hD

theorem arriving_alphaEquilibrium (h : case.Disjoint) (root : ℝ) :
    arriving case.real (alphaEquilibrium case root) = realRate case.capacity root := by
  funext j
  obtain ⟨i, rfl⟩ := h.links.surjective j
  rw [arriving, show case.real.pathLink = case.pathLink from rfl, h.sum_link]
  exact (alphaEquilibrium_rate case h root i).2

/-- A root makes an equilibrium. -/
theorem equilibrium_of_root (h : case.Disjoint) (hmax : maximum case.capacity = some largest)
    (hroot : IsEquilibrium case.capacity largest root) :
    NetworkEquilibrium case.real (alphaEquilibrium case root) := by
  have hB := h.capacity_pos
  have hrate := fun i => (alphaEquilibrium_rate case h root i).2
  have hpos := fun j => hroot.rates hB hmax |>.1 j
  have hBr : ∀ j, (0 : ℝ) < case.capacity j := h.admissible.capacity
  have hpoles := real_poles_below (maximum_spec hmax).1 hroot.above
  have htotal : ∑ k, payloadRate case.real (alphaEquilibrium case root) k = root := by
    rw [Finset.sum_congr rfl fun k _ => hrate k,
      h.links.sum_comp fun j => realRate case.capacity root j]
    exact (hroot.rates hB hmax).2
  have harriving := congrFun (arriving_alphaEquilibrium h root)
  have hrootpos : 0 < root := by
    obtain ⟨-, j, -⟩ := maximum_spec hmax
    exact (mul_pos real_aiGain_pos (hBr j)).trans (hpoles j)
  -- what utilization is above the target
  have hcut : ∀ j, 1 - ETA / (realRate case.capacity root j / case.capacity j) =
      AI_GAIN * case.capacity j / root := by
    intro j
    have hgap := sub_pos.2 (hpoles j)
    have hj := hBr j
    have heta := real_eta_pos
    unfold realRate
    field_simp
    ring
  refine ⟨fun i => (alphaEquilibrium_rate case h root i).1.symm, fun j => ?_, fun j => Or.inl rfl,
    fun j => ?_, fun j => ?_, fun i => ?_⟩
  · rw [harriving, h.payload_eq, one_mul]
    exact hroot.le_capacity hB hmax j
  · rw [harriving]
    show _ = _ + 0 / _
    rw [zero_div, add_zero]
    rfl
  · show (ETA : ℝ) < realRate case.capacity root j / case.capacity j
    have hu := div_pos (hpos j) (hBr j)
    have hgain : 0 < AI_GAIN * case.capacity j / root :=
      div_pos (mul_pos real_aiGain_pos (hBr j)) hrootpos
    rw [← hcut, sub_pos, div_lt_one hu] at hgain
    exact hgain
  · have hu : alphaEquilibrium case root (.u (case.pathLink i)) =
        realRate case.capacity root (case.pathLink i) / case.capacity (case.pathLink i) := rfl
    rw [show case.real.pathLink = case.pathLink from rfl, h.counts_eq, Nat.cast_one, div_one,
      h.share_eq, htotal, hrate, hu, hcut]
    show _ = (AI_GAIN : ℝ) * case.capacity (case.pathLink i) * _
    ring

/-- **The only state at rest** is the one at the root. -/
theorem stationary_iff_root (h : case.Disjoint) (hmax : maximum case.capacity = some largest)
    (hroot : IsEquilibrium case.capacity largest root) (hz : Interior z) :
    Stationary case.real z ↔ z = alphaEquilibrium case root := by
  rw [stationary_iff h.admissible hz]
  constructor
  · intro heq
    obtain ⟨hequilibrium, hrate⟩ := rates_of_equilibrium h hmax hz heq
    rw [hequilibrium.unique h.capacity_pos hmax hroot] at hrate
    have hrtt : ∀ i, rtt case.real z i = case.propagation i := by
      intro i
      show (case.propagation i : ℝ) + z (.Q (case.pathLink i)) / _ = _
      rw [queue_empty h hz heq, zero_div, add_zero]
    funext e
    cases e with
    | W i =>
      show z (.W i) = realRate case.capacity root (case.pathLink i) * case.propagation i
      rw [← hrate, ← hrtt]
      exact (div_mul_cancel₀ _ (h.admissible.rtt_pos hz i).ne').symm
    | Q j =>
      obtain ⟨i, rfl⟩ := h.links.surjective j
      exact queue_empty h hz heq i
    | u j =>
      obtain ⟨i, rfl⟩ := h.links.surjective j
      rw [heq.utilization, queue_empty h hz heq, zero_div, add_zero, arriving,
        show case.real.pathLink = case.pathLink from rfl, h.sum_link, hrate]
      rfl
    | s i => rw [heq.smoothed, hrtt]; rfl
  · rintro rfl
    exact equilibrium_of_root h hmax hroot

/-- Its windows are above their floor where every rate fills its propagation time with more than a
segment. -/
theorem alphaEquilibrium_interior : Interior (alphaEquilibrium case root) ↔
    ∀ i, MSS < realRate case.capacity root (case.pathLink i) * case.propagation i :=
  ⟨fun hz i => hz.window i, fun hwindow => ⟨hwindow, fun _ => le_rfl⟩⟩

/-- The total that the bisection returns is close to a root. -/
theorem exists_close_root {B : Fin m → ℚ} (hB : ∀ j, 0 < B j) (hmax : maximum B = some largest) :
    ∃ total, ∃ root : ℝ, equilibriumTotal B = some total ∧ IsEquilibrium B largest root ∧
      |(total : ℝ) - root| ≤ (∑ j, B j : ℚ) / 2 ^ 100 := by
  have hsplits := firstBracket_splits hB hmax
  have hstart := (one_lt_load_low hB hmax rfl).1
  have habove := hstart.trans_le (hsplits.low_le_iterate 100)
  obtain ⟨root, hroot, hlow, hhigh⟩ := exists_root_of_splits hmax habove (hsplits.iterate 100)
  refine ⟨_, root, equilibriumTotal_eq (firstBracket_eq hmax), hroot,
    (abs_mid_sub_root_le hlow hhigh).trans ?_⟩
  have hwidth := Bisection.iterate_width (below B)
    (AI_GAIN * largest * (1 + 1 / 10 ^ 10), 2 * ∑ j, B j) 100
  have hlargest : 0 < largest := by
    obtain ⟨-, j, rfl⟩ := maximum_spec hmax
    exact hB j
  have hlow : 0 < AI_GAIN * largest * (1 + 1 / 10 ^ 10) := by
    have := mul_pos aiGain_pos hlargest
    positivity
  rw [hwidth]
  have hbound : (2 * ∑ j, B j - AI_GAIN * largest * (1 + 1 / 10 ^ 10)) / 2 ^ 100 / 2 ≤
      (∑ j, B j) / 2 ^ 100 := by
    rw [div_right_comm]
    exact div_le_div_of_nonneg_right (by linarith) (by positivity)
  exact_mod_cast hbound

/-- **`analytical` finds the only equilibrium of one Alpha connection on links of its own.**  The
integration stands still, with windows above their floor, in the state with empty queues and the
rates at the root of the equation that `analytical` bisects, if these windows are above their
floor, and otherwise in none.  It stays in this state, its links carry the rates that the code
computes for the root, and the total of `analytical` is the root up to `2 ^ -100` of the total
capacity. -/
theorem alpha_equilibrium (case : Case ℚ n m) (h : case.Disjoint) (hm : 2 ≤ m) :
    ∃ largest root total, maximum case.capacity = some largest ∧
      IsEquilibrium case.capacity largest root ∧
      (∀ z, Interior z ∧ Stationary case.real z ↔ z = alphaEquilibrium case root ∧
        ∀ i, MSS < realRate case.capacity root (case.pathLink i) * case.propagation i) ∧
      (∀ z, Interior z → Stationary case.real z →
        rates case.real.capacity root = List.ofFn (arriving case.real z) ∧
        ∀ dt step, (advance case.real dt)^[step] z = z) ∧
      analytical case = some (rates case.capacity total) ∧
      |(total : ℝ) - root| ≤ (∑ j, case.capacity j : ℚ) / 2 ^ 100 := by
  obtain ⟨largest, hmax⟩ := exists_maximum case.capacity (by omega)
  obtain ⟨total, root, htotal, hroot, hclose⟩ := exists_close_root h.capacity_pos hmax
  refine ⟨largest, root, total, hmax, hroot, fun z => ?_, fun z hz hrest => ⟨?_, ?_⟩, ?_, hclose⟩
  · rw [← alphaEquilibrium_interior]
    constructor
    · rintro ⟨hz, hrest⟩
      have hsame := (stationary_iff_root h hmax hroot hz).1 hrest
      exact ⟨hsame, hsame ▸ hz⟩
    · rintro ⟨rfl, hz⟩
      exact ⟨hz, (stationary_iff_root h hmax hroot hz).2 rfl⟩
  · rw [rates_real, (stationary_iff_root h hmax hroot hz).1 hrest, arriving_alphaEquilibrium h]
  · exact rest_forever hrest hz.aboveFloor
  · rw [analytical_eq hm h.alpha, htotal]
    rfl

/-- Two links of 100 and 50 Mbps. -/
def unequalCapacity : Case ℚ 2 2 :=
  { capacity := ![12500000, 6250000]
    pathLink := id
    connection := fun _ => 0
    propagation := fun _ => 1 / 25
    initialFraction := fun _ => 1 / 2 }

theorem unequalCapacity_disjoint : unequalCapacity.Disjoint where
  admissible := by
    refine ⟨fun j => ?_, fun i => ?_, le_rfl, fun j => ⟨j, rfl⟩⟩
    · have hB : ∀ j, 0 < unequalCapacity.capacity j := by decide +kernel
      show (0 : ℝ) < (unequalCapacity.capacity j : ℚ)
      exact_mod_cast hB j
    · show (1 / 10 ^ 9 : ℝ) < ((1 / 25 : ℚ) : ℝ)
      norm_num
  alpha := rfl
  one _ _ := rfl
  links := Function.bijective_id
  charged := rfl

/-- The equilibrium is there: its windows are above their floor. -/
theorem alpha_equilibrium_unequal_capacity :
    ∃ root total, analytical unequalCapacity = some (rates unequalCapacity.capacity total) ∧
      Interior (alphaEquilibrium unequalCapacity root) ∧
      Stationary unequalCapacity.real (alphaEquilibrium unequalCapacity root) := by
  obtain ⟨largest, root, total, hmax, hroot, hrest, -, htotal, -⟩ :=
    alpha_equilibrium unequalCapacity unequalCapacity_disjoint le_rfl
  have hwindow : ∀ i, MSS < realRate unequalCapacity.capacity root (unequalCapacity.pathLink i) *
      unequalCapacity.propagation i := by
    intro i
    have hrate := hroot.target_le unequalCapacity_disjoint.capacity_pos hmax i
    have hleast : ∀ i, 6250000 ≤ unequalCapacity.capacity i := by decide +kernel
    have hB : (6250000 : ℝ) ≤ unequalCapacity.capacity i := by exact_mod_cast hleast i
    show (MSS : ℝ) < realRate unequalCapacity.capacity root i * ((1 / 25 : ℚ) : ℝ)
    norm_num [MSS, ETA] at hrate ⊢
    linarith
  exact ⟨root, total, htotal, (hrest _).2 ⟨rfl, hwindow⟩⟩

end Alpha

end MpOrb.FluidModel
