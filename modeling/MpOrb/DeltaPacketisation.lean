import MpOrb.DeltaFairness
import MpOrb.Lib.Fibers

/-!
# Measurement without packets

What a round measures depends on the payload under each pair of rates, not on the packets that
carry it.

* `payloadAt` — the payload of a sequence under one pair of rates.
* `Measures` — a queue in a round, or about to begin one; `round_totals` — what packets add to its
  accumulators.
* `Feeds` — what the next round tells its packets; `feeds_next`.
* `SteadySubflow` — a subflow that sends at its nominal rate for the whole round.
* `packetisation_independent` — two sequences with the same payload under every pair of rates have
  the same mass, rate mass, feedback and total correction; steady subflows count one each.
-/

set_option autoImplicit false

namespace MpOrb

def Crossing.rates (p : Crossing) : ℚ × ℚ := (p.tag.subflowRate, p.tag.connectionRate)

/-- The payload of the packets with these `(subflowRate, connectionRate)`. -/
def payloadAt (packets : List Crossing) (rates : ℚ × ℚ) : ℕ :=
  Fibers.fiber Crossing.rates Crossing.tcpPayloadBytes packets rates

/-! ## Totals by rates -/

section Totals

variable {packets packets' : List Crossing} (deltaRateFloor : ℚ)

/-- A weight per payload byte under each pair of rates. -/
def perByte (c : ℚ × ℚ → ℚ) (rates : ℚ × ℚ) : ℕ →+ ℚ :=
  (AddMonoidHom.mulRight (c rates)).comp (Nat.castAddMonoidHom ℚ)

theorem sum_perByte_congr (c : ℚ × ℚ → ℚ)
    (hsame : ∀ rates, payloadAt packets' rates = payloadAt packets rates) :
    (packets'.map fun p => (p.tcpPayloadBytes : ℚ) * c p.rates).sum =
      (packets.map fun p => (p.tcpPayloadBytes : ℚ) * c p.rates).sum :=
  Fibers.sum_congr_fiber (perByte c) hsame

theorem total_share_eq :
    WeightedMean.total (Profile.share deltaRateFloor) (packets.map Crossing.profile) =
      (packets.map fun p => (p.tcpPayloadBytes : ℚ) * (max p.rates.1 deltaRateFloor)⁻¹).sum := by
  unfold WeightedMean.total
  rw [List.map_map]
  rfl

theorem moment_share_eq :
    WeightedMean.moment (Profile.share deltaRateFloor) Profile.connectionRate
        (packets.map Crossing.profile) =
      (packets.map fun p =>
        (p.tcpPayloadBytes : ℚ) * ((max p.rates.1 deltaRateFloor)⁻¹ * p.rates.2)).sum := by
  unfold WeightedMean.moment
  rw [List.map_map]
  refine congrArg List.sum (List.map_congr_left fun p _ => ?_)
  exact mul_assoc _ _ _

theorem total_share_congr (hsame : ∀ rates, payloadAt packets' rates = payloadAt packets rates) :
    WeightedMean.total (Profile.share deltaRateFloor) (packets'.map Crossing.profile) =
      WeightedMean.total (Profile.share deltaRateFloor) (packets.map Crossing.profile) := by
  rw [total_share_eq, total_share_eq]
  exact sum_perByte_congr (fun rates => (max rates.1 deltaRateFloor)⁻¹) hsame

theorem moment_share_congr (hsame : ∀ rates, payloadAt packets' rates = payloadAt packets rates) :
    WeightedMean.moment (Profile.share deltaRateFloor) Profile.connectionRate
        (packets'.map Crossing.profile) =
      WeightedMean.moment (Profile.share deltaRateFloor) Profile.connectionRate
        (packets.map Crossing.profile) := by
  rw [moment_share_eq, moment_share_eq]
  exact sum_perByte_congr (fun rates => (max rates.1 deltaRateFloor)⁻¹ * rates.2) hsame

end Totals

/-! ## The packets of one round -/

namespace MpOrbDeltaQueue

variable {q : MpOrbDeltaQueue} {T : SimTime} {packets : List Crossing} (bandwidth : ℚ)

/-- The next packet is in a round with the frozen interval `T`, the first of it if the queue is
between rounds and has accumulated nothing. -/
structure Measures (q : MpOrbDeltaQueue) (T : SimTime) : Prop where
  enabled : 0 < q.params.deltaShuffleFraction
  initialRtt : 0 < q.pintInitialRtt
  interval : q.packetInterval = T
  frozen : 0 < T
  idle : q.deltaShuffleTimer = none → q.deltaShuffle.mass = 0 ∧ q.deltaShuffle.rateMass = 0

/-- The total correction of packets with the masses of this round, against a given feedback. -/
def totalCorrection (q : MpOrbDeltaQueue) (packets : List Crossing) (allowance mean : ℚ) : ℚ :=
  (packets.map fun p => rateCorrection (q.packetMass p.tag p.tcpPayloadBytes) allowance
    p.tag.connectionRate mean).sum

/-- The tags carry these masses to their senders. -/
def Masses (q : MpOrbDeltaQueue) (packets : List Crossing) (tags : List DeltaShuffleTag) : Prop :=
  List.Forall₂ (fun p tag => p.selectedBottleneck = true →
    tag.packetMass = q.packetMass p.tag p.tcpPayloadBytes) packets tags

/-- What the packets of a round leave behind. -/
structure RoundTotals (q q₁ : MpOrbDeltaQueue) (T : SimTime) (packets : List Crossing) : Prop where
  params : q₁.params = q.params
  later : ∀ avgRtt, 0 < ({ q₁ with avgRtt } : MpOrbDeltaQueue).roundInterval
  mass : q₁.deltaShuffle.mass = q.deltaShuffle.mass +
    T⁻¹ * WeightedMean.total (Profile.share q.params.deltaRateFloor) (packets.map Crossing.profile)
  rateMass : q₁.deltaShuffle.rateMass = q.deltaShuffle.rateMass + T⁻¹ * WeightedMean.moment
    (Profile.share q.params.deltaRateFloor) Profile.connectionRate (packets.map Crossing.profile)
  packetMass : ∀ p ∈ packets, q₁.packetMass p.tag p.tcpPayloadBytes =
    T⁻¹ * p.profile.share q.params.deltaRateFloor

theorem forall₂_tagAfter {R : Crossing → DeltaShuffleTag → Prop}
    (h : ∀ p ∈ packets, R p (q.tagAfter bandwidth p)) :
    List.Forall₂ R packets (packets.map (q.tagAfter bandwidth)) :=
  List.forall₂_map_right_iff.2 (List.forall₂_same.2 h)

/-- **The packets of a round.** -/
theorem round_totals (hstart : q.Measures T) (hvalid : ∀ p ∈ packets, p.Valid) :
    ∃ q₁ tags, q.cross bandwidth packets = .ok (q₁, tags) ∧ q.RoundTotals q₁ T packets ∧
      q₁.Masses packets tags := by
  by_cases hne : packets = []
  · subst hne
    refine ⟨q, [], rfl, ⟨rfl, fun avgRtt => ?_, ?_, ?_, ?_⟩, .nil⟩
    · exact roundInterval_pos hstart.initialRtt
    all_goals simp
  · have hT : 0 < q.packetInterval := hstart.interval.symm ▸ hstart.frozen
    obtain ⟨q₀, hbegin, ⟨deadline, htimer⟩, hinterval, hparams, hround, hmass, hrateMass⟩ :=
      q.cross_begins bandwidth hstart.enabled hT hstart.idle hne hvalid
    have hon : 0 < q₀.params.deltaShuffleFraction := hparams ▸ hstart.enabled
    have hfrozen : q₀.deltaInterval = T := hinterval.trans hstart.interval
    have hprofileMass : q₀.profileMass = fun π => T⁻¹ * π.share q.params.deltaRateFloor := by
      funext π
      rw [profileMass, hfrozen, hparams]
    refine ⟨_, _, hbegin.trans (cross_open hon htimer hvalid),
      ⟨hparams, fun avgRtt => ?_, ?_, ?_, fun p _ => ?_⟩, ?_⟩
    · exact (hround avgRtt).symm ▸ roundInterval_pos hstart.initialRtt
    · show q₀.deltaShuffle.mass + WeightedMean.total q₀.profileMass _ = _
      rw [hmass, hprofileMass, WeightedMean.total_scale]
    · show q₀.deltaShuffle.rateMass + WeightedMean.moment q₀.profileMass _ _ = _
      rw [hrateMass, hprofileMass, WeightedMean.moment_scale]
    · show q₀.packetMass p.tag p.tcpPayloadBytes = _
      rw [packetMass_eq, hprofileMass]
    · refine forall₂_tagAfter bandwidth fun p _ hsel => ?_
      unfold tagAfter
      rw [hsel]
      rfl

theorem RoundTotals.totalCorrection {q₁ : MpOrbDeltaQueue} (h : q.RoundTotals q₁ T packets)
    (allowance mean : ℚ) :
    q₁.totalCorrection packets allowance mean =
      if 0 < mean then
        allowance * T⁻¹ * (WeightedMean.total (Profile.share q.params.deltaRateFloor)
          (packets.map Crossing.profile) - WeightedMean.moment
            (Profile.share q.params.deltaRateFloor) Profile.connectionRate
              (packets.map Crossing.profile) / mean)
      else 0 := by
  by_cases hmean : 0 < mean
  · have hterm : ∀ p ∈ packets, rateCorrection (q₁.packetMass p.tag p.tcpPayloadBytes) allowance
        p.tag.connectionRate mean = allowance * T⁻¹ * (WeightedMean.deviation
          (Profile.share q.params.deltaRateFloor) Profile.connectionRate mean ∘
            Crossing.profile) p := by
      intro p hp
      rw [rateCorrection, if_pos hmean, h.packetMass p hp, Function.comp_apply,
        WeightedMean.deviation]
      simp only [Crossing.profile]
      ring
    rw [if_pos hmean, MpOrbDeltaQueue.totalCorrection, List.map_congr_left hterm,
      List.sum_map_mul_left, ← List.map_map, WeightedMean.sum_deviation_eq]
  · rw [if_neg hmean, MpOrbDeltaQueue.totalCorrection]
    refine List.sum_eq_zero (List.forall_mem_map.2 fun p _ => ?_)
    exact if_neg hmean

/-! ## The next round -/

/-- Whatever happens to the round-trip estimate and whenever the round ends, every packet whose
bottleneck this is gets these two values in the next round. -/
def Feeds (q₁ : MpOrbDeltaQueue) (meanConnectionRate rateAllowance : ℚ) : Prop :=
  ∀ avgRtt boundary, ∃ q₂,
    ({ q₁ with avgRtt } : MpOrbDeltaQueue).handleShuffleTimer boundary = .ok q₂ ∧
    ∀ packets, (∀ p ∈ packets, p.Valid) → ∃ q₃ tags,
      q₂.cross bandwidth packets = .ok (q₃, tags) ∧
      List.Forall₂ (fun p tag => p.selectedBottleneck = true →
        tag.meanConnectionRate = meanConnectionRate ∧ tag.rateAllowance = rateAllowance)
        packets tags

theorem tagAfter_feedback {p : Crossing} (hsel : p.selectedBottleneck = true) :
    (q.tagAfter bandwidth p).meanConnectionRate = q.deltaShuffle.previousMeanRate ∧
      (q.tagAfter bandwidth p).rateAllowance = q.rateAllowance bandwidth := by
  unfold tagAfter
  rw [hsel]
  exact ⟨rfl, rfl⟩

/-- An open round tells every packet of the one before it. -/
theorem cross_told (hon : 0 < q.params.deltaShuffleFraction) {deadline : SimTime}
    (htimer : q.deltaShuffleTimer = some deadline) (hvalid : ∀ p ∈ packets, p.Valid) :
    ∃ q₃ tags, q.cross bandwidth packets = .ok (q₃, tags) ∧
      List.Forall₂ (fun p tag => p.selectedBottleneck = true →
        tag.meanConnectionRate = q.deltaShuffle.previousMeanRate ∧
          tag.rateAllowance = q.rateAllowance bandwidth) packets tags :=
  ⟨_, _, cross_open hon htimer hvalid,
    forall₂_tagAfter bandwidth fun _ _ hsel => tagAfter_feedback bandwidth hsel⟩

/-- The first round after an idle one has nothing to tell. -/
theorem cross_told_idle (hon : 0 < q.params.deltaShuffleFraction) (hround : 0 < q.roundInterval)
    (htimer : q.deltaShuffleTimer = none) (hmass : ¬ 0 < q.deltaShuffle.mass)
    (hvalid : ∀ p ∈ packets, p.Valid) :
    ∃ q₃ tags, q.cross bandwidth packets = .ok (q₃, tags) ∧
      List.Forall₂ (fun p tag => p.selectedBottleneck = true →
        tag.meanConnectionRate = 0 ∧ tag.rateAllowance = 0) packets tags := by
  cases packets with
  | nil => exact ⟨q, [], rfl, .nil⟩
  | cons p rest =>
    have htold := cross_told (q := q.inRound p.arrival) bandwidth hon rfl hvalid
    rw [cross_idle hon hround htimer (hvalid p List.mem_cons_self)]
    simpa only [rateAllowance, inRound, LinkShuffle.beginRound_idle hmass, lt_irrefl, if_false]
      using htold

/-- **The next round feeds back the totals of this one.** -/
theorem feeds_next (hon : 0 < q.params.deltaShuffleFraction)
    (hround : ∀ avgRtt, 0 < ({ q with avgRtt } : MpOrbDeltaQueue).roundInterval) :
    q.Feeds bandwidth
      (if 0 < q.deltaShuffle.mass then q.deltaShuffle.rateMass / q.deltaShuffle.mass else 0)
      (if 0 < q.deltaShuffle.mass then
        q.params.deltaShuffleFraction * bandwidth / q.deltaShuffle.mass else 0) := by
  intro avgRtt boundary
  by_cases hmass : 0 < q.deltaShuffle.mass
  · simp only [hmass, if_true]
    refine ⟨_, handleShuffleTimer_busy (hround avgRtt) hmass, fun packets hvalid => ?_⟩
    obtain ⟨q₃, tags, hcross, htold⟩ := cross_told (q := inRound
      { q with avgRtt, deltaShuffleTimer := none } boundary) bandwidth hon rfl hvalid
    refine ⟨q₃, tags, hcross, ?_⟩
    simpa only [rateAllowance, inRound, LinkShuffle.beginRound_busy hmass, hmass, if_true]
      using htold
  · simp only [hmass, if_false]
    exact ⟨_, handleShuffleTimer_idle hmass, fun packets hvalid =>
      cross_told_idle bandwidth hon (hround avgRtt) rfl (lt_irrefl 0) hvalid⟩

end MpOrbDeltaQueue

/-! ## Steady subflows -/

/-- A subflow with constant rates that sends exactly its nominal payload in a round of length
`T`. -/
structure SteadySubflow (deltaRateFloor : ℚ) (T : SimTime) where
  subflowRate : ℚ
  connectionRate : ℚ
  packets : List Crossing
  rates : ∀ p ∈ packets, p.rates = (subflowRate, connectionRate)
  payload : ((packets.map Crossing.tcpPayloadBytes).sum : ℚ) = max subflowRate deltaRateFloor * T

section Steady

variable {deltaRateFloor : ℚ} {T : SimTime}

theorem SteadySubflow.sum_perByte (flow : SteadySubflow deltaRateFloor T) (c : ℚ × ℚ → ℚ) :
    (flow.packets.map fun p => (p.tcpPayloadBytes : ℚ) * c p.rates).sum =
      T * (max flow.subflowRate deltaRateFloor * c (flow.subflowRate, flow.connectionRate)) := by
  have hterm : ∀ p ∈ flow.packets, (p.tcpPayloadBytes : ℚ) * c p.rates =
      (p.tcpPayloadBytes : ℚ) * c (flow.subflowRate, flow.connectionRate) :=
    fun p hp => by rw [flow.rates p hp]
  have hpayload : (flow.packets.map fun p => (p.tcpPayloadBytes : ℚ)).sum =
      max flow.subflowRate deltaRateFloor * T := by
    rw [← flow.payload, ← Nat.coe_castAddMonoidHom, map_list_sum, List.map_map]
    rfl
  rw [List.map_congr_left hterm, List.sum_map_mul_right, hpayload]
  ring

theorem sum_perByte_steady (flows : List (SteadySubflow deltaRateFloor T)) (c : ℚ × ℚ → ℚ) :
    ((flows.flatMap (·.packets)).map fun p => (p.tcpPayloadBytes : ℚ) * c p.rates).sum =
      T * (flows.map fun flow =>
        max flow.subflowRate deltaRateFloor * c (flow.subflowRate, flow.connectionRate)).sum := by
  induction flows with
  | nil => simp
  | cons flow rest ih =>
    rw [List.flatMap_cons, List.map_append, List.sum_append, ih, flow.sum_perByte, List.map_cons,
      List.sum_cons, mul_add]

/-- Steady subflows count one each, whatever their rates. -/
theorem total_steady (hfloor : 0 < deltaRateFloor) {packets : List Crossing}
    {flows : List (SteadySubflow deltaRateFloor T)}
    (hperm : packets.Perm (flows.flatMap (·.packets))) :
    WeightedMean.total (Profile.share deltaRateFloor) (packets.map Crossing.profile) =
      T * flows.length := by
  have hone : ∀ flow ∈ flows, max flow.subflowRate deltaRateFloor *
      (max flow.subflowRate deltaRateFloor)⁻¹ = 1 :=
    fun flow _ => mul_inv_cancel₀ (lt_max_of_lt_right hfloor).ne'
  rw [WeightedMean.total_perm (hperm.map _), total_share_eq,
    sum_perByte_steady flows fun rates => (max rates.1 deltaRateFloor)⁻¹,
    List.map_congr_left hone]
  simp

theorem moment_steady (hfloor : 0 < deltaRateFloor) {packets : List Crossing}
    {flows : List (SteadySubflow deltaRateFloor T)}
    (hperm : packets.Perm (flows.flatMap (·.packets))) :
    WeightedMean.moment (Profile.share deltaRateFloor) Profile.connectionRate
        (packets.map Crossing.profile) = T * (flows.map (·.connectionRate)).sum := by
  have hrate : ∀ flow ∈ flows, max flow.subflowRate deltaRateFloor *
      ((max flow.subflowRate deltaRateFloor)⁻¹ * flow.connectionRate) = flow.connectionRate :=
    fun flow _ => mul_inv_cancel_left₀ (lt_max_of_lt_right hfloor).ne' _
  rw [WeightedMean.moment_perm (hperm.map _), moment_share_eq,
    sum_perByte_steady flows fun rates => (max rates.1 deltaRateFloor)⁻¹ * rates.2,
    List.map_congr_left hrate]

end Steady

/-- **The measurement is independent of packetisation and arrival order.**  The two sequences may
cross the queue in different rounds, as long as the frozen interval and what was accumulated before
are the same. -/
theorem packetisation_independent {q q' : MpOrbDeltaQueue} {T : SimTime}
    (hstart : q.Measures T) (hstart' : q'.Measures T) (hparams : q'.params = q.params)
    (hbefore : q'.deltaShuffle.mass = q.deltaShuffle.mass ∧
      q'.deltaShuffle.rateMass = q.deltaShuffle.rateMass)
    {packets packets' : List Crossing} (hvalid : ∀ p ∈ packets, p.Valid)
    (hvalid' : ∀ p ∈ packets', p.Valid)
    (hsame : ∀ rates, payloadAt packets' rates = payloadAt packets rates) (bandwidth : ℚ) :
    ∃ q₁ tags q₁' tags', q.cross bandwidth packets = .ok (q₁, tags) ∧
      q'.cross bandwidth packets' = .ok (q₁', tags') ∧
      q₁'.deltaShuffle.mass = q₁.deltaShuffle.mass ∧
      q₁'.deltaShuffle.rateMass = q₁.deltaShuffle.rateMass ∧
      (∃ meanConnectionRate rateAllowance, q₁.Feeds bandwidth meanConnectionRate rateAllowance ∧
        q₁'.Feeds bandwidth meanConnectionRate rateAllowance) ∧
      (∀ allowance mean, q₁'.totalCorrection packets' allowance mean =
        q₁.totalCorrection packets allowance mean) ∧
      q₁.Masses packets tags ∧ q₁'.Masses packets' tags' ∧
      (q.deltaShuffle.mass = 0 → q.deltaShuffle.rateMass = 0 →
        ∀ flows : List (SteadySubflow q.params.deltaRateFloor T),
          packets.Perm (flows.flatMap (·.packets)) →
          q₁.deltaShuffle.mass = flows.length ∧
          q₁.Feeds bandwidth ((flows.map (·.connectionRate)).sum / flows.length)
            (q.params.deltaShuffleFraction * bandwidth / flows.length)) := by
  obtain ⟨q₁, tags, hcross, htotals, hmasses⟩ :=
    MpOrbDeltaQueue.round_totals bandwidth hstart hvalid
  obtain ⟨q₁', tags', hcross', htotals', hmasses'⟩ :=
    MpOrbDeltaQueue.round_totals bandwidth hstart' hvalid'
  have hmass : q₁'.deltaShuffle.mass = q₁.deltaShuffle.mass := by
    rw [htotals'.mass, htotals.mass, hparams, total_share_congr _ hsame, hbefore.1]
  have hrateMass : q₁'.deltaShuffle.rateMass = q₁.deltaShuffle.rateMass := by
    rw [htotals'.rateMass, htotals.rateMass, hparams, moment_share_congr _ hsame, hbefore.2]
  have hfeeds := MpOrbDeltaQueue.feeds_next bandwidth (htotals.params ▸ hstart.enabled)
    htotals.later
  have hfeeds' := MpOrbDeltaQueue.feeds_next bandwidth (htotals'.params ▸ hstart'.enabled)
    htotals'.later
  rw [hmass, hrateMass, htotals'.params, hparams, ← htotals.params] at hfeeds'
  refine ⟨q₁, tags, q₁', tags', hcross, hcross', hmass, hrateMass, ⟨_, _, hfeeds, hfeeds'⟩,
    fun allowance mean => ?_, hmasses, hmasses', fun hzero hrateZero flows hperm => ?_⟩
  · rw [htotals'.totalCorrection, htotals.totalCorrection, hparams, total_share_congr _ hsame,
      moment_share_congr _ hsame]
  · have hT : T ≠ 0 := hstart.frozen.ne'
    have hcount : q₁.deltaShuffle.mass = flows.length := by
      rw [htotals.mass, hzero, zero_add, total_steady q.params.floor_pos hperm,
        inv_mul_cancel_left₀ hT]
    have hsum : q₁.deltaShuffle.rateMass = (flows.map (·.connectionRate)).sum := by
      rw [htotals.rateMass, hrateZero, zero_add, moment_steady q.params.floor_pos hperm,
        inv_mul_cancel_left₀ hT]
    refine ⟨hcount, ?_⟩
    rw [hcount, hsum, htotals.params] at hfeeds
    by_cases hnone : 0 < (flows.length : ℚ)
    · rwa [if_pos hnone, if_pos hnone] at hfeeds
    · have hlength : (flows.length : ℚ) = 0 := le_antisymm (not_lt.1 hnone) (Nat.cast_nonneg _)
      rw [hlength, div_zero, div_zero]
      rwa [hlength, if_neg (lt_irrefl 0), if_neg (lt_irrefl 0)] at hfeeds

/-- A segment in halves, with the segment of another subflow between them. -/
def halvedSegments : List Crossing :=
  [⟨1 / 100, segmentTag, 724, true⟩,
    ⟨2 / 100, { subflowRate := 2000, connectionRate := 9000, serial := 1 }, 1448, true⟩,
    ⟨3 / 100, segmentTag, 724, true⟩]

theorem measuringQueue_measures : measuringQueue.Measures (1 / 10) :=
  ⟨by decide +kernel, by decide +kernel, by decide +kernel, by decide +kernel,
    fun _ => ⟨rfl, rfl⟩⟩

theorem payloadAt_halvedSegments (rates : ℚ × ℚ) :
    payloadAt halvedSegments rates = payloadAt unequalSegments rates := by
  by_cases h : (segmentTag.subflowRate, segmentTag.connectionRate) = rates <;>
    by_cases h' : ((2000, 9000) : ℚ × ℚ) = rates <;>
    simp [payloadAt, halvedSegments, unequalSegments, Crossing.rates, h, h']

theorem packetisation_independent_halves :
    ∃ q₁ tags q₁' tags', measuringQueue.cross 125000 unequalSegments = .ok (q₁, tags) ∧
      measuringQueue.cross 125000 halvedSegments = .ok (q₁', tags') ∧
      q₁'.deltaShuffle.mass = q₁.deltaShuffle.mass ∧
      q₁'.deltaShuffle.rateMass = q₁.deltaShuffle.rateMass ∧
      ∀ allowance mean, q₁'.totalCorrection halvedSegments allowance mean =
        q₁.totalCorrection unequalSegments allowance mean := by
  obtain ⟨q₁, tags, q₁', tags', hcross, hcross', hmass, hrateMass, -, hcorrection, -⟩ :=
    packetisation_independent measuringQueue_measures measuringQueue_measures rfl ⟨rfl, rfl⟩
      (by decide +kernel : ∀ p ∈ unequalSegments, p.Valid)
      (by decide +kernel : ∀ p ∈ halvedSegments, p.Valid) payloadAt_halvedSegments 125000
  exact ⟨q₁, tags, q₁', tags', hcross, hcross', hmass, hrateMass, hcorrection⟩

end MpOrb
