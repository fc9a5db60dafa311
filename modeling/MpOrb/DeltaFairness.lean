import MpOrb.DeltaQueue
import MpOrb.Lib.WeightedMean
import Mathlib.Tactic.FieldSimp
import Mathlib.Tactic.Positivity

/-!
# Fairness corrections on a stationary population

The same population of data packets crosses an enabled queue in two consecutive rounds; the second
time every packet takes the feedback of the queue back to its sender.

* `Crossing` — a data packet at the queue; `Profile` is the part of it the measurement reads.
* `MpOrbDeltaQueue.cross` — the packets of a round, one after the other, through the code.
* `cross_open` — a crossing adds the masses of its packets to the accumulators and, at a bottleneck,
  hands every packet the same previous population.
* `corrections_zero_sum` — the corrections cancel, their positive part is bounded by the allowance,
  and their signs follow the connection rates.
-/

set_option autoImplicit false

namespace MpOrb

/-- What the measurement reads of a packet. -/
structure Profile where
  tcpPayloadBytes : ℕ
  subflowRate : ℚ
  connectionRate : ℚ
  deriving DecidableEq

/-- A packet at the queue. -/
structure Crossing where
  arrival : SimTime
  tag : DeltaShuffleTag
  tcpPayloadBytes : ℕ
  selectedBottleneck : Bool

def Crossing.profile (p : Crossing) : Profile :=
  ⟨p.tcpPayloadBytes, p.tag.subflowRate, p.tag.connectionRate⟩

/-- A data packet with the rates of its sender. -/
structure Crossing.Valid (p : Crossing) : Prop where
  payload : p.tcpPayloadBytes ≠ 0
  data : p.tag.echoed = false
  subflowRate : 0 ≤ p.tag.subflowRate
  connectionRate : p.tag.subflowRate ≤ p.tag.connectionRate

instance (p : Crossing) : Decidable p.Valid :=
  decidable_of_iff (p.tcpPayloadBytes ≠ 0 ∧ p.tag.echoed = false ∧ 0 ≤ p.tag.subflowRate ∧
      p.tag.subflowRate ≤ p.tag.connectionRate)
    ⟨fun h => ⟨h.1, h.2.1, h.2.2.1, h.2.2.2⟩, fun h => ⟨h.1, h.2, h.3, h.4⟩⟩

/-- The packets of a list cross the queue one after the other. -/
def MpOrbDeltaQueue.cross (bandwidth : ℚ) :
    MpOrbDeltaQueue → List Crossing → Except SimError (MpOrbDeltaQueue × List DeltaShuffleTag)
  | q, [] => .ok (q, [])
  | q, p :: rest => do
    let (q, tag) ← q.processTelemetryExtension p.arrival (some p.tag) p.tcpPayloadBytes bandwidth
      p.selectedBottleneck
    let (q, tags) ← MpOrbDeltaQueue.cross bandwidth q rest
    return (q, tag.toList ++ tags)

/-! ## One crossing -/

/-- The mass of a packet in rounds of one second. -/
def Profile.share (deltaRateFloor : ℚ) (π : Profile) : ℚ :=
  π.tcpPayloadBytes / max π.subflowRate deltaRateFloor

theorem Profile.share_pos {deltaRateFloor : ℚ} (hfloor : 0 < deltaRateFloor) {p : Crossing}
    (hp : p.Valid) : 0 < p.profile.share deltaRateFloor :=
  div_pos (Nat.cast_pos.2 (Nat.pos_of_ne_zero hp.payload)) (lt_max_of_lt_right hfloor)

namespace MpOrbDeltaQueue

variable {q : MpOrbDeltaQueue} {bandwidth : ℚ}

/-- The frozen interval of the round that the next packet is in. -/
def packetInterval (q : MpOrbDeltaQueue) : SimTime :=
  if q.deltaShuffleTimer.isSome then q.deltaInterval else q.roundInterval

/-- The mass the queue gives a packet in the round it is in. -/
def profileMass (q : MpOrbDeltaQueue) (π : Profile) : ℚ :=
  q.deltaInterval⁻¹ * π.share q.params.deltaRateFloor

theorem packetMass_eq (p : Crossing) :
    q.packetMass p.tag p.tcpPayloadBytes = q.profileMass p.profile := by
  rw [packetMass, massDivisor, profileMass, Profile.share, div_mul_eq_div_div, inv_mul_eq_div]
  rfl

/-- The queue after it measured packets with these profiles. -/
def measured (q : MpOrbDeltaQueue) (profiles : List Profile) : MpOrbDeltaQueue :=
  { q with
    deltaShuffle := q.deltaShuffle.accumulate (WeightedMean.total q.profileMass profiles)
      (WeightedMean.moment q.profileMass Profile.connectionRate profiles) }

/-- The tag that leaves the queue. -/
def tagAfter (q : MpOrbDeltaQueue) (bandwidth : ℚ) (p : Crossing) : DeltaShuffleTag :=
  (q.observePacket (if p.selectedBottleneck then q.claimTag p.tag else p.tag) p.tcpPayloadBytes
    bandwidth p.selectedBottleneck).2

theorem tagAfter_measured (profiles : List Profile) :
    (q.measured profiles).tagAfter bandwidth = q.tagAfter bandwidth := by
  funext p
  unfold tagAfter
  cases p.selectedBottleneck <;> rfl

theorem observePacket_measured (p : Crossing) :
    (q.observePacket (if p.selectedBottleneck then q.claimTag p.tag else p.tag) p.tcpPayloadBytes
      bandwidth p.selectedBottleneck).1 = q.measured [p.profile] := by
  have hone : q.measured [p.profile] = { q with
      deltaShuffle :=
        q.deltaShuffle.observe (q.packetMass p.tag p.tcpPayloadBytes) p.tag.connectionRate } := by
    simp only [measured, packetMass_eq, WeightedMean.total_cons, WeightedMean.total_nil,
      WeightedMean.moment_cons, WeightedMean.moment_nil, add_zero]
    rfl
  rw [hone]
  cases p.selectedBottleneck <;> rfl

theorem measured_append (profiles profiles' : List Profile) :
    (q.measured profiles).measured profiles' = q.measured (profiles ++ profiles') := by
  have htwice : (q.measured profiles).measured profiles' = { q with
      deltaShuffle := (q.deltaShuffle.accumulate (WeightedMean.total q.profileMass profiles)
        (WeightedMean.moment q.profileMass Profile.connectionRate profiles)).accumulate
          (WeightedMean.total q.profileMass profiles')
          (WeightedMean.moment q.profileMass Profile.connectionRate profiles') } := rfl
  rw [htwice, LinkShuffle.accumulate_accumulate, ← WeightedMean.total_append,
    ← WeightedMean.moment_append, measured]

theorem process_open (hon : 0 < q.params.deltaShuffleFraction) {deadline : SimTime}
    (htimer : q.deltaShuffleTimer = some deadline) {p : Crossing} (hp : p.Valid) :
    q.processTelemetryExtension p.arrival (some p.tag) p.tcpPayloadBytes bandwidth
        p.selectedBottleneck =
      .ok (q.measured [p.profile], some (q.tagAfter bandwidth p)) := by
  rw [process_enabled hp.payload hp.data hon hp.subflowRate hp.connectionRate
    (openRound_pending htimer), observePacket_measured]
  rfl

/-- **A crossing of an open round.** -/
theorem cross_open (hon : 0 < q.params.deltaShuffleFraction) {deadline : SimTime}
    (htimer : q.deltaShuffleTimer = some deadline) {packets : List Crossing}
    (hvalid : ∀ p ∈ packets, p.Valid) :
    q.cross bandwidth packets =
      .ok (q.measured (packets.map Crossing.profile), packets.map (q.tagAfter bandwidth)) := by
  induction packets generalizing q with
  | nil => simp [cross, measured, LinkShuffle.accumulate]
  | cons p rest ih =>
    obtain ⟨hp, hrest⟩ := List.forall_mem_cons.1 hvalid
    have hlater : (q.measured [p.profile]).cross bandwidth rest = _ := ih hon htimer hrest
    rw [measured_append, tagAfter_measured] at hlater
    simp only [cross, process_open hon htimer hp]
    show (do let (q', tags) ← (q.measured [p.profile]).cross bandwidth rest; _) = _
    rw [hlater]
    rfl

/-- The first packet after an idle round finds the queue as if its round had just begun. -/
theorem cross_idle (hon : 0 < q.params.deltaShuffleFraction) (hround : 0 < q.roundInterval)
    (htimer : q.deltaShuffleTimer = none) {p : Crossing} (hp : p.Valid) (rest : List Crossing) :
    q.cross bandwidth (p :: rest) = (q.inRound p.arrival).cross bandwidth (p :: rest) := by
  have hopened : (q.inRound p.arrival).deltaShuffleTimer = some (p.arrival + q.roundInterval) := rfl
  have hsame : q.processTelemetryExtension p.arrival (some p.tag) p.tcpPayloadBytes bandwidth
      p.selectedBottleneck = (q.inRound p.arrival).processTelemetryExtension p.arrival (some p.tag)
        p.tcpPayloadBytes bandwidth p.selectedBottleneck :=
    (process_enabled hp.payload hp.data hon hp.subflowRate hp.connectionRate
      (openRound_idle hround htimer)).trans
    (process_enabled (q := q.inRound p.arrival) hp.payload hp.data hon hp.subflowRate
      hp.connectionRate (openRound_pending hopened)).symm
  simp only [cross, hsame]

/-- Either way the first packet of a crossing finds a round with its own interval. -/
theorem cross_begins (bandwidth : ℚ) (hon : 0 < q.params.deltaShuffleFraction)
    (hT : 0 < q.packetInterval)
    (hidle : q.deltaShuffleTimer = none → q.deltaShuffle.mass = 0 ∧ q.deltaShuffle.rateMass = 0)
    {packets : List Crossing} (hne : packets ≠ []) (hvalid : ∀ p ∈ packets, p.Valid) :
    ∃ q₀ : MpOrbDeltaQueue, q.cross bandwidth packets = q₀.cross bandwidth packets ∧
      (∃ deadline, q₀.deltaShuffleTimer = some deadline) ∧ q₀.deltaInterval = q.packetInterval ∧
      q₀.params = q.params ∧ (∀ avgRtt, ({ q₀ with avgRtt } : MpOrbDeltaQueue).roundInterval =
        ({ q with avgRtt } : MpOrbDeltaQueue).roundInterval) ∧
      q₀.deltaShuffle.mass = q.deltaShuffle.mass ∧
      q₀.deltaShuffle.rateMass = q.deltaShuffle.rateMass := by
  cases htimer : q.deltaShuffleTimer with
  | some deadline =>
    have hinterval : q.packetInterval = q.deltaInterval := by simp [packetInterval, htimer]
    exact ⟨q, rfl, ⟨deadline, htimer⟩, hinterval.symm, rfl, fun _ => rfl, rfl, rfl⟩
  | none =>
    obtain ⟨p, rest, rfl⟩ := List.exists_cons_of_ne_nil hne
    obtain ⟨hmass, hrateMass⟩ := hidle htimer
    have hinterval : q.packetInterval = q.roundInterval := by simp [packetInterval, htimer]
    have hidle : ¬ 0 < q.deltaShuffle.mass := by rw [hmass]; exact lt_irrefl 0
    refine ⟨q.inRound p.arrival, ?_, ⟨_, rfl⟩, hinterval.symm, rfl, fun _ => rfl, ?_, ?_⟩
    · rw [hinterval] at hT
      exact cross_idle hon hT htimer (hvalid p List.mem_cons_self) rest
    · simp only [inRound, LinkShuffle.beginRound_idle hidle, hmass]
    · simp only [inRound, LinkShuffle.beginRound_idle hidle, hrateMass]

/-- The boundary after a crossing hands the next round the population of the crossing. -/
theorem boundary_population (hT : 0 < q.deltaInterval) {avgRtt : SimTime}
    (hround : 0 < ({ q with avgRtt } : MpOrbDeltaQueue).roundInterval)
    (hmass : q.deltaShuffle.mass = 0) (hrateMass : q.deltaShuffle.rateMass = 0)
    {profiles : List Profile} (hne : profiles ≠ [])
    (hpos : ∀ π ∈ profiles, 0 < π.share q.params.deltaRateFloor) (boundary : SimTime) :
    ∃ q' : MpOrbDeltaQueue,
      ({ q.measured profiles with avgRtt } : MpOrbDeltaQueue).handleShuffleTimer boundary = .ok q' ∧
      (∃ deadline, q'.deltaShuffleTimer = some deadline) ∧
      q'.deltaInterval = ({ q with avgRtt } : MpOrbDeltaQueue).roundInterval ∧
      q'.params = q.params ∧
      q'.deltaShuffle.previousMass =
        q.deltaInterval⁻¹ * WeightedMean.total (Profile.share q.params.deltaRateFloor) profiles ∧
      q'.deltaShuffle.previousMeanRate = WeightedMean.mean (Profile.share q.params.deltaRateFloor)
        Profile.connectionRate profiles := by
  have hT' : q.deltaInterval⁻¹ ≠ 0 := (inv_pos.2 hT).ne'
  have hM : (q.measured profiles).deltaShuffle.mass = q.deltaInterval⁻¹ *
      WeightedMean.total (Profile.share q.params.deltaRateFloor) profiles := by
    show q.deltaShuffle.mass + WeightedMean.total q.profileMass profiles = _
    rw [hmass, zero_add]
    exact WeightedMean.total_scale _
  have hR : (q.measured profiles).deltaShuffle.rateMass = q.deltaInterval⁻¹ *
      WeightedMean.moment (Profile.share q.params.deltaRateFloor) Profile.connectionRate
        profiles := by
    show q.deltaShuffle.rateMass + WeightedMean.moment q.profileMass _ profiles = _
    rw [hrateMass, zero_add]
    exact WeightedMean.moment_scale _
  have hbusy : 0 < (q.measured profiles).deltaShuffle.mass :=
    hM ▸ mul_pos (inv_pos.2 hT) (WeightedMean.total_pos hne hpos)
  refine ⟨_, handleShuffleTimer_busy hround hbusy, ⟨_, rfl⟩, rfl, rfl, ?_, ?_⟩
  · simp only [inRound, LinkShuffle.beginRound_busy hbusy, hM]
  · simp only [inRound, LinkShuffle.beginRound_busy hbusy, hM, hR, mul_div_mul_left _ _ hT',
      WeightedMean.mean]

end MpOrbDeltaQueue

/-! ## Corrections -/

theorem correction_eq {q : MpOrbDeltaQueue} {bandwidth : ℚ} {p : Crossing}
    (hsel : p.selectedBottleneck = true) {M mean : ℚ} (hM : q.deltaShuffle.previousMass = M)
    (hMpos : 0 < M) (hmean : q.deltaShuffle.previousMeanRate = mean) (hpos : 0 < mean) :
    (q.tagAfter bandwidth p).correction =
      q.deltaInterval⁻¹ * (q.params.deltaShuffleFraction * bandwidth / M) *
        WeightedMean.deviation (Profile.share q.params.deltaRateFloor) Profile.connectionRate mean
          p.profile := by
  have htag : (q.tagAfter bandwidth p).correction =
      rateCorrection (q.packetMass p.tag p.tcpPayloadBytes) (q.rateAllowance bandwidth)
        p.tag.connectionRate q.deltaShuffle.previousMeanRate := by
    unfold MpOrbDeltaQueue.tagAfter
    rw [hsel]
    rfl
  rw [htag, rateCorrection, hmean, if_pos hpos, MpOrbDeltaQueue.rateAllowance, hM, if_pos hMpos,
    MpOrbDeltaQueue.packetMass_eq, MpOrbDeltaQueue.profileMass, WeightedMean.deviation]
  simp only [Crossing.profile]
  ring

/-- The corrections the tags carry are fair, within a budget. -/
structure FairCorrections (budget : ℚ) (tags : List DeltaShuffleTag) : Prop where
  zeroSum : (tags.map DeltaShuffleTag.correction).sum = 0
  bounded : (tags.map fun tag => max 0 tag.correction).sum ≤ budget
  smallest : ∀ tag ∈ tags, (∀ u ∈ tags, tag.connectionRate ≤ u.connectionRate) →
    0 ≤ tag.correction
  largest : ∀ tag ∈ tags, (∀ u ∈ tags, u.connectionRate ≤ tag.connectionRate) →
    tag.correction ≤ 0
  zero_iff : (∀ tag ∈ tags, tag.correction = 0) ↔
    ∀ tag ∈ tags, ∀ u ∈ tags, tag.connectionRate = u.connectionRate

theorem tagAfter_connectionRate (q : MpOrbDeltaQueue) (bandwidth : ℚ) (p : Crossing) :
    (q.tagAfter bandwidth p).connectionRate = p.tag.connectionRate := by
  unfold MpOrbDeltaQueue.tagAfter
  cases p.selectedBottleneck <;> rfl

section Fairness

variable {q : MpOrbDeltaQueue} {bandwidth T : ℚ} {packets : List Crossing}

theorem fair_of_no_rate {budget : ℚ} (hsel : ∀ p ∈ packets, p.selectedBottleneck = true)
    (hzero : ∀ p ∈ packets, p.tag.connectionRate = 0) (hbudget : 0 ≤ budget)
    (hmean : ¬ 0 < q.deltaShuffle.previousMeanRate) :
    FairCorrections budget (packets.map (q.tagAfter bandwidth)) := by
  have hnone : ∀ tag ∈ packets.map (q.tagAfter bandwidth), tag.correction = 0 := by
    intro tag htag
    obtain ⟨p, hp, rfl⟩ := List.mem_map.1 htag
    unfold MpOrbDeltaQueue.tagAfter DeltaShuffleTag.correction rateCorrection
    rw [hsel p hp]
    exact if_neg hmean
  have hpart : ∀ tag ∈ packets.map (q.tagAfter bandwidth), max 0 tag.correction = 0 :=
    fun tag htag => by rw [hnone tag htag, max_self]
  refine ⟨List.sum_eq_zero (List.forall_mem_map.2 hnone),
    (List.sum_eq_zero (List.forall_mem_map.2 hpart)).trans_le hbudget,
    fun tag htag _ => (hnone tag htag).ge, fun tag htag _ => (hnone tag htag).le,
    fun _ => ?_, fun _ => hnone⟩
  · intro tag htag u hu
    obtain ⟨p, hp, rfl⟩ := List.mem_map.1 htag
    obtain ⟨p', hp', rfl⟩ := List.mem_map.1 hu
    rw [tagAfter_connectionRate, tagAfter_connectionRate, hzero p hp, hzero p' hp']

/-- Corrections that scale the deviations of the population from its mean are fair. -/
theorem fair_of_deviation {w : Profile → ℚ} {c budget : ℚ} (hne : packets ≠ [])
    (hw : ∀ π ∈ packets.map Crossing.profile, 0 < w π)
    (hx : ∀ π ∈ packets.map Crossing.profile, 0 ≤ π.connectionRate)
    (hm : 0 < WeightedMean.mean w Profile.connectionRate (packets.map Crossing.profile))
    (hc : 0 < c) (hbudget : c * WeightedMean.total w (packets.map Crossing.profile) ≤ budget)
    (hcorr : ∀ p ∈ packets, (q.tagAfter bandwidth p).correction =
      c * WeightedMean.deviation w Profile.connectionRate
        (WeightedMean.mean w Profile.connectionRate (packets.map Crossing.profile)) p.profile) :
    FairCorrections budget (packets.map (q.tagAfter bandwidth)) := by
  have hpne : packets.map Crossing.profile ≠ [] := by simpa using hne
  have hmem : ∀ p ∈ packets, p.profile ∈ packets.map Crossing.profile :=
    fun p hp => List.mem_map.2 ⟨p, hp, rfl⟩
  have hrate : ∀ p, (q.tagAfter bandwidth p).connectionRate = p.profile.connectionRate :=
    tagAfter_connectionRate q bandwidth
  refine ⟨?_, ?_, ?_, ?_, ?_⟩
  · have hsum := WeightedMean.sum_deviation hpne hw hm.ne'
    simp only [List.map_map, Function.comp_def] at hsum ⊢
    rw [List.map_congr_left hcorr, List.sum_map_mul_left]
    exact mul_eq_zero_of_right c hsum
  · have hscale : ∀ p ∈ packets, max 0 (q.tagAfter bandwidth p).correction = c * max 0
        (WeightedMean.deviation w Profile.connectionRate
          (WeightedMean.mean w Profile.connectionRate (packets.map Crossing.profile))
          p.profile) := by
      intro p hp
      rw [hcorr p hp, mul_max_of_nonneg _ _ hc.le, mul_zero]
    have hpart := WeightedMean.sum_pos_deviation_le hm hw hx
    simp only [List.map_map, Function.comp_def] at hpart ⊢
    rw [List.map_congr_left hscale, List.sum_map_mul_left]
    exact (mul_le_mul_of_nonneg_left hpart hc.le).trans hbudget
  · rw [List.forall_mem_map]
    intro p hp hall
    rw [List.forall_mem_map] at hall
    simp only [hrate] at hall
    have hle := WeightedMean.le_mean (x := Profile.connectionRate) hpne hw
      (List.forall_mem_map.2 hall)
    rw [hcorr p hp]
    exact mul_nonneg hc.le ((WeightedMean.deviation_nonneg_iff hm (hw _ (hmem p hp))).2 hle)
  · rw [List.forall_mem_map]
    intro p hp hall
    rw [List.forall_mem_map] at hall
    simp only [hrate] at hall
    have hge := WeightedMean.mean_le (x := Profile.connectionRate) hpne hw
      (List.forall_mem_map.2 hall)
    rw [hcorr p hp]
    exact mul_nonpos_of_nonneg_of_nonpos hc.le
      ((WeightedMean.deviation_nonpos_iff hm (hw _ (hmem p hp))).2 hge)
  · have hiff := WeightedMean.deviations_eq_zero_iff (x := Profile.connectionRate) hpne hw hm
    simp only [List.forall_mem_map] at hiff ⊢
    simp only [hrate]
    rw [← hiff]
    refine forall₂_congr fun p hp => ?_
    rw [hcorr p hp, mul_eq_zero, or_iff_right hc.ne']

/-- Feedback from a population with the same profiles makes fair corrections. -/
theorem fairCorrections (hB : 0 < bandwidth) (hon : 0 < q.params.deltaShuffleFraction)
    (hne : packets ≠ []) (hvalid : ∀ p ∈ packets, p.Valid)
    (hsel : ∀ p ∈ packets, p.selectedBottleneck = true) (hT : 0 < T) (hT' : 0 < q.deltaInterval)
    (hM : q.deltaShuffle.previousMass = T⁻¹ * WeightedMean.total
      (Profile.share q.params.deltaRateFloor) (packets.map Crossing.profile))
    (hmean : q.deltaShuffle.previousMeanRate = WeightedMean.mean
      (Profile.share q.params.deltaRateFloor) Profile.connectionRate
        (packets.map Crossing.profile)) :
    FairCorrections (q.params.deltaShuffleFraction * bandwidth * T / q.deltaInterval)
      (packets.map (q.tagAfter bandwidth)) := by
  set w := Profile.share q.params.deltaRateFloor with hw
  set profiles := packets.map Crossing.profile with hprofiles
  have hpne : profiles ≠ [] := by simpa [hprofiles] using hne
  have hwpos : ∀ π ∈ profiles, 0 < w π := by
    intro π hπ
    obtain ⟨p, hp, rfl⟩ := List.mem_map.1 hπ
    exact Profile.share_pos q.params.floor_pos (hvalid p hp)
  have hxnonneg : ∀ π ∈ profiles, 0 ≤ π.connectionRate := by
    intro π hπ
    obtain ⟨p, hp, rfl⟩ := List.mem_map.1 hπ
    exact (hvalid p hp).subflowRate.trans (hvalid p hp).connectionRate
  have hSpos : 0 < WeightedMean.total w profiles := WeightedMean.total_pos hpne hwpos
  have hbudget : 0 ≤ q.params.deltaShuffleFraction * bandwidth * T / q.deltaInterval := by
    positivity
  by_cases hpos : 0 < q.deltaShuffle.previousMeanRate
  · have hmpos : 0 < WeightedMean.mean w Profile.connectionRate profiles := hmean ▸ hpos
    obtain ⟨c, hc⟩ : ∃ c, c = q.deltaInterval⁻¹ * (q.params.deltaShuffleFraction * bandwidth /
      (T⁻¹ * WeightedMean.total w profiles)) := ⟨_, rfl⟩
    have hcpos : 0 < c := by rw [hc]; positivity
    have hcS : c * WeightedMean.total w profiles =
        q.params.deltaShuffleFraction * bandwidth * T / q.deltaInterval := by
      rw [hc]
      field_simp
    have hcorr : ∀ p ∈ packets, (q.tagAfter bandwidth p).correction =
        c * WeightedMean.deviation w Profile.connectionRate
          (WeightedMean.mean w Profile.connectionRate profiles) p.profile := by
      intro p hp
      rw [hc]
      exact correction_eq (hsel p hp) hM (by positivity) hmean hmpos
    exact fair_of_deviation hne hwpos hxnonneg hmpos hcpos hcS.le hcorr
  · have hzero : ∀ p ∈ packets, p.tag.connectionRate = 0 := by
      have hall := WeightedMean.eq_zero_of_mean_nonpos hpne hwpos hxnonneg
        (hmean ▸ not_lt.1 hpos)
      exact fun p hp => hall p.profile (List.mem_map.2 ⟨p, hp, rfl⟩)
    exact fair_of_no_rate hsel hzero hbudget hpos

end Fairness

/-- **Fairness corrections are zero-sum and bounded.**  A population crosses the queue in the round
that ends at `boundary`; in the next round, whose interval may differ, packets with the same
profiles take the feedback back, in any order. -/
theorem corrections_zero_sum (q : MpOrbDeltaQueue) {bandwidth : ℚ} (hB : 0 < bandwidth)
    (hon : 0 < q.params.deltaShuffleFraction) {avgRtt : SimTime} (hT : 0 < q.packetInterval)
    (hT' : 0 < ({ q with avgRtt } : MpOrbDeltaQueue).roundInterval)
    (hempty : q.deltaShuffle.mass = 0 ∧ q.deltaShuffle.rateMass = 0) {first second : List Crossing}
    (hne : first ≠ []) (hfirst : ∀ p ∈ first, p.Valid) (hsecond : ∀ p ∈ second, p.Valid)
    (hsel : ∀ p ∈ second, p.selectedBottleneck = true)
    (hsame : (second.map Crossing.profile).Perm (first.map Crossing.profile))
    (boundary : SimTime) :
    ∃ q₁ q₂ q₃ tags₁ tags, q.cross bandwidth first = .ok (q₁, tags₁) ∧
      ({ q₁ with avgRtt } : MpOrbDeltaQueue).handleShuffleTimer boundary = .ok q₂ ∧
      q₂.cross bandwidth second = .ok (q₃, tags) ∧
      tags.map (·.connectionRate) = second.map (·.tag.connectionRate) ∧
      q₁.deltaInterval = q.packetInterval ∧
      q₂.deltaInterval = ({ q with avgRtt } : MpOrbDeltaQueue).roundInterval ∧
      FairCorrections (q.params.deltaShuffleFraction * bandwidth * q₁.deltaInterval /
        q₂.deltaInterval) tags := by
  obtain ⟨q₀, hbegin, ⟨deadline, htimer⟩, hinterval, hparams, hround, hmass, hrateMass⟩ :=
    q.cross_begins bandwidth hon hT (fun _ => hempty) hne hfirst
  rw [hbegin]
  rw [hempty.1] at hmass
  rw [hempty.2] at hrateMass
  rw [← hparams] at hon
  rw [← hinterval] at hT
  rw [← hround avgRtt] at hT'
  have hpne : first.map Crossing.profile ≠ [] := by simpa using hne
  have hpos : ∀ π ∈ first.map Crossing.profile, 0 < π.share q₀.params.deltaRateFloor :=
    List.forall_mem_map.2 fun p hp => Profile.share_pos q₀.params.floor_pos (hfirst p hp)
  obtain ⟨q₂, hboundary, ⟨deadline', htimer'⟩, hinterval', hparams', hM, hmean⟩ :=
    q₀.boundary_population hT hT' hmass hrateMass hpne hpos boundary
  rw [← WeightedMean.total_perm hsame, ← hparams'] at hM
  rw [← WeightedMean.mean_perm hsame, ← hparams'] at hmean
  rw [← hinterval'] at hT'
  have hsne : second ≠ [] := by
    rintro rfl
    exact hpne hsame.symm.eq_nil
  refine ⟨_, q₂, _, _, _, MpOrbDeltaQueue.cross_open hon htimer hfirst, hboundary,
    MpOrbDeltaQueue.cross_open (hparams' ▸ hon) htimer' hsecond, ?_, hinterval,
    hinterval'.trans (hround avgRtt), ?_⟩
  · simp only [List.map_map, Function.comp_def, tagAfter_connectionRate]
  · have hfair := fairCorrections hB (hparams' ▸ hon) hsne hsecond hsel hT hT' hM hmean
    rw [hparams', hparams] at hfair
    exact hfair

/-- A segment of the slower connection and one of the faster. -/
def unequalSegments : List Crossing :=
  [⟨1 / 100, segmentTag, 1448, true⟩,
    ⟨2 / 100, { subflowRate := 2000, connectionRate := 9000, serial := 1 }, 1448, true⟩]

/-- The second round is half as long and sees the segments in the other order. -/
theorem corrections_two_connections :
    ∃ q₁ q₂ q₃ tags₁ tags, measuringQueue.cross 125000 unequalSegments = .ok (q₁, tags₁) ∧
      ({ q₁ with avgRtt := 1 / 20 } : MpOrbDeltaQueue).handleShuffleTimer (11 / 100) = .ok q₂ ∧
      q₂.cross 125000 unequalSegments.reverse = .ok (q₃, tags) ∧
      tags.map (·.connectionRate) = unequalSegments.reverse.map (·.tag.connectionRate) ∧
      q₁.deltaInterval = measuringQueue.packetInterval ∧
      q₂.deltaInterval =
        ({ measuringQueue with avgRtt := 1 / 20 } : MpOrbDeltaQueue).roundInterval ∧
      FairCorrections (measuringQueue.params.deltaShuffleFraction * 125000 * q₁.deltaInterval /
        q₂.deltaInterval) tags :=
  corrections_zero_sum measuringQueue (by decide +kernel) (by decide +kernel) (by decide +kernel)
    (by decide +kernel) ⟨rfl, rfl⟩ (by decide) (by decide +kernel) (by decide +kernel)
    (by decide) (by decide +kernel) (11 / 100)

end MpOrb
