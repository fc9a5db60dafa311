import MpOrb.DeltaLedger
import MpOrb.DeltaPacketisation
import MpOrb.Lib.Contraction
import Mathlib.Tactic.LinearCombination

/-!
# The Delta loop evens out the rates of connections

Connections with the same number of subflows at a bottleneck send at their nominal rates, round
after round, next to any other traffic.  Their senders take the feedback on the packets of a round,
and the whole bytes they spend on Alpha's windows move the rates; whatever else moves a rate, and
what a clamped window drops of these bytes, is its drift.

* `SteeredSubflow` — a subflow and the run of its sender; `addedRate_eq` — the sender spends what
  the tags of the packets say, up to what stays pending.
* `PopulationRound` — a round: all packets that cross, and the subflows of the connections.
* `correction_sub` — the corrections of two connections differ by a part of the difference of their
  rates.
* `Ready` — a queue at the start of a round that follows a busy one; `Ready.next_eq` — what the code
  makes of the round, `PopulationRound.Step.ready` — the next one starts ready.
* `Loop` — consecutive rounds of a queue.
* `rates_converge` — the difference of two rates shrinks geometrically, down to what the drift makes
  of it, and without drift two rates never change places.
-/

set_option autoImplicit false

namespace MpOrb

variable {α ι : Type} {alpha : Alpha α} {q q' : MpOrbDeltaQueue} {bandwidth : ℚ}

/-! ## What a sender makes of a round -/

/-- An accepted correction and the round-trip time it is taken at. -/
def LedgerEntry.feedback : LedgerEntry → Option (ℚ × SimTime)
  | .accepted correction srtt => some (correction, srtt)
  | .window _ => none

theorem sum_credited (ledger : List LedgerEntry) :
    (ledger.map LedgerEntry.credited).sum =
      ((ledger.filterMap LedgerEntry.feedback).map fun taken => taken.1 * max 0 taken.2).sum := by
  induction ledger with
  | nil => rfl
  | cons entry rest ih =>
    cases entry with
    | accepted correction srtt =>
      have htaken : (LedgerEntry.accepted correction srtt).feedback = some (correction, srtt) := rfl
      rw [List.filterMap_cons_some htaken, List.map_cons, List.map_cons, List.sum_cons,
        List.sum_cons, ih]
      rfl
    | window call =>
      have hnone : (LedgerEntry.window call).feedback = none := rfl
      rw [List.filterMap_cons_none hnone, List.map_cons, List.sum_cons, ih]
      exact zero_add _

/-- A subflow of a round and a run of its sender that takes the feedback on all its packets, in any
order, at one round-trip time. -/
structure SteeredSubflow (alpha : Alpha α) (q : MpOrbDeltaQueue) (bandwidth : ℚ) where
  flow : SteadySubflow q.params.deltaRateFloor q.deltaInterval
  sender : MpOrbDelta α
  events : List (SenderEvent α)
  srtt : SimTime
  positive : 0 < srtt
  feedback : ((Machine.run (senderStep alpha) sender events).2.filterMap LedgerEntry.feedback).Perm
    (flow.packets.map fun p => ((q.tagAfter bandwidth p).correction, srtt))

namespace SteeredSubflow

variable (s : SteeredSubflow alpha q bandwidth)

def correction : ℚ := (s.flow.packets.map fun p => (q.tagAfter bandwidth p).correction).sum

/-- The whole bytes that the run spends on Alpha's windows, as a rate. -/
def addedRate : ℚ :=
  ((Machine.run (senderStep alpha) s.sender s.events).2.map LedgerEntry.consumed).sum / s.srtt

/-- What the pending bytes of the sender change, as a rate. -/
def heldRate : ℚ :=
  ((Machine.run (senderStep alpha) s.sender s.events).1.pendingShuffleBytes -
    s.sender.pendingShuffleBytes) / s.srtt

/-- **The sender spends what the tags say**, up to what stays pending. -/
theorem addedRate_eq : s.addedRate = s.correction - s.heldRate := by
  have hbalance := Machine.run_balance (fun _ => True) (fun _ _ _ => trivial)
    MpOrbDelta.pendingShuffleBytes LedgerEntry.consumed LedgerEntry.credited
    (fun d e _ => senderStep_balance alpha d e) trivial (s := s.sender) s.events
  have hcredited : ((Machine.run (senderStep alpha) s.sender s.events).2.map
      LedgerEntry.credited).sum = s.correction * s.srtt := by
    rw [sum_credited, (s.feedback.map _).sum_eq, List.map_map]
    simp only [Function.comp_def, max_eq_right s.positive.le]
    exact List.sum_map_mul_right _ _ _
  rw [hcredited] at hbalance
  have hsrtt : s.srtt ≠ 0 := s.positive.ne'
  rw [addedRate, heldRate, eq_sub_iff_add_eq, ← add_div, div_eq_iff hsrtt]
  linarith

end SteeredSubflow

/-! ## The corrections of a round -/

/-- The packets of a round and, for each connection, its subflows. -/
structure PopulationRound (ι : Type) (alpha : Alpha α) (q : MpOrbDeltaQueue) (bandwidth : ℚ) where
  packets : List Crossing
  subflows : ι → List (SteeredSubflow alpha q bandwidth)

/-- The rate mass that a round hands to the next one. -/
def fedRateMass (q : MpOrbDeltaQueue) : ℚ :=
  q.deltaShuffle.previousMass * q.deltaShuffle.previousMeanRate

namespace PopulationRound

variable (round : PopulationRound ι alpha q bandwidth)

def correction (i : ι) : ℚ := ((round.subflows i).map SteeredSubflow.correction).sum

def addedRate (i : ι) : ℚ := ((round.subflows i).map SteeredSubflow.addedRate).sum

def heldRate (i : ι) : ℚ := ((round.subflows i).map SteeredSubflow.heldRate).sum

theorem addedRate_eq (i : ι) : round.addedRate i = round.correction i - round.heldRate i := by
  unfold addedRate correction heldRate
  induction round.subflows i with
  | nil => simp
  | cons s rest ih =>
    simp only [List.map_cons, List.sum_cons, ih, s.addedRate_eq]
    ring

def rateMass : ℚ :=
  q.deltaInterval⁻¹ * WeightedMean.moment (Profile.share q.params.deltaRateFloor)
    Profile.connectionRate (round.packets.map Crossing.profile)

end PopulationRound

theorem tagAfter_correction {p : Crossing} (hsel : p.selectedBottleneck = true) :
    (q.tagAfter bandwidth p).correction =
      rateCorrection (q.packetMass p.tag p.tcpPayloadBytes) (q.rateAllowance bandwidth)
        p.tag.connectionRate q.deltaShuffle.previousMeanRate := by
  unfold MpOrbDeltaQueue.tagAfter
  rw [hsel]
  rfl

theorem SteadySubflow.sum_packetMass (hT : 0 < q.deltaInterval)
    (flow : SteadySubflow q.params.deltaRateFloor q.deltaInterval) :
    (flow.packets.map fun p => q.packetMass p.tag p.tcpPayloadBytes).sum = 1 := by
  have hfloor : max flow.subflowRate q.params.deltaRateFloor ≠ 0 :=
    (lt_max_of_lt_right q.params.floor_pos).ne'
  have hmass : ∀ p ∈ flow.packets, q.packetMass p.tag p.tcpPayloadBytes =
      q.deltaInterval⁻¹ * ((p.tcpPayloadBytes : ℚ) *
        (max p.rates.1 q.params.deltaRateFloor)⁻¹) := by
    intro p _
    rw [MpOrbDeltaQueue.packetMass_eq]
    rfl
  rw [List.map_congr_left hmass, List.sum_map_mul_left,
    flow.sum_perByte fun rates => (max rates.1 q.params.deltaRateFloor)⁻¹,
    mul_inv_cancel₀ hfloor, mul_one, inv_mul_cancel₀ hT.ne']

/-- **A subflow takes the allowance in proportion to the relative distance of its connection from
the mean.** -/
theorem SteeredSubflow.correction_eq (hT : 0 < q.deltaInterval)
    (hmean : 0 < q.deltaShuffle.previousMeanRate) (s : SteeredSubflow alpha q bandwidth)
    (hsel : ∀ p ∈ s.flow.packets, p.selectedBottleneck = true) :
    s.correction = q.rateAllowance bandwidth *
      (1 - s.flow.connectionRate / q.deltaShuffle.previousMeanRate) := by
  have hterm : ∀ p ∈ s.flow.packets, (q.tagAfter bandwidth p).correction =
      q.packetMass p.tag p.tcpPayloadBytes * (q.rateAllowance bandwidth *
        (1 - s.flow.connectionRate / q.deltaShuffle.previousMeanRate)) := by
    intro p hp
    have hrate : p.tag.connectionRate = s.flow.connectionRate :=
      congrArg Prod.snd (s.flow.rates p hp)
    rw [tagAfter_correction (hsel p hp), rateCorrection, if_pos hmean, hrate, mul_assoc]
  unfold SteeredSubflow.correction
  rw [List.map_congr_left hterm, List.sum_map_mul_right, s.flow.sum_packetMass hT, one_mul]

/-! ## Consecutive rounds -/

/-- Bounds on the rate masses of the rounds. -/
structure Load where
  lowest : ℚ
  highest : ℚ

/-- A queue at the start of a round that follows a busy one. -/
structure Ready (load : Load) (q : MpOrbDeltaQueue) : Prop where
  enabled : 0 < q.params.deltaShuffleFraction
  initialRtt : 0 < q.pintInitialRtt
  opened : ∃ deadline, q.deltaShuffleTimer = some deadline
  frozen : 0 < q.deltaInterval
  cleared : q.deltaShuffle.mass = 0 ∧ q.deltaShuffle.rateMass = 0
  fed : 0 < q.deltaShuffle.previousMass
  lowest : load.lowest ≤ fedRateMass q
  highest : fedRateMass q ≤ load.highest

/-- The queue after the packets of a round and its boundary. -/
def nextQueue (q : MpOrbDeltaQueue) (packets : List Crossing) (avgRtt boundary : SimTime) :
    MpOrbDeltaQueue :=
  ({ q.measured (packets.map Crossing.profile) with
    avgRtt, deltaShuffleTimer := none } : MpOrbDeltaQueue).inRound boundary

section Ready

variable {load : Load} {packets : List Crossing}

theorem Ready.measured_mass (hready : Ready load q) (hne : packets ≠ [])
    (hvalid : ∀ p ∈ packets, p.Valid) :
    0 < (q.measured (packets.map Crossing.profile)).deltaShuffle.mass := by
  have hshare : ∀ π ∈ packets.map Crossing.profile, 0 < π.share q.params.deltaRateFloor := by
    intro π hπ
    obtain ⟨p, hp, rfl⟩ := List.mem_map.1 hπ
    exact Profile.share_pos q.params.floor_pos (hvalid p hp)
  have hmass : (q.measured (packets.map Crossing.profile)).deltaShuffle.mass = q.deltaInterval⁻¹ *
      WeightedMean.total (Profile.share q.params.deltaRateFloor)
        (packets.map Crossing.profile) := by
    show q.deltaShuffle.mass + WeightedMean.total q.profileMass _ = _
    rw [hready.cleared.1, zero_add]
    exact WeightedMean.total_scale _
  rw [hmass]
  exact mul_pos (inv_pos.2 hready.frozen)
    (WeightedMean.total_pos (mt List.map_eq_nil_iff.1 hne) hshare)

theorem Ready.measured_rateMass (hready : Ready load q)
    (round : PopulationRound ι alpha q bandwidth) :
    (q.measured (round.packets.map Crossing.profile)).deltaShuffle.rateMass = round.rateMass := by
  show q.deltaShuffle.rateMass + WeightedMean.moment q.profileMass _ _ = _
  rw [hready.cleared.2, zero_add]
  exact WeightedMean.moment_scale _

theorem Ready.next_eq (hready : Ready load q) (hne : packets ≠ [])
    (hvalid : ∀ p ∈ packets, p.Valid) (bandwidth : ℚ) (avgRtt boundary : SimTime) :
    0 < (q.measured (packets.map Crossing.profile)).deltaShuffle.mass ∧
      q.cross bandwidth packets =
        .ok (q.measured (packets.map Crossing.profile), packets.map (q.tagAfter bandwidth)) ∧
      ({ q.measured (packets.map Crossing.profile) with
        avgRtt } : MpOrbDeltaQueue).handleShuffleTimer boundary =
          .ok (nextQueue q packets avgRtt boundary) := by
  obtain ⟨deadline, htimer⟩ := hready.opened
  have hmass := hready.measured_mass hne hvalid
  exact ⟨hmass, MpOrbDeltaQueue.cross_open hready.enabled htimer hvalid,
    MpOrbDeltaQueue.handleShuffleTimer_busy
      (MpOrbDeltaQueue.roundInterval_pos hready.initialRtt) hmass⟩

end Ready

/-- A round of connections with `count` subflows each, which ends at `boundary` with the round-trip
estimate `avgRtt`, and the rates after it.  The drift of a rate is what moves it besides the bytes
the senders spend, with the bytes they keep pending. -/
structure PopulationRound.Step (load : Load) (drift : ℚ) (count : ℕ)
    (round : PopulationRound ι alpha q bandwidth) (rate rate' : ι → ℚ)
    (q' : MpOrbDeltaQueue) : Prop where
  busy : round.packets ≠ []
  valid : ∀ p ∈ round.packets, p.Valid
  crosses : ∀ i, ∀ s ∈ round.subflows i, ∀ p ∈ s.flow.packets,
    p ∈ round.packets ∧ p.selectedBottleneck = true
  count : ∀ i, (round.subflows i).length = count
  rates : ∀ i, ∀ s ∈ round.subflows i, s.flow.connectionRate = rate i
  lowest : load.lowest ≤ round.rateMass
  highest : round.rateMass ≤ load.highest
  next : ∃ crossed tags avgRtt boundary, q.cross bandwidth round.packets = .ok (crossed, tags) ∧
    ({ crossed with avgRtt } : MpOrbDeltaQueue).handleShuffleTimer boundary = .ok q'
  drift : ∀ i, |rate' i - (rate i + round.addedRate i)| + |round.heldRate i| ≤ drift

section Rounds

variable {load : Load} {drift : ℚ} {count : ℕ}
  {round : PopulationRound ι alpha q bandwidth} {rate rate' : ι → ℚ}

/-- **The next round is ready, with the totals of this one.** -/
theorem PopulationRound.Step.ready (h : round.Step load drift count rate rate' q')
    (hready : Ready load q) : Ready load q' ∧ q'.params = q.params := by
  obtain ⟨crossed, tags, avgRtt, boundary, hcross, hnext⟩ := h.next
  obtain ⟨hmass, hcross', hnext'⟩ :=
    hready.next_eq h.busy h.valid bandwidth avgRtt boundary
  cases hcross.symm.trans hcross'
  cases hnext.symm.trans hnext'
  have hbegun := LinkShuffle.beginRound_busy hmass
  have hfed : fedRateMass (nextQueue q round.packets avgRtt boundary) = round.rateMass := by
    simp only [fedRateMass, nextQueue, MpOrbDeltaQueue.inRound, hbegun]
    rw [mul_div_cancel₀ _ hmass.ne']
    exact hready.measured_rateMass round
  refine ⟨⟨hready.enabled, hready.initialRtt, ⟨_, rfl⟩,
    MpOrbDeltaQueue.roundInterval_pos hready.initialRtt, ?_, ?_, ?_, ?_⟩, rfl⟩
  · simp only [nextQueue, MpOrbDeltaQueue.inRound, hbegun, and_self]
  · simp only [nextQueue, MpOrbDeltaQueue.inRound, hbegun]
    exact hmass
  · exact hfed ▸ h.lowest
  · exact hfed ▸ h.highest

/-- What a round takes from the difference of two rates. -/
def gain (q : MpOrbDeltaQueue) (bandwidth : ℚ) (count : ℕ) : ℚ :=
  count * (q.params.deltaShuffleFraction * bandwidth) / fedRateMass q

theorem Ready.mean_pos (hready : Ready load q) (hlow : 0 < load.lowest) :
    0 < q.deltaShuffle.previousMeanRate := by
  have hfed : 0 < fedRateMass q := hlow.trans_le hready.lowest
  exact (pos_iff_pos_of_mul_pos hfed).1 hready.fed

theorem Ready.lowest_pos (hready : Ready load q) (hB : 0 < bandwidth) (hcount : 0 < count)
    (hlow : count * (q.params.deltaShuffleFraction * bandwidth) ≤ load.lowest) :
    0 < load.lowest :=
  (mul_pos (Nat.cast_pos.2 hcount) (mul_pos hready.enabled hB)).trans_le hlow

/-- **The corrections of two connections differ by a part of the difference of their rates.** -/
theorem correction_sub (h : round.Step load drift count rate rate' q')
    (hready : Ready load q) (hlow : 0 < load.lowest) (i j : ι) :
    round.correction i - round.correction j =
      -(gain q bandwidth count * (rate i - rate j)) := by
  have hmean := hready.mean_pos hlow
  have hone : ∀ i, round.correction i = count * (q.rateAllowance bandwidth *
      (1 - rate i / q.deltaShuffle.previousMeanRate)) := by
    intro i
    have hflow : ∀ s ∈ round.subflows i, s.correction =
        q.rateAllowance bandwidth * (1 - rate i / q.deltaShuffle.previousMeanRate) := by
      intro s hs
      rw [s.correction_eq hready.frozen hmean fun p hp => (h.crosses i s hs p hp).2,
        h.rates i s hs]
    unfold PopulationRound.correction
    rw [List.map_congr_left hflow, List.map_const', List.sum_replicate, h.count, nsmul_eq_mul]
  have hallowance : q.rateAllowance bandwidth =
      q.params.deltaShuffleFraction * bandwidth / q.deltaShuffle.previousMass := by
    unfold MpOrbDeltaQueue.rateAllowance
    rw [if_pos hready.fed]
  have hmass := hready.fed.ne'
  rw [hone i, hone j, hallowance]
  unfold gain fedRateMass
  field_simp
  ring

/-- The gain of a loaded queue never turns a difference around. -/
theorem gain_mem (hready : Ready load q) (hB : 0 < bandwidth) (hcount : 0 < count)
    (hlow : count * (q.params.deltaShuffleFraction * bandwidth) ≤ load.lowest) :
    count * (q.params.deltaShuffleFraction * bandwidth) / load.highest ≤ gain q bandwidth count ∧
      gain q bandwidth count ≤ 1 := by
  have hpart : 0 < count * (q.params.deltaShuffleFraction * bandwidth) :=
    mul_pos (Nat.cast_pos.2 hcount) (mul_pos hready.enabled hB)
  have hfed : 0 < fedRateMass q := (hready.lowest_pos hB hcount hlow).trans_le hready.lowest
  exact ⟨div_le_div_of_nonneg_left hpart.le hfed hready.highest,
    (div_le_one hfed).2 (hlow.trans hready.lowest)⟩

/-- A rate moves by the corrections on the packets, up to the drift. -/
theorem abs_rate_sub_correction (h : round.Step load drift count rate rate' q') (i : ι) :
    |rate' i - (rate i + round.correction i)| ≤ drift := by
  have hsplit : rate' i - (rate i + round.correction i) =
      (rate' i - (rate i + round.addedRate i)) - round.heldRate i := by
    rw [round.addedRate_eq]
    ring
  rw [hsplit]
  exact (abs_sub _ _).trans (h.drift i)

theorem rate_sub (h : round.Step load drift count rate rate' q')
    (hready : Ready load q) (hlow : 0 < load.lowest) (i j : ι) :
    |rate' i - rate' j - (1 - gain q bandwidth count) * (rate i - rate j)| ≤ 2 * drift := by
  have hsub := correction_sub h hready hlow i j
  have hi := abs_le.1 (abs_rate_sub_correction h i)
  have hj := abs_le.1 (abs_rate_sub_correction h j)
  have hrest : rate' i - rate' j - (1 - gain q bandwidth count) * (rate i - rate j) =
      (rate' i - (rate i + round.correction i)) -
        (rate' j - (rate j + round.correction j)) := by
    linear_combination hsub
  rw [hrest, abs_le]
  constructor <;> linarith [hi.1, hi.2, hj.1, hj.2]

/-- **A round shrinks the difference of two rates.** -/
theorem abs_rate_sub_le (h : round.Step load drift count rate rate' q')
    (hready : Ready load q) (hB : 0 < bandwidth) (hcount : 0 < count)
    (hlow : count * (q.params.deltaShuffleFraction * bandwidth) ≤ load.lowest) (i j : ι) :
    |rate' i - rate' j| ≤
      (1 - count * (q.params.deltaShuffleFraction * bandwidth) / load.highest) *
        |rate i - rate j| + 2 * drift := by
  obtain ⟨hgain, hone⟩ := gain_mem hready hB hcount hlow
  have hrest := rate_sub h hready (hready.lowest_pos hB hcount hlow) i j
  have hpart : |(1 - gain q bandwidth count) * (rate i - rate j)| ≤
      (1 - count * (q.params.deltaShuffleFraction * bandwidth) / load.highest) *
        |rate i - rate j| := by
    rw [abs_mul, abs_of_nonneg (sub_nonneg.2 hone)]
    exact mul_le_mul_of_nonneg_right (sub_le_sub_left hgain 1) (abs_nonneg _)
  have hsplit := abs_sub_abs_le_abs_sub (rate' i - rate' j)
    ((1 - gain q bandwidth count) * (rate i - rate j))
  linarith

theorem rate_le (h : round.Step load 0 count rate rate' q')
    (hready : Ready load q) (hB : 0 < bandwidth) (hcount : 0 < count)
    (hlow : count * (q.params.deltaShuffleFraction * bandwidth) ≤ load.lowest) {i j : ι}
    (hle : rate i ≤ rate j) : rate' i ≤ rate' j := by
  have hone := (gain_mem hready hB hcount hlow).2
  have hrest := rate_sub h hready (hready.lowest_pos hB hcount hlow) i j
  rw [mul_zero, abs_nonpos_iff] at hrest
  have hpart : (1 - gain q bandwidth count) * (rate i - rate j) ≤ 0 :=
    mul_nonpos_of_nonneg_of_nonpos (sub_nonneg.2 hone) (sub_nonpos.2 hle)
  linarith

end Rounds

/-! ## Runs -/

/-- Consecutive rounds of a queue and the rates at the start of each. -/
structure Loop (ι : Type) (alpha : Alpha α) (load : Load) (bandwidth drift : ℚ)
    (count n : ℕ) where
  queue : ℕ → MpOrbDeltaQueue
  rate : ℕ → ι → ℚ
  round : ∀ k, PopulationRound ι alpha (queue k) bandwidth
  step : ∀ k < n, (round k).Step load drift count (rate k) (rate (k + 1)) (queue (k + 1))

section Runs

variable {load : Load} {drift : ℚ} {count n : ℕ}

theorem Loop.ready (loop : Loop ι alpha load bandwidth drift count n)
    (hstart : Ready load (loop.queue 0)) {k : ℕ} (hk : k ≤ n) :
    Ready load (loop.queue k) ∧ (loop.queue k).params = (loop.queue 0).params := by
  induction k with
  | zero => exact ⟨hstart, rfl⟩
  | succ k ih =>
    obtain ⟨hready, hparams⟩ := ih (Nat.le_of_succ_le hk)
    obtain ⟨hnext, hsame⟩ := (loop.step k hk).ready hready
    exact ⟨hnext, hsame.trans hparams⟩

/-- **The rates of connections converge.**  The difference of two rates shrinks geometrically, down
to what the drift makes of it; without drift the order of the rates stays as it is. -/
theorem rates_converge (loop : Loop ι alpha load bandwidth drift count n)
    (hstart : Ready load (loop.queue 0)) (hB : 0 < bandwidth) (hcount : 0 < count)
    (hdrift : 0 ≤ drift)
    (hlow : count * ((loop.queue 0).params.deltaShuffleFraction * bandwidth) ≤ load.lowest)
    (i j : ι) :
    |loop.rate n i - loop.rate n j| ≤
      Contraction.bound
        (1 - count * ((loop.queue 0).params.deltaShuffleFraction * bandwidth) / load.highest)
        (2 * drift) |loop.rate 0 i - loop.rate 0 j| n ∧
      (drift = 0 → loop.rate 0 i ≤ loop.rate 0 j → loop.rate n i ≤ loop.rate n j) := by
  obtain ⟨hgain, hone⟩ := gain_mem hstart hB hcount hlow
  have hhighest : 0 < load.highest :=
    (hstart.lowest_pos hB hcount hlow).trans_le (hstart.lowest.trans hstart.highest)
  have hpart : 0 < count * ((loop.queue 0).params.deltaShuffleFraction * bandwidth) :=
    mul_pos (Nat.cast_pos.2 hcount) (mul_pos hstart.enabled hB)
  have hlow' : ∀ k ≤ n,
      count * ((loop.queue k).params.deltaShuffleFraction * bandwidth) ≤ load.lowest := by
    intro k hk
    rw [(loop.ready hstart hk).2]
    exact hlow
  refine ⟨?_, ?_⟩
  · have hstep : ∀ k < n, |loop.rate (k + 1) i - loop.rate (k + 1) j| ≤
        (1 - count * ((loop.queue 0).params.deltaShuffleFraction * bandwidth) / load.highest) *
          |loop.rate k i - loop.rate k j| + 2 * drift := by
      intro k hk
      obtain ⟨hready, hparams⟩ := loop.ready hstart hk.le
      rw [← hparams]
      exact abs_rate_sub_le (loop.step k hk) hready hB hcount (hlow' k hk.le) i j
    exact Contraction.run_le (a := fun k => |loop.rate k i - loop.rate k j|)
      (sub_nonneg.2 (hgain.trans hone)) (sub_lt_self 1 (div_pos hpart hhighest))
      (mul_nonneg zero_le_two hdrift) hstep
  · rintro rfl hle
    have hall : ∀ k ≤ n, loop.rate k i ≤ loop.rate k j := by
      intro k hk
      induction k with
      | zero => exact hle
      | succ k ih =>
        exact rate_le (loop.step k hk) (loop.ready hstart (Nat.le_of_succ_le hk)).1 hB hcount
          (hlow' k (Nat.le_of_succ_le hk)) (ih (Nat.le_of_succ_le hk))
    exact hall n le_rfl

end Runs

/-! ### Two connections -/

/-- The segment of a subflow at ten times its payload per second. -/
def steadySegment (arrival : SimTime) (bytes : ℕ) : Crossing :=
  ⟨arrival, { subflowRate := 10 * bytes, connectionRate := 10 * bytes, serial := 1 }, bytes, true⟩

/-- One segment a round, whose echo comes back before a commit. -/
def segmentFlow (q : MpOrbDeltaQueue) (arrival : SimTime) (bytes : ℕ)
    (hpayload : (bytes : ℚ) = max (10 * bytes : ℚ) q.params.deltaRateFloor * q.deltaInterval)
    (hfeedback : ((Machine.run (senderStep steadyAlpha) freshSender
      [.feedback (some (q.tagAfter 125000 (steadySegment arrival bytes)).echo)
        [⟨q.nodeId, 125000, .fin (9 / 10), arrival, 0, 3, 3, false⟩],
        .compute (.fin (9 / 10)) true]).2.filterMap LedgerEntry.feedback) =
      [((q.tagAfter 125000 (steadySegment arrival bytes)).correction, 1 / 10)]) :
    SteeredSubflow steadyAlpha q 125000 where
  flow :=
    { subflowRate := 10 * bytes
      connectionRate := 10 * bytes
      packets := [steadySegment arrival bytes]
      rates := List.forall_mem_singleton.2 rfl
      payload := by simpa [steadySegment] using hpayload }
  sender := freshSender
  events := _
  srtt := 1 / 10
  positive := by decide +kernel
  feedback := .of_eq hfeedback

/-- A round of two connections with a subflow each. -/
def pairRound (s s' : SteeredSubflow alpha q bandwidth) : PopulationRound Bool alpha q bandwidth :=
  ⟨s.flow.packets ++ s'.flow.packets, fun i => [cond i s' s]⟩

/-- What is left to evaluate of a round of two connections. -/
theorem pairRound_step {load : Load} {drift : ℚ} {rate rate' : Bool → ℚ} (boundary : SimTime)
    {s s' : SteeredSubflow alpha q bandwidth} (hready : Ready load q) (hne : s.flow.packets ≠ [])
    (hvalid : ∀ p ∈ s.flow.packets ++ s'.flow.packets,
      p.Valid ∧ p.selectedBottleneck = true)
    (hrates : ∀ i, (cond i s' s).flow.connectionRate = rate i)
    (hmass : load.lowest ≤ (pairRound s s').rateMass ∧ (pairRound s s').rateMass ≤ load.highest)
    (hdrift : ∀ i, |rate' i - (rate i + (pairRound s s').addedRate i)| +
      |(pairRound s s').heldRate i| ≤ drift) :
    (pairRound s s').Step load drift 1 rate rate'
      (nextQueue q (s.flow.packets ++ s'.flow.packets) 0 boundary) := by
  have hbusy : s.flow.packets ++ s'.flow.packets ≠ [] :=
    fun h => hne (List.append_eq_nil_iff.1 h).1
  have hnext := (hready.next_eq hbusy (fun p hp => (hvalid p hp).1) bandwidth 0 boundary).2
  refine ⟨hbusy, fun p hp => (hvalid p hp).1, ?_, fun _ => rfl, ?_, hmass.1, hmass.2,
    ⟨_, _, 0, boundary, hnext⟩, hdrift⟩
  · intro i t ht p hp
    obtain rfl := List.mem_singleton.1 ht
    have hmem : p ∈ s.flow.packets ++ s'.flow.packets := by
      cases i
      · exact List.mem_append_left _ hp
      · exact List.mem_append_right _ hp
    exact ⟨hmem, (hvalid p hmem).2⟩
  · intro i t ht
    obtain rfl := List.mem_singleton.1 ht
    exact hrates i

/-- A queue after a round of two subflows with 50000 bytes per second together. -/
def busyQueue : MpOrbDeltaQueue :=
  { measuringQueue with
    deltaShuffle := { epoch := 0, previousMass := 2, previousMeanRate := 25000 }
    deltaShuffleTimer := some (1 / 10)
    deltaInterval := 1 / 10 }

theorem busyQueue_ready : Ready ⟨50000, 50000⟩ busyQueue :=
  ⟨by decide +kernel, by decide +kernel, ⟨_, rfl⟩, by decide +kernel, ⟨rfl, rfl⟩,
    by decide +kernel, by decide +kernel, by decide +kernel⟩

def unequalRound : PopulationRound Bool steadyAlpha busyQueue 125000 :=
  pairRound (segmentFlow _ (1 / 100) 1860 (by decide +kernel) (by decide +kernel))
    (segmentFlow _ (2 / 100) 3140 (by decide +kernel) (by decide +kernel))

/-- The queue after it. -/
def closerQueue : MpOrbDeltaQueue := nextQueue busyQueue unequalRound.packets 0 (1 / 10)

def closerRound : PopulationRound Bool steadyAlpha closerQueue 125000 :=
  pairRound (segmentFlow _ (11 / 100) 1940 (by decide +kernel) (by decide +kernel))
    (segmentFlow _ (12 / 100) 3060 (by decide +kernel) (by decide +kernel))

theorem unequalRound_step :
    unequalRound.Step ⟨50000, 50000⟩ 0 1 (cond · 31400 18600) (cond · 30600 19400) closerQueue :=
  pairRound_step (1 / 10) busyQueue_ready (List.cons_ne_nil _ _) (by decide +kernel)
    (by decide +kernel) (by decide +kernel) (by decide +kernel)

theorem closerRound_step :
    closerRound.Step ⟨50000, 50000⟩ 0 1 (cond · 30600 19400) (cond · 29900 20100)
      (nextQueue closerQueue closerRound.packets 0 (2 / 10)) :=
  pairRound_step (2 / 10) (unequalRound_step.ready busyQueue_ready).1 (List.cons_ne_nil _ _)
    (by decide +kernel) (by decide +kernel) (by decide +kernel) (by decide +kernel)

def twoRounds : Loop Bool steadyAlpha ⟨50000, 50000⟩ 125000 0 1 2 where
  queue
    | 0 => busyQueue
    | 1 => closerQueue
    | _ => nextQueue closerQueue closerRound.packets 0 (2 / 10)
  rate
    | 0 => (cond · 31400 18600)
    | 1 => (cond · 30600 19400)
    | _ => (cond · 29900 20100)
  round
    | 0 => unequalRound
    | 1 => closerRound
    | _ + 2 => ⟨[], fun _ => []⟩
  step
    | 0, _ => unequalRound_step
    | 1, _ => closerRound_step
    | k + 2, h => absurd h (by omega)

theorem rates_converge_two_rounds :
    |twoRounds.rate 2 false - twoRounds.rate 2 true| ≤
      Contraction.bound
        (1 - (1 : ℕ) * ((twoRounds.queue 0).params.deltaShuffleFraction * 125000) / 50000) (2 * 0)
        |twoRounds.rate 0 false - twoRounds.rate 0 true| 2 ∧
      twoRounds.rate 2 false ≤ twoRounds.rate 2 true := by
  obtain ⟨hbound, horder⟩ := rates_converge twoRounds busyQueue_ready (by decide +kernel) one_pos
    le_rfl (by decide +kernel) false true
  exact ⟨hbound, horder rfl (by decide +kernel)⟩

end MpOrb
