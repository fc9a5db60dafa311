import MpOrb.DeltaShuffle
import MpOrb.Lib.Double

/-!
# The Delta queue

`MpOrbDeltaQueue` adds the link measurement to a PINT queue.  Its base class and the node it sits
in appear through the values the extension reads: the round-trip estimates, the node id, the link
bandwidth and whether this hop became the packet's bottleneck.

* `DeltaParams` — the three module parameters; only accepted values can be built (`initialize`).
* `startDeltaShuffleRound`, `handleShuffleTimer` — the round boundary, with its timer.
* `processTelemetryExtension` — one packet: a new bottleneck clears the earlier feedback, an
  enabled queue observes the packet and, if it is the bottleneck, writes its own feedback.
-/

set_option autoImplicit false

namespace MpOrb

/-! ## Parameters -/

/-- The module parameters with the range checks of `initialize`. -/
structure DeltaParams where
  deltaIntervalOverride : SimTime
  deltaShuffleFraction : ℚ
  deltaRateFloor : ℚ
  override_nonneg : SIMTIME_ZERO ≤ deltaIntervalOverride
  fraction_nonneg : 0 ≤ deltaShuffleFraction
  fraction_le_one : deltaShuffleFraction ≤ 1
  floor_pos : 0 < deltaRateFloor

/-- `initialize`, from `deltaShuffleInterval`, `deltaShuffleFraction` and `deltaRateFloor` in bits
per second. -/
def DeltaParams.initialize (deltaShuffleInterval : SimTime)
    (deltaShuffleFraction deltaRateFloor : Double) : Except SimError DeltaParams :=
  match deltaShuffleFraction, deltaRateFloor with
  | .fin fraction, .fin floor =>
    if h : (SIMTIME_ZERO ≤ deltaShuffleInterval ∧ 0 ≤ fraction) ∧ fraction ≤ 1 ∧ 0 < floor / 8 then
      .ok ⟨deltaShuffleInterval, fraction, floor / 8, h.1.1, h.1.2, h.2.1, h.2.2⟩
    else .error (.runtime "Invalid Delta shuffle parameters")
  | _, _ => .error (.runtime "Invalid Delta shuffle parameters")

/-! ## The queue -/

/-- The queue: its parameters, the link totals, the round timer and the base queue's RTT estimates.
-/
structure MpOrbDeltaQueue where
  params : DeltaParams
  /-- `getParentModule()->getParentModule()->getId()`. -/
  nodeId : ℤ
  deltaShuffle : LinkShuffle := {}
  deltaShuffleTimer : Option SimTime := none
  deltaInterval : SimTime := 0
  avgRtt : SimTime
  fixedAvgRtt : SimTime
  pintInitialRtt : SimTime

namespace MpOrbDeltaQueue

/-- The interval of a round that starts now. -/
def roundInterval (q : MpOrbDeltaQueue) : SimTime :=
  if SIMTIME_ZERO < q.params.deltaIntervalOverride then q.params.deltaIntervalOverride
  else if SIMTIME_ZERO < q.avgRtt then q.avgRtt
  else if SIMTIME_ZERO < q.fixedAvgRtt then q.fixedAvgRtt
  else q.pintInitialRtt

/-- Freeze the interval, begin the next epoch and schedule its end. -/
def startDeltaShuffleRound (q : MpOrbDeltaQueue) (now : SimTime) :
    Except SimError MpOrbDeltaQueue := do
  let deltaInterval := q.roundInterval
  let timer ← scheduleAt now (now + deltaInterval) q.deltaShuffleTimer
  return { q with
    deltaInterval
    deltaShuffle := q.deltaShuffle.beginRound (q.deltaShuffle.epoch + 1)
    deltaShuffleTimer := timer }

/-- `handleMessage(deltaShuffleTimer)`; delivery leaves the timer unscheduled. -/
def handleShuffleTimer (q : MpOrbDeltaQueue) (now : SimTime) : Except SimError MpOrbDeltaQueue :=
  let q := { q with deltaShuffleTimer := none }
  if 0 < q.deltaShuffle.mass then q.startDeltaShuffleRound now
  else .ok { q with deltaShuffle := q.deltaShuffle.beginRound (q.deltaShuffle.epoch + 1) }

/-- A packet finds the timer scheduled or starts a round. -/
def openRound (q : MpOrbDeltaQueue) (now : SimTime) : Except SimError MpOrbDeltaQueue :=
  if q.deltaShuffleTimer.isSome then .ok q else q.startDeltaShuffleRound now

/-- The divisor of the packet mass. -/
def massDivisor (q : MpOrbDeltaQueue) (tag : DeltaShuffleTag) : ℚ :=
  max tag.subflowRate q.params.deltaRateFloor * q.deltaInterval

/-- The share of a round that a packet stands for, at the rate of its subflow. -/
def packetMass (q : MpOrbDeltaQueue) (tag : DeltaShuffleTag) (tcpPayloadBytes : ℕ) : ℚ :=
  tcpPayloadBytes / q.massDivisor tag

/-- A new winner replaces earlier feedback, even if shuffle is disabled here. -/
def claimTag (q : MpOrbDeltaQueue) (tag : DeltaShuffleTag) : DeltaShuffleTag :=
  { tag with
    hops := 0
    bottleneckId := q.nodeId
    meanConnectionRate := 0
    rateAllowance := 0
    packetMass := 0 }

/-- The rate that one unit of mass may move. -/
def rateAllowance (q : MpOrbDeltaQueue) (bandwidthBytesPerSecond : ℚ) : ℚ :=
  if 0 < q.deltaShuffle.previousMass then
    q.params.deltaShuffleFraction * bandwidthBytesPerSecond / q.deltaShuffle.previousMass
  else 0

/-- The measurement of a packet and, at its bottleneck, the feedback. -/
def observePacket (q : MpOrbDeltaQueue) (tag : DeltaShuffleTag) (tcpPayloadBytes : ℕ)
    (bandwidthBytesPerSecond : ℚ) (selectedBottleneck : Bool) :
    MpOrbDeltaQueue × DeltaShuffleTag :=
  let mass := q.packetMass tag tcpPayloadBytes
  let q := { q with deltaShuffle := q.deltaShuffle.observe mass tag.connectionRate }
  if selectedBottleneck then
    (q, { tag with
      packetMass := mass
      meanConnectionRate := q.deltaShuffle.previousMeanRate
      rateAllowance := q.rateAllowance bandwidthBytesPerSecond
      hops := 1 })
  else (q, tag)

/-- What the queue does with a packet; `none` is a packet without a Delta tag. -/
def processTelemetryExtension (q : MpOrbDeltaQueue) (now : SimTime)
    (tcpHeader : Option DeltaShuffleTag) (tcpPayloadBytes : ℕ) (bandwidthBytesPerSecond : ℚ)
    (selectedBottleneck : Bool) : Except SimError (MpOrbDeltaQueue × Option DeltaShuffleTag) :=
  match tcpHeader with
  | none => .ok (q, none)
  | some tag =>
    if tcpPayloadBytes = 0 ∨ tag.echoed then .ok (q, some tag)
    else
      let tag := if selectedBottleneck then q.claimTag tag else tag
      if q.params.deltaShuffleFraction ≤ 0 then .ok (q, some tag)
      else do
        let q ← q.openRound now
        if tag.subflowRate < 0 ∨ tag.connectionRate < tag.subflowRate then
          throw (.runtime "Invalid Delta sender rate telemetry")
        let (q, tag) :=
          q.observePacket tag tcpPayloadBytes bandwidthBytesPerSecond selectedBottleneck
        return (q, some tag)

/-! ## What each operation does -/

section Operations

variable {q : MpOrbDeltaQueue} {now : SimTime}

/-- `pintInitialRtt` is the last resort, so a positive one makes every interval positive. -/
theorem roundInterval_pos (h : 0 < q.pintInitialRtt) : 0 < q.roundInterval := by
  unfold roundInterval SIMTIME_ZERO
  split_ifs <;> assumption

/-- The queue right after a round started at `now`. -/
def inRound (q : MpOrbDeltaQueue) (now : SimTime) : MpOrbDeltaQueue :=
  { q with
    deltaInterval := q.roundInterval
    deltaShuffle := q.deltaShuffle.beginRound (q.deltaShuffle.epoch + 1)
    deltaShuffleTimer := some (now + q.roundInterval) }

theorem startDeltaShuffleRound_idle (hround : 0 < q.roundInterval)
    (h : q.deltaShuffleTimer = none) : q.startDeltaShuffleRound now = .ok (q.inRound now) := by
  have hle : now ≤ now + q.roundInterval := le_add_of_nonneg_right hround.le
  simp only [startDeltaShuffleRound, h, scheduleAt_idle hle]
  rfl

theorem openRound_pending {d : SimTime} (h : q.deltaShuffleTimer = some d) :
    q.openRound now = .ok q := by
  simp [openRound, h]

theorem openRound_idle (hround : 0 < q.roundInterval) (h : q.deltaShuffleTimer = none) :
    q.openRound now = .ok (q.inRound now) := by
  simp [openRound, h, startDeltaShuffleRound_idle hround h]

theorem handleShuffleTimer_busy (hround : 0 < q.roundInterval) (h : 0 < q.deltaShuffle.mass) :
    q.handleShuffleTimer now = .ok (inRound { q with deltaShuffleTimer := none } now) := by
  unfold handleShuffleTimer
  simp only [h, if_true]
  exact startDeltaShuffleRound_idle hround rfl

theorem handleShuffleTimer_idle (h : ¬ 0 < q.deltaShuffle.mass) :
    q.handleShuffleTimer now = .ok { q with
      deltaShuffleTimer := none
      deltaShuffle := ⟨q.deltaShuffle.epoch + 1, 0, 0, 0, 0⟩ } := by
  simp [handleShuffleTimer, h, LinkShuffle.beginRound_idle h]

variable {tag : DeltaShuffleTag} {tcpPayloadBytes : ℕ} {bandwidth : ℚ} {selected : Bool}

/-- What the extension measures: payload under a tag that is not an echo. -/
def Measured (tcpHeader : Option DeltaShuffleTag) (tcpPayloadBytes : ℕ) : Prop :=
  tcpPayloadBytes ≠ 0 ∧ ∃ tag ∈ tcpHeader, tag.echoed = false

theorem not_measured (h : ¬ Measured (some tag) tcpPayloadBytes) :
    tcpPayloadBytes = 0 ∨ tag.echoed = true := by
  by_contra hnot
  push Not at hnot
  exact h ⟨hnot.1, tag, rfl, by simpa using hnot.2⟩

theorem process_unmeasured {tcpHeader : Option DeltaShuffleTag}
    (h : ¬ Measured tcpHeader tcpPayloadBytes) :
    q.processTelemetryExtension now tcpHeader tcpPayloadBytes bandwidth selected =
      .ok (q, tcpHeader) := by
  unfold processTelemetryExtension
  cases tcpHeader with
  | none => rfl
  | some tag => simp only [not_measured h, if_true]

theorem process_disabled (hbytes : tcpPayloadBytes ≠ 0) (hdata : tag.echoed = false)
    (hoff : q.params.deltaShuffleFraction ≤ 0) :
    q.processTelemetryExtension now (some tag) tcpPayloadBytes bandwidth selected =
      .ok (q, some (if selected then q.claimTag tag else tag)) := by
  simp [processTelemetryExtension, hbytes, hdata, hoff]

theorem process_enabled {q' : MpOrbDeltaQueue} (hbytes : tcpPayloadBytes ≠ 0)
    (hdata : tag.echoed = false) (hon : 0 < q.params.deltaShuffleFraction)
    (hrate : 0 ≤ tag.subflowRate) (htotal : tag.subflowRate ≤ tag.connectionRate)
    (hopen : q.openRound now = .ok q') :
    q.processTelemetryExtension now (some tag) tcpPayloadBytes bandwidth selected =
      .ok ((q'.observePacket (if selected then q.claimTag tag else tag) tcpPayloadBytes bandwidth
          selected).1,
        some (q'.observePacket (if selected then q.claimTag tag else tag) tcpPayloadBytes bandwidth
          selected).2) := by
  have hvalid : ¬ ((if selected then q.claimTag tag else tag).subflowRate < 0 ∨
      (if selected then q.claimTag tag else tag).connectionRate <
        (if selected then q.claimTag tag else tag).subflowRate) := by
    cases selected <;> simpa [claimTag] using ⟨hrate, htotal⟩
  simp only [processTelemetryExtension, hbytes, hdata, not_le.2 hon, hopen, Bool.false_eq_true,
    or_self, if_false]
  show (if _ then _ else _ : Except _ _) = _
  rw [if_neg hvalid]
  rfl

theorem process_error {e : SimError} (hbytes : tcpPayloadBytes ≠ 0) (hdata : tag.echoed = false)
    (hon : 0 < q.params.deltaShuffleFraction) (hopen : q.openRound now = .error e) :
    q.processTelemetryExtension now (some tag) tcpPayloadBytes bandwidth selected = .error e := by
  simp only [processTelemetryExtension, hbytes, hdata, not_le.2 hon, hopen, Bool.false_eq_true,
    or_self, if_false]
  rfl

/-- What an enabled queue has done once it is through with a packet. -/
theorem process_enabled_inv {result : MpOrbDeltaQueue × Option DeltaShuffleTag}
    (hbytes : tcpPayloadBytes ≠ 0) (hdata : tag.echoed = false)
    (hon : 0 < q.params.deltaShuffleFraction)
    (hrate : 0 ≤ tag.subflowRate) (htotal : tag.subflowRate ≤ tag.connectionRate)
    (h : q.processTelemetryExtension now (some tag) tcpPayloadBytes bandwidth selected =
      .ok result) :
    ∃ q', q.openRound now = .ok q' ∧ result =
      ((q'.observePacket (if selected then q.claimTag tag else tag) tcpPayloadBytes bandwidth
          selected).1,
        some (q'.observePacket (if selected then q.claimTag tag else tag) tcpPayloadBytes bandwidth
          selected).2) := by
  cases hopen : q.openRound now with
  | error e =>
    rw [process_error hbytes hdata hon hopen] at h
    cases h
  | ok q' =>
    rw [process_enabled hbytes hdata hon hrate htotal hopen, Except.ok.injEq] at h
    exact ⟨q', rfl, h.symm⟩

end Operations

end MpOrbDeltaQueue

/-- A queue with a 5% fraction whose rounds last 100 ms, before its first packet. -/
def measuringQueue : MpOrbDeltaQueue :=
  { params := ⟨0, 1 / 20, 1000, by decide, by decide +kernel, by decide +kernel, by decide +kernel⟩
    nodeId := 7
    avgRtt := 0
    fixedAvgRtt := 0
    pintInitialRtt := 1 / 10 }

/-- A segment of a connection at three times the rate of its subflow. -/
def segmentTag : DeltaShuffleTag := { subflowRate := 1000, connectionRate := 3000, serial := 1 }

end MpOrb
