import MpOrb.DeltaQueue
import MpOrb.Lib.WeightedMean
import Mathlib.Logic.Relation

/-!
# The round protocol of the Delta queue

A history runs a queue and writes down every round it starts and every packet it measures, with
the values the packet was measured with.  Packets, timer firings and changes of the average
round-trip time come in any order; the timer fires exactly at its deadline.

* `RoundHistory.step` — one event, through the code of the queue.
* `Chronicle` — the rounds written down follow each other, and every packet of a round was measured
  with the round's interval and with the feedback the preceding round left.
* `RoundInv` — the joint invariant of epoch, accumulators, timer and frozen interval with the
  chronicle: the queue is between rounds, or inside the newest one.
* `round_protocol` — the protocol in every reachable state.
-/

set_option autoImplicit false

namespace MpOrb

/-! ## Histories -/

/-- A measured packet, with what the queue used to measure it. -/
structure Observation where
  mass : ℚ
  connectionRate : ℚ
  massDivisor : ℚ
  interval : SimTime
  previousMass : ℚ
  previousMeanRate : ℚ

/-- A round: observations newest first. -/
structure Round where
  start : SimTime
  deadline : SimTime
  observations : List Observation := []

/-- The mass observed in a round. -/
def Round.mass (r : Round) : ℚ := WeightedMean.total Observation.mass r.observations

def Round.rateMass (r : Round) : ℚ :=
  WeightedMean.moment Observation.mass Observation.connectionRate r.observations

/-- The mass-weighted mean connection rate. -/
def Round.meanRate (r : Round) : ℚ :=
  WeightedMean.mean Observation.mass Observation.connectionRate r.observations

/-- A queue with its rounds, newest first. -/
structure RoundHistory where
  queue : MpOrbDeltaQueue
  now : SimTime
  rounds : List Round := []

/-- What a queue meets. -/
inductive QueueEvent where
  | packet (tcpHeader : Option DeltaShuffleTag) (tcpPayloadBytes : ℕ) (bandwidth : ℚ)
      (selectedBottleneck : Bool)
  | timer
  | setAvgRtt (avgRtt : SimTime)

/-- A round begins when the timer gets a deadline. -/
def noteRound (now : SimTime) (timer : Option SimTime) (rounds : List Round) : List Round :=
  match timer with
  | none => rounds
  | some deadline => { start := now, deadline } :: rounds

/-- The measurement of a data packet, read off the queue that made it. -/
def MpOrbDeltaQueue.observation (q : MpOrbDeltaQueue) (tag : DeltaShuffleTag)
    (tcpPayloadBytes : ℕ) : Observation :=
  { mass := q.packetMass tag tcpPayloadBytes
    connectionRate := tag.connectionRate
    massDivisor := q.massDivisor tag
    interval := q.deltaInterval
    previousMass := q.deltaShuffle.previousMass
    previousMeanRate := q.deltaShuffle.previousMeanRate }

/-- A measured packet is an observation of the newest round. -/
def noteObservation (q : MpOrbDeltaQueue) (tcpHeader : Option DeltaShuffleTag)
    (tcpPayloadBytes : ℕ) (rounds : List Round) : List Round :=
  match tcpHeader, rounds with
  | some tag, r :: older =>
    if tcpPayloadBytes = 0 ∨ tag.echoed then r :: older
    else { r with observations := q.observation tag tcpPayloadBytes :: r.observations } :: older
  | _, rounds => rounds

/-- One event through the code of the queue, written down. -/
def RoundHistory.step (h : RoundHistory) (now : SimTime) : QueueEvent → Except SimError RoundHistory
  | .packet tcpHeader bytes bandwidth selected => do
    let (q, _) ← h.queue.processTelemetryExtension now tcpHeader bytes bandwidth selected
    let rounds :=
      if h.queue.deltaShuffleTimer.isSome then h.rounds
      else noteRound now q.deltaShuffleTimer h.rounds
    return { queue := q, now, rounds := noteObservation q tcpHeader bytes rounds }
  | .timer => do
    let q ← h.queue.handleShuffleTimer now
    return { queue := q, now, rounds := noteRound now q.deltaShuffleTimer h.rounds }
  | .setAvgRtt avgRtt => return { h with queue := { h.queue with avgRtt }, now }

/-- Time does not run backwards or past a pending deadline, the timer fires at its deadline, and a
data packet carries the rates of its sender. -/
structure RoundHistory.Admissible (h : RoundHistory) (now : SimTime) (e : QueueEvent) : Prop where
  later : h.now ≤ now
  pending : ∀ deadline ∈ h.queue.deltaShuffleTimer, now ≤ deadline
  fires : e = .timer → h.queue.deltaShuffleTimer = some now
  rates : ∀ tag bytes bandwidth selected, e = .packet (some tag) bytes bandwidth selected →
    bytes ≠ 0 → tag.echoed = false →
    0 ≤ tag.subflowRate ∧ tag.subflowRate ≤ tag.connectionRate

def RoundHistory.Step (h h' : RoundHistory) : Prop :=
  ∃ now e, h.Admissible now e ∧ h.step now e = .ok h'

/-- An enabled queue before its first packet. -/
structure MpOrbDeltaQueue.Fresh (q : MpOrbDeltaQueue) : Prop where
  enabled : 0 < q.params.deltaShuffleFraction
  initialRtt : 0 < q.pintInitialRtt
  shuffle : q.deltaShuffle = {}
  timer : q.deltaShuffleTimer = none

/-! ## The chronicle of the rounds -/

/-- What the round before `start` left for the one that begins there. -/
def feedback (older : List Round) (start : SimTime) : ℚ × ℚ :=
  match older with
  | [] => (0, 0)
  | p :: _ => if p.deadline = start then (p.mass, p.meanRate) else (0, 0)

/-- Every packet of the round was measured with its interval and with `fed`. -/
structure Round.Regular (r : Round) (fed : ℚ × ℚ) : Prop where
  lasts : r.start < r.deadline
  interval : ∀ o ∈ r.observations, o.interval = r.deadline - r.start
  divisor : ∀ o ∈ r.observations, 0 < o.massDivisor
  mass : ∀ o ∈ r.observations, 0 < o.mass
  previous : ∀ o ∈ r.observations, (o.previousMass, o.previousMeanRate) = fed

/-- Rounds newest first: each begins after the older ones, with the feedback of the one that ends
there. -/
inductive Chronicle : List Round → Prop where
  | nil : Chronicle []
  | cons {r : Round} {older : List Round} : Chronicle older →
      (∀ p ∈ older, p.deadline ≤ r.start) → r.Regular (feedback older r.start) →
      Chronicle (r :: older)

theorem Round.Regular.mass_pos {r : Round} {fed : ℚ × ℚ} (h : r.Regular fed)
    (hobs : r.observations ≠ []) : 0 < r.mass :=
  WeightedMean.total_pos hobs h.mass

theorem Chronicle.regular {rounds : List Round} (h : Chronicle rounds) :
    ∀ r ∈ rounds, ∃ fed, r.Regular fed := by
  induction h with
  | nil =>
    intro r hr
    exact absurd hr List.not_mem_nil
  | cons _ _ hreg ih =>
    intro r hr
    rcases List.mem_cons.1 hr with rfl | hr
    · exact ⟨_, hreg⟩
    · exact ih r hr

/-- An older round is over before the newest begins, so their deadlines differ. -/
theorem Chronicle.deadline_lt {r : Round} {older : List Round} (h : Chronicle (r :: older)) :
    ∀ p ∈ older, p.deadline < r.deadline := by
  cases h with
  | cons _ hafter hreg =>
    intro p hp
    exact (hafter p hp).trans_lt hreg.lasts

/-- The feedback a round starts with comes from the round that ended at its start, if any. -/
theorem Chronicle.feedback_eq {older : List Round} (h : Chronicle older) {start : SimTime}
    (hafter : ∀ p ∈ older, p.deadline ≤ start) :
    (∀ p ∈ older, p.deadline = start → feedback older start = (p.mass, p.meanRate)) ∧
      ((∀ p ∈ older, p.deadline = start → p.observations = []) →
        feedback older start = (0, 0)) := by
  cases h with
  | nil => exact ⟨fun p hp => absurd hp List.not_mem_nil, fun _ => rfl⟩
  | @cons q oldest hold hbefore hreg =>
    constructor
    · intro p hp hend
      rcases List.mem_cons.1 hp with rfl | hp
      · simp only [feedback, hend, if_true]
      · have hlt := (Chronicle.cons hold hbefore hreg).deadline_lt p hp
        have hle := hafter q List.mem_cons_self
        exact absurd hend (hlt.trans_le hle).ne
    · intro hidle
      unfold feedback
      simp only
      split
      · rename_i hend
        have hobs := hidle q List.mem_cons_self hend
        simp [Round.mass, Round.meanRate, WeightedMean.mean, hobs]
      · rfl

/-- What the protocol promises of a packet measured in round `r`. -/
structure Fed (rounds : List Round) (r : Round) (o : Observation) : Prop where
  interval_pos : 0 < o.interval
  interval : o.interval = r.deadline - r.start
  divisor : 0 < o.massDivisor
  previous : ∀ p ∈ rounds, p.deadline = r.start → p.observations ≠ [] →
    0 < p.mass ∧ o.previousMass = p.mass ∧ o.previousMeanRate = p.meanRate
  unfed : (∀ p ∈ rounds, p.deadline = r.start → p.observations = []) →
    o.previousMass = 0 ∧ o.previousMeanRate = 0

theorem Chronicle.fed {rounds : List Round} (h : Chronicle rounds) :
    ∀ r ∈ rounds, ∀ o ∈ r.observations, Fed rounds r o := by
  induction h with
  | nil =>
    intro r hr
    exact absurd hr List.not_mem_nil
  | @cons newest older hold hafter hreg ih =>
    intro r hr o ho
    rcases List.mem_cons.1 hr with rfl | hr
    · obtain ⟨hsome, hnone⟩ := hold.feedback_eq hafter
      refine ⟨?_, hreg.interval o ho, hreg.divisor o ho, ?_, ?_⟩
      · rw [hreg.interval o ho]
        exact sub_pos.2 hreg.lasts
      · intro p hp hend hobs
        rcases List.mem_cons.1 hp with rfl | hp
        · exact absurd hend hreg.lasts.ne'
        · obtain ⟨_, hpreg⟩ := hold.regular p hp
          have hfed := (hreg.previous o ho).trans (hsome p hp hend)
          exact ⟨hpreg.mass_pos hobs, congrArg Prod.fst hfed, congrArg Prod.snd hfed⟩
      · intro hidle
        have hfed := (hreg.previous o ho).trans
          (hnone fun p hp => hidle p (List.mem_cons_of_mem _ hp))
        exact ⟨congrArg Prod.fst hfed, congrArg Prod.snd hfed⟩
    · obtain ⟨_, hrreg⟩ := hold.regular r hr
      have hlate : newest.deadline ≠ r.start :=
        ((hrreg.lasts.trans_le (hafter r hr)).trans hreg.lasts).ne'
      have hold := ih r hr o ho
      refine ⟨hold.interval_pos, hold.interval, hold.divisor, ?_, ?_⟩
      · intro p hp hend
        rcases List.mem_cons.1 hp with rfl | hp
        · exact absurd hend hlate
        · exact hold.previous p hp hend
      · intro hidle
        apply hold.unfed
        intro p hp
        exact hidle p (List.mem_cons_of_mem _ hp)

/-! ## The invariant -/

/-- The queue is inside the newest round. -/
structure Running (h : RoundHistory) (r : Round) (older : List Round) : Prop where
  rounds : h.rounds = r :: older
  timer : h.queue.deltaShuffleTimer = some r.deadline
  interval : h.queue.deltaInterval = r.deadline - r.start
  mass : h.queue.deltaShuffle.mass = r.mass
  rateMass : h.queue.deltaShuffle.rateMass = r.rateMass
  previous : (h.queue.deltaShuffle.previousMass, h.queue.deltaShuffle.previousMeanRate) =
    feedback older r.start

/-- The queue is between rounds: it was never used, or its last round was idle. -/
structure Resting (h : RoundHistory) : Prop where
  timer : h.queue.deltaShuffleTimer = none
  mass : h.queue.deltaShuffle.mass = 0
  expired : ∀ p ∈ h.rounds, p.deadline ≤ h.now
  idle : ∀ start, feedback h.rounds start = (0, 0)

/-- The joint invariant of a queue and its rounds. -/
structure RoundInv (h : RoundHistory) : Prop where
  enabled : 0 < h.queue.params.deltaShuffleFraction
  initialRtt : 0 < h.queue.pintInitialRtt
  chronicle : Chronicle h.rounds
  phase : Resting h ∨ ∃ r older, Running h r older

theorem RoundInv.roundInterval_pos {h : RoundHistory} (hinv : RoundInv h) :
    0 < h.queue.roundInterval :=
  MpOrbDeltaQueue.roundInterval_pos hinv.initialRtt

theorem RoundInv.start {q : MpOrbDeltaQueue} (hq : q.Fresh) (now : SimTime) :
    RoundInv { queue := q, now } := by
  refine ⟨hq.enabled, hq.initialRtt, .nil, Or.inl ⟨hq.timer, ?_, ?_, fun _ => rfl⟩⟩
  · simp [hq.shuffle]
  · exact fun p hp => absurd hp List.not_mem_nil

/-- Time and the queue's estimate of the round-trip time move without touching the rounds. -/
theorem RoundInv.wait {h : RoundHistory} (hinv : RoundInv h) {now : SimTime} (hlater : h.now ≤ now)
    (avgRtt : SimTime) : RoundInv { h with queue := { h.queue with avgRtt }, now } := by
  refine ⟨hinv.enabled, hinv.initialRtt, hinv.chronicle, ?_⟩
  rcases hinv.phase with hrest | ⟨r, older, hrun⟩
  · have hexpired : ∀ p ∈ h.rounds, p.deadline ≤ now := by
      intro p hp
      exact (hrest.expired p hp).trans hlater
    exact Or.inl ⟨hrest.timer, hrest.mass, hexpired, hrest.idle⟩
  · exact Or.inr ⟨r, older, hrun.rounds, hrun.timer, hrun.interval, hrun.mass, hrun.rateMass,
      hrun.previous⟩

/-- A round begins with the feedback of the one that ends at that moment. -/
theorem RoundInv.begin {h : RoundHistory} (hinv : RoundInv h) {now : SimTime}
    (hover : ∀ p ∈ h.rounds, p.deadline ≤ now)
    (hfed : ((h.queue.inRound now).deltaShuffle.previousMass,
      (h.queue.inRound now).deltaShuffle.previousMeanRate) = feedback h.rounds now) :
    ∃ r, Running ⟨h.queue.inRound now, now, noteRound now (h.queue.inRound now).deltaShuffleTimer
        h.rounds⟩ r h.rounds ∧
      RoundInv ⟨h.queue.inRound now, now, noteRound now (h.queue.inRound now).deltaShuffleTimer
        h.rounds⟩ := by
  have hlasts : now < now + h.queue.roundInterval :=
    lt_add_of_pos_right now hinv.roundInterval_pos
  have hempty : (h.queue.inRound now).deltaShuffle.mass = 0 ∧
      (h.queue.inRound now).deltaShuffle.rateMass = 0 := by
    simp [MpOrbDeltaQueue.inRound, LinkShuffle.beginRound]
  have hrun : Running ⟨h.queue.inRound now, now, noteRound now
      (h.queue.inRound now).deltaShuffleTimer h.rounds⟩
      { start := now, deadline := now + h.queue.roundInterval } h.rounds :=
    ⟨rfl, rfl, (add_sub_cancel_left now _).symm, hempty.1, hempty.2, hfed⟩
  refine ⟨_, hrun, hinv.enabled, hinv.initialRtt, .cons hinv.chronicle hover ?_,
    Or.inr ⟨_, _, hrun⟩⟩
  exact ⟨hlasts, by simp, by simp, by simp, by simp⟩

/-- A packet of the running round joins its accumulators and its observations. -/
theorem Running.observe {h : RoundHistory} {r : Round} {older : List Round}
    (hrun : Running h r older) (hinv : RoundInv h) {tag : DeltaShuffleTag} {bytes : ℕ}
    (hbytes : bytes ≠ 0) (bandwidth : ℚ) (selected : Bool) (now : SimTime) :
    RoundInv ⟨(h.queue.observePacket tag bytes bandwidth selected).1, now,
      { r with observations := h.queue.observation tag bytes :: r.observations } :: older⟩ := by
  have hqueue : (h.queue.observePacket tag bytes bandwidth selected).1 = { h.queue with
      deltaShuffle :=
        h.queue.deltaShuffle.observe (h.queue.packetMass tag bytes) tag.connectionRate } := by
    cases selected <;> rfl
  rw [hqueue]
  have hchron := hinv.chronicle
  rw [hrun.rounds] at hchron
  cases hchron with
  | cons hold hafter hreg =>
    have hdivisor : 0 < h.queue.massDivisor tag := by
      refine mul_pos (lt_max_of_lt_right h.queue.params.floor_pos) ?_
      rw [hrun.interval]
      exact sub_pos.2 hreg.lasts
    have hmass : 0 < h.queue.packetMass tag bytes :=
      div_pos (Nat.cast_pos.2 (Nat.pos_of_ne_zero hbytes)) hdivisor
    refine ⟨hinv.enabled, hinv.initialRtt, .cons hold hafter ?_, Or.inr ⟨_, older, rfl, hrun.timer,
      hrun.interval, ?_, ?_, hrun.previous⟩⟩
    · refine ⟨hreg.lasts, ?_, ?_, ?_, ?_⟩ <;> rw [List.forall_mem_cons]
      · exact ⟨hrun.interval, hreg.interval⟩
      · exact ⟨hdivisor, hreg.divisor⟩
      · exact ⟨hmass, hreg.mass⟩
      · exact ⟨hrun.previous, hreg.previous⟩
    · show h.queue.deltaShuffle.mass + h.queue.packetMass tag bytes = _
      rw [hrun.mass, Round.mass, Round.mass, WeightedMean.total_cons, add_comm]
      rfl
    · show h.queue.deltaShuffle.rateMass + h.queue.packetMass tag bytes * tag.connectionRate = _
      rw [hrun.rateMass, Round.rateMass, Round.rateMass, WeightedMean.moment_cons, add_comm]
      rfl

/-! ## One step -/

theorem step_unmeasured {h : RoundHistory} {now : SimTime} {tcpHeader : Option DeltaShuffleTag}
    {bytes : ℕ} {bandwidth : ℚ} {selected : Bool}
    (hskip : ¬ MpOrbDeltaQueue.Measured tcpHeader bytes) :
    h.step now (.packet tcpHeader bytes bandwidth selected) = .ok { h with now } := by
  have hnote : ∀ rounds, noteObservation h.queue tcpHeader bytes rounds = rounds := by
    intro rounds
    rcases tcpHeader with _ | tag
    · rfl
    · cases rounds with
      | nil => rfl
      | cons r older => simp only [noteObservation, MpOrbDeltaQueue.not_measured hskip, if_true]
  unfold RoundHistory.step
  simp only [MpOrbDeltaQueue.process_unmeasured hskip]
  show Except.ok (RoundHistory.mk _ _ _) = _
  rw [hnote]
  cases htimer : h.queue.deltaShuffleTimer <;> rfl

/-- A measured packet is observed by the queue as it stands once a round is open. -/
theorem step_measured {h : RoundHistory} {now : SimTime} {tag : DeltaShuffleTag} {bytes : ℕ}
    (bandwidth : ℚ) (selected : Bool) (hinv : RoundInv h) (hbytes : bytes ≠ 0)
    (hdata : tag.echoed = false) (hrate : 0 ≤ tag.subflowRate)
    (htotal : tag.subflowRate ≤ tag.connectionRate) {q : MpOrbDeltaQueue} {r : Round}
    {older : List Round} (hopen : h.queue.openRound now = .ok q)
    (hrounds : (if h.queue.deltaShuffleTimer.isSome then h.rounds
      else noteRound now q.deltaShuffleTimer h.rounds) = r :: older) :
    ∃ tag' : DeltaShuffleTag, h.step now (.packet (some tag) bytes bandwidth selected) =
      .ok ⟨(q.observePacket tag' bytes bandwidth selected).1, now,
        { r with observations := q.observation tag' bytes :: r.observations } :: older⟩ := by
  refine ⟨if selected then h.queue.claimTag tag else tag, ?_⟩
  unfold RoundHistory.step
  simp only [MpOrbDeltaQueue.process_enabled hbytes hdata hinv.enabled hrate htotal hopen]
  show Except.ok (RoundHistory.mk _ _ _) = _
  have htimer : ∀ tag', (q.observePacket tag' bytes bandwidth selected).1.deltaShuffleTimer =
      q.deltaShuffleTimer := fun tag' => by cases selected <;> rfl
  rw [htimer, hrounds]
  cases selected <;> simp [noteObservation, hbytes, hdata] <;> rfl

/-- The timer ends a round: a busy one hands its totals to the next, an idle one leaves nothing. -/
theorem RoundInv.timer {h : RoundHistory} (hinv : RoundInv h) {now : SimTime}
    (htimer : h.queue.deltaShuffleTimer = some now) :
    ∃ h', h.step now .timer = .ok h' ∧ RoundInv h' := by
  rcases hinv.phase with hrest | ⟨r, older, hrun⟩
  · rw [hrest.timer] at htimer; cases htimer
  have hdeadline : r.deadline = now := Option.some.inj (hrun.timer.symm.trans htimer)
  have hchron := hinv.chronicle
  have hover : ∀ p ∈ h.rounds, p.deadline ≤ now := by
    rw [hrun.rounds] at hchron ⊢
    exact List.forall_mem_cons.2
      ⟨hdeadline.le, fun p hp => ((hchron.deadline_lt p hp).trans_eq hdeadline).le⟩
  by_cases hbusy : 0 < h.queue.deltaShuffle.mass
  · refine ⟨_, ?_, (hinv.begin hover ?_).choose_spec.2⟩
    · unfold RoundHistory.step
      simp only [MpOrbDeltaQueue.handleShuffleTimer_busy hinv.roundInterval_pos hbusy]
      rfl
    · simp only [MpOrbDeltaQueue.inRound, LinkShuffle.beginRound_busy hbusy, hrun.rounds,
        feedback, hdeadline, if_true, hrun.mass, hrun.rateMass]
      rfl
  · have hstep : h.step now .timer = .ok ⟨{ h.queue with
        deltaShuffleTimer := none
        deltaShuffle := ⟨h.queue.deltaShuffle.epoch + 1, 0, 0, 0, 0⟩ }, now, h.rounds⟩ := by
      unfold RoundHistory.step
      simp only [MpOrbDeltaQueue.handleShuffleTimer_idle hbusy]
      rfl
    refine ⟨_, hstep, hinv.enabled, hinv.initialRtt, hinv.chronicle,
      Or.inl ⟨rfl, rfl, hover, fun start => ?_⟩⟩
    -- an idle round observed nothing, so it leaves nothing behind
    rw [hrun.rounds] at hchron
    obtain ⟨_, hreg⟩ := hchron.regular r List.mem_cons_self
    have hobs : r.observations = [] := by
      by_contra hne
      exact hbusy (hrun.mass ▸ hreg.mass_pos hne)
    show feedback h.rounds start = (0, 0)
    rw [hrun.rounds]
    unfold feedback
    simp [Round.mass, Round.meanRate, WeightedMean.mean, hobs]

/-- A measured packet joins the running round or opens one of its own. -/
theorem RoundInv.packet {h : RoundHistory} (hinv : RoundInv h) {now : SimTime}
    (hlater : h.now ≤ now) {tag : DeltaShuffleTag} {bytes : ℕ} (bandwidth : ℚ) (selected : Bool)
    (hbytes : bytes ≠ 0) (hdata : tag.echoed = false) (hrate : 0 ≤ tag.subflowRate)
    (htotal : tag.subflowRate ≤ tag.connectionRate) :
    ∃ h', h.step now (.packet (some tag) bytes bandwidth selected) = .ok h' ∧ RoundInv h' := by
  rcases hinv.phase with hrest | ⟨r, older, hrun⟩
  · have hover : ∀ p ∈ h.rounds, p.deadline ≤ now :=
      fun p hp => (hrest.expired p hp).trans hlater
    have hidle : ¬ 0 < h.queue.deltaShuffle.mass := by rw [hrest.mass]; exact lt_irrefl 0
    obtain ⟨r, hrun, hinv'⟩ := hinv.begin hover (by
      simp only [MpOrbDeltaQueue.inRound, LinkShuffle.beginRound_idle hidle, hrest.idle])
    obtain ⟨tag', hstep⟩ := step_measured bandwidth selected hinv hbytes hdata hrate htotal
      (MpOrbDeltaQueue.openRound_idle hinv.roundInterval_pos hrest.timer)
      (by rw [hrest.timer]; exact hrun.rounds)
    exact ⟨_, hstep, hrun.observe hinv' hbytes bandwidth selected now⟩
  · obtain ⟨tag', hstep⟩ := step_measured bandwidth selected hinv hbytes hdata hrate htotal
      (MpOrbDeltaQueue.openRound_pending hrun.timer)
      (by rw [hrun.timer]; exact hrun.rounds)
    exact ⟨_, hstep, hrun.observe hinv hbytes bandwidth selected now⟩

/-- **One step.**  Whatever comes next, the queue raises no error and the invariant holds. -/
theorem RoundInv.step {h : RoundHistory} (hinv : RoundInv h) {now : SimTime} {e : QueueEvent}
    (hadm : h.Admissible now e) : ∃ h', h.step now e = .ok h' ∧ RoundInv h' := by
  cases e with
  | setAvgRtt avgRtt => exact ⟨_, rfl, hinv.wait hadm.later avgRtt⟩
  | timer => exact hinv.timer (hadm.fires rfl)
  | packet tcpHeader bytes bandwidth selected =>
    by_cases hmeasured : MpOrbDeltaQueue.Measured tcpHeader bytes
    · obtain ⟨hbytes, tag, rfl, hdata⟩ := hmeasured
      obtain ⟨hrate, htotal⟩ := hadm.rates tag bytes bandwidth selected rfl hbytes hdata
      exact hinv.packet hadm.later bandwidth selected hbytes hdata hrate htotal
    · exact ⟨_, step_unmeasured hmeasured, hinv.wait hadm.later h.queue.avgRtt⟩

/-! ## Every run -/

theorem RoundInv.run {h h' : RoundHistory} (hinv : RoundInv h)
    (hrun : Relation.ReflTransGen RoundHistory.Step h h') : RoundInv h' := by
  induction hrun with
  | refl => exact hinv
  | tail _ hstep ih =>
    obtain ⟨now, e, hadm, hok⟩ := hstep
    obtain ⟨h'', hok', hinv'⟩ := ih.step hadm
    rw [hok] at hok'
    cases hok'
    exact hinv'

/-- The round protocol in one state. -/
structure RoundProtocol (h : RoundHistory) : Prop where
  /-- Accumulated mass always meets a boundary. -/
  timer : 0 < h.queue.deltaShuffle.mass → h.queue.deltaShuffleTimer.isSome
  /-- No event that can come next makes `scheduleAt` or the rate check fail. -/
  noError : ∀ now e, h.Admissible now e → ∃ h', h.step now e = .ok h'
  fed : ∀ r ∈ h.rounds, ∀ o ∈ r.observations, Fed h.rounds r o

/-- **The round protocol holds in every reachable state.** -/
theorem round_protocol {q : MpOrbDeltaQueue} (hq : q.Fresh) {start : SimTime} {h : RoundHistory}
    (hrun : Relation.ReflTransGen RoundHistory.Step { queue := q, now := start } h) :
    RoundProtocol h := by
  have hinv := (RoundInv.start hq start).run hrun
  refine ⟨?_, ?_, hinv.chronicle.fed⟩
  · intro hmass
    rcases hinv.phase with hrest | ⟨r, older, hrun⟩
    · rw [hrest.mass] at hmass
      exact absurd hmass (lt_irrefl 0)
    · rw [hrun.timer]; rfl
  · intro now e hadm
    obtain ⟨h', hok, -⟩ := hinv.step hadm
    exact ⟨h', hok⟩

theorem measuringQueue_fresh : measuringQueue.Fresh :=
  ⟨by decide +kernel, by decide +kernel, rfl, rfl⟩

/-- One segment opens a round. -/
def firstRound : RoundHistory :=
  let opened := measuringQueue.inRound 0
  { queue := (opened.observePacket (opened.claimTag segmentTag) 1448 125000 true).1
    now := 0
    rounds := [⟨0, 1 / 10, [opened.observation segmentTag 1448]⟩] }

/-- The next round begins at the deadline of the first. -/
def secondRound : RoundHistory :=
  { queue := firstRound.queue.inRound (1 / 10)
    now := 1 / 10
    rounds := ⟨1 / 10, 2 / 10, []⟩ :: firstRound.rounds }

theorem firstRound_admissible : RoundHistory.Admissible { queue := measuringQueue, now := 0 } 0
    (.packet (some segmentTag) 1448 125000 true) := by
  refine ⟨le_rfl, fun _ h => (nomatch h), fun h => (nomatch h), ?_⟩
  rintro tag bytes bandwidth selected ⟨⟩ - -
  exact ⟨by decide +kernel, by decide +kernel⟩

theorem firstRound_step : RoundHistory.step { queue := measuringQueue, now := 0 } 0
    (.packet (some segmentTag) 1448 125000 true) = .ok firstRound := by with_unfolding_all rfl

theorem secondRound_admissible : firstRound.Admissible (1 / 10) .timer := by
  refine ⟨by decide +kernel, ?_, fun _ => by decide +kernel, fun _ _ _ _ h => nomatch h⟩
  rintro deadline ⟨⟩
  decide +kernel

theorem secondRound_step : firstRound.step (1 / 10) .timer = .ok secondRound := by
  with_unfolding_all rfl

theorem secondRound_packet_admissible {tag : DeltaShuffleTag} (hrate : 0 ≤ tag.subflowRate)
    (htotal : tag.subflowRate ≤ tag.connectionRate) :
    secondRound.Admissible (11 / 100) (.packet (some tag) 1448 125000 true) := by
  refine ⟨by decide +kernel, ?_, fun h => (nomatch h), ?_⟩
  · rintro deadline ⟨⟩
    decide +kernel
  · rintro _ bytes bandwidth selected ⟨⟩ - -
    exact ⟨hrate, htotal⟩

/-- A segment of the second round. -/
def fedRound : RoundHistory :=
  { queue := (secondRound.queue.observePacket (secondRound.queue.claimTag segmentTag) 1448 125000
      true).1
    now := 11 / 100
    rounds := ⟨1 / 10, 2 / 10, [secondRound.queue.observation segmentTag 1448]⟩ ::
      firstRound.rounds }

/-- The segment of the second round is measured with the mass and the mean of the first. -/
theorem round_protocol_second_round :
    RoundProtocol fedRound ∧
      (secondRound.queue.observation segmentTag 1448).previousMass = 362 / 25 ∧
      (secondRound.queue.observation segmentTag 1448).previousMeanRate = 3000 := by
  have hpacket : RoundHistory.Step secondRound fedRound :=
    ⟨11 / 100, .packet (some segmentTag) 1448 125000 true,
      secondRound_packet_admissible (by decide +kernel) (by decide +kernel),
      by with_unfolding_all rfl⟩
  have hprotocol : RoundProtocol fedRound := round_protocol measuringQueue_fresh
    (((Relation.ReflTransGen.single ⟨_, _, firstRound_admissible, firstRound_step⟩).tail
      ⟨_, _, secondRound_admissible, secondRound_step⟩).tail hpacket)
  have hfed := hprotocol.fed _ List.mem_cons_self _ (List.mem_singleton.2 rfl)
  obtain ⟨-, hmass, hmean⟩ := hfed.previous ⟨0, 1 / 10, _⟩
    (List.mem_cons_of_mem _ (List.mem_singleton.2 rfl)) rfl (List.cons_ne_nil _ _)
  exact ⟨hprotocol, hmass.trans (by decide +kernel), hmean.trans (by decide +kernel)⟩

end MpOrb
