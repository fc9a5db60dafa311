import MpOrb.DeltaNetwork
import MpOrb.DeltaRounds
import MpOrb.Lib.Vouchers

/-!
# The correction budget of a shared bottleneck

Any number of Delta subflows cross one enabled Delta queue, next to other traffic.  Each of them has
a lossy network of its own, which drops, duplicates and reorders packets and ACKs before and after
the queue and leads over other hops.

* `Bottleneck.Step` — a party of one subflow moves, a packet crosses the queue, or the queue meets
  its timer or other traffic.
* `Bottleneck.Step.of_carry` — a hop with another node id is such a party.
* `step_measures`, `RoundInv.step_cases` — what the queue's rounds look like after an event.
* `Attributed` — all feedback in the node's name was written by this queue, and the feedback of a
  round is part of the round's observations.
* `round_raised_le`, `round_lowered_le` — the corrections of a round against the round before.
* `correction_budget` — in every reachable state, whatever the networks do, the corrections that
  the senders took from the feedback of one round stay within `deltaShuffleFraction` of the link
  bandwidth, scaled by the growth of the population from the round before.
-/

set_option autoImplicit false

namespace MpOrb

variable {ι α : Type}

/-! ## The system -/

/-- Feedback that the queue wrote on a packet of a subflow, in the round that began at `start`. -/
structure Feedback (ι : Type) where
  start : SimTime
  subflow : ι
  tag : DeltaShuffleTag

/-- `written` is history: no step reads it. -/
structure Bottleneck (ι α : Type) where
  history : RoundHistory
  subflows : ι → Network α
  written : List (Feedback ι) := []

namespace Bottleneck

/-- The node that the queue sits in. -/
def node (s : Bottleneck ι α) : ℤ := s.history.queue.nodeId

/-- A measured packet whose bottleneck this queue is takes feedback of the running round. -/
def noteFeedback (rounds : List Round) (subflow : ι) (tag tag' : DeltaShuffleTag)
    (tcpPayloadBytes : ℕ) (selectedBottleneck : Bool) (written : List (Feedback ι)) :
    List (Feedback ι) :=
  match rounds with
  | [] => written
  | r :: _ =>
    if tcpPayloadBytes = 0 ∨ tag.echoed ∨ selectedBottleneck = false then written
    else ⟨r.start, subflow, tag'⟩ :: written

/-- The network of a subflow after a packet crossed the queue. -/
def crossed (n : Network α) (tag tag' : DeltaShuffleTag) : Network α :=
  { n with data := tag' :: n.data.erase tag, copies := tag' :: n.copies }

/-- One step of a subflow's network or of the queue. -/
inductive Step [DecidableEq ι] (alpha : ι → Alpha α) (bandwidth : ℚ) (s : Bottleneck ι α) :
    Bottleneck ι α → Prop where
  /-- The sender, the receiver or another hop of a subflow; node ids are distinct, so no other hop
  writes feedback in the name of this node. -/
  | party (i : ι) (n : Network α) (step : (s.subflows i).Step (alpha i) n)
    (foreign : ∀ copy ∈ n.copies, copy ∈ (s.subflows i).copies ∨ copy.hops = 0 ∨
      copy.bottleneckId ≠ s.node) :
    Step alpha bandwidth s { s with subflows := Function.update s.subflows i n }
  /-- A data packet of a subflow crosses the queue. -/
  | cross (i : ι) (tag tag' : DeltaShuffleTag) (tcpPayloadBytes : ℕ) (selected : Bool)
    (now : SimTime) (q : MpOrbDeltaQueue) (h : RoundHistory)
    (inFlight : tag ∈ (s.subflows i).data)
    (admissible :
      s.history.Admissible now (.packet (some tag) tcpPayloadBytes bandwidth selected))
    (processed : s.history.queue.processTelemetryExtension now (some tag) tcpPayloadBytes bandwidth
      selected = .ok (q, some tag'))
    (recorded :
      s.history.step now (.packet (some tag) tcpPayloadBytes bandwidth selected) = .ok h) :
    Step alpha bandwidth s
      { history := h
        subflows := Function.update s.subflows i (crossed (s.subflows i) tag tag')
        written := noteFeedback h.rounds i tag tag' tcpPayloadBytes selected s.written }
  /-- The timer, a new round-trip estimate or a packet of other traffic. -/
  | queue (now : SimTime) (e : QueueEvent) (h : RoundHistory)
    (admissible : s.history.Admissible now e) (recorded : s.history.step now e = .ok h) :
    Step alpha bandwidth s { s with history := h }

end Bottleneck

/-- Another hop keeps or clears the feedback of a packet or writes feedback in its own name. -/
theorem Hop.carry_foreign {hop : Hop} {c c' : Carried} {tcpPayloadBytes : ℕ}
    (hbytes : tcpPayloadBytes ≠ 0) (hdata : DataTag c.tag) {node : ℤ} (hid : hop.nodeId ≠ node)
    (hcarry : hop.carry tcpPayloadBytes c = .ok c') :
    c'.tag = c.tag ∨ c'.tag.hops = 0 ∨ c'.tag.bottleneckId ≠ node := by
  obtain ⟨-, -, ⟨hkept, -⟩ | ⟨hcleared, -⟩ | ⟨-, hown, -⟩⟩ := Hop.carry_cases hbytes hdata hcarry
  · exact Or.inl hkept
  · exact Or.inr (Or.inl hcleared)
  · exact Or.inr (Or.inr (hown ▸ hid))

/-- **Another hop is a party of the subflow's network.** -/
theorem Bottleneck.Step.of_carry [DecidableEq ι] {alpha : ι → Alpha α} {bandwidth : ℚ}
    {s : Bottleneck ι α} (i : ι) {hop : Hop} {c c' : Carried} {tcpPayloadBytes : ℕ}
    (hbytes : tcpPayloadBytes ≠ 0) (hdata : DataTag c.tag) (hid : hop.nodeId ≠ s.node)
    (hmem : c.tag ∈ (s.subflows i).data) (hheld : c.tag ∈ (s.subflows i).copies)
    (hcarry : hop.carry tcpPayloadBytes c = .ok c') :
    Step alpha bandwidth s
      { s with
        subflows := Function.update s.subflows i (crossed (s.subflows i) c.tag c'.tag) } := by
  refine .party i _ (Network.step_of_carry (alpha i) hbytes hdata hmem hcarry) fun copy hcopy => ?_
  rcases List.mem_cons.1 hcopy with rfl | hcopy
  · obtain hkept | hother := Hop.carry_foreign hbytes hdata hid hcarry
    · rw [hkept]
      exact Or.inl hheld
    · exact Or.inr hother
  · exact Or.inl hcopy

/-! ## What an event does to the rounds -/

/-- The round that a measured packet belongs to: the newest one, or a new one that begins later
than all others. -/
structure OpenRound (rounds : List Round) (r : Round) (older : List Round) : Prop where
  newest : rounds = r :: older ∨
    (r.observations = [] ∧ older = rounds ∧ ∀ p ∈ rounds, p.start < r.start)

namespace MpOrbDeltaQueue

variable {q q' : MpOrbDeltaQueue} {now : SimTime} {tag tag' : DeltaShuffleTag} {bandwidth : ℚ}
  {tcpPayloadBytes : ℕ} {selected : Bool}

theorem openRound_params (hround : 0 < q.roundInterval) (h : q.openRound now = .ok q') :
    q'.params = q.params ∧ q'.nodeId = q.nodeId := by
  cases htimer : q.deltaShuffleTimer with
  | some d =>
    rw [openRound_pending htimer] at h
    cases h
    exact ⟨rfl, rfl⟩
  | none =>
    rw [openRound_idle hround htimer] at h
    cases h
    exact ⟨rfl, rfl⟩

theorem observePacket_params (q : MpOrbDeltaQueue) (tag : DeltaShuffleTag) (bytes : ℕ)
    (bandwidth : ℚ) (selected : Bool) :
    (q.observePacket tag bytes bandwidth selected).1.params = q.params ∧
      (q.observePacket tag bytes bandwidth selected).1.nodeId = q.nodeId := by
  cases selected <;> exact ⟨rfl, rfl⟩

end MpOrbDeltaQueue

/-- A measured packet is observed in the round that is open once the queue is through with it. -/
theorem step_measures {h : RoundHistory} {now : SimTime} {tag : DeltaShuffleTag} {bytes : ℕ}
    (bandwidth : ℚ) (selected : Bool) (hinv : RoundInv h) (hbytes : bytes ≠ 0)
    (hdata : tag.echoed = false) (hrate : 0 ≤ tag.subflowRate)
    (htotal : tag.subflowRate ≤ tag.connectionRate) {q : MpOrbDeltaQueue} {r : Round}
    {older : List Round} (hopen : h.queue.openRound now = .ok q)
    (hrounds : (if h.queue.deltaShuffleTimer.isSome then h.rounds
      else noteRound now q.deltaShuffleTimer h.rounds) = r :: older) :
    h.step now (.packet (some tag) bytes bandwidth selected) =
      .ok ⟨(q.observePacket (if selected then h.queue.claimTag tag else tag) bytes bandwidth
          selected).1, now,
        { r with observations := q.observation tag bytes :: r.observations } :: older⟩ := by
  unfold RoundHistory.step
  simp only [MpOrbDeltaQueue.process_enabled hbytes hdata hinv.enabled hrate htotal hopen]
  show Except.ok (RoundHistory.mk _ _ _) = _
  have htimer : ∀ tag', (q.observePacket tag' bytes bandwidth selected).1.deltaShuffleTimer =
      q.deltaShuffleTimer := fun tag' => by cases selected <;> rfl
  rw [htimer, hrounds]
  cases selected <;> simp [noteObservation, hbytes, hdata] <;> rfl

theorem RoundInv.openRound {h : RoundHistory} (hinv : RoundInv h) {now : SimTime}
    (hlater : h.now ≤ now) :
    ∃ q r older, h.queue.openRound now = .ok q ∧ OpenRound h.rounds r older ∧
      (if h.queue.deltaShuffleTimer.isSome then h.rounds
        else noteRound now q.deltaShuffleTimer h.rounds) = r :: older := by
  rcases hinv.phase with hrest | ⟨r, older, hrun⟩
  · refine ⟨_, ⟨now, now + h.queue.roundInterval, []⟩, h.rounds,
      MpOrbDeltaQueue.openRound_idle hinv.roundInterval_pos hrest.timer, ⟨Or.inr ⟨rfl, rfl, ?_⟩⟩,
      by rw [hrest.timer]; rfl⟩
    intro p hp
    obtain ⟨_, hreg⟩ := hinv.chronicle.regular p hp
    exact (hreg.lasts.trans_le (hrest.expired p hp)).trans_le hlater
  · exact ⟨_, r, older, MpOrbDeltaQueue.openRound_pending hrun.timer, ⟨Or.inl hrun.rounds⟩, by
      rw [hrun.timer]; exact hrun.rounds⟩

/-- An event of the queue: the rounds stay, a round without observations begins, or a measured
packet joins the round that is open for it. -/
inductive RoundsAfter (h : RoundHistory) (now : SimTime) (e : QueueEvent) : List Round → Prop where
  | kept (skip : ∀ tag bytes bandwidth selected, e = .packet (some tag) bytes bandwidth selected →
      bytes = 0 ∨ tag.echoed = true) : RoundsAfter h now e h.rounds
  | began (deadline : SimTime) (timer : e = .timer) (late : ∀ p ∈ h.rounds, p.start < now) :
    RoundsAfter h now e (⟨now, deadline, []⟩ :: h.rounds)
  | observed (tag : DeltaShuffleTag) (bytes : ℕ) (bandwidth : ℚ) (selected : Bool)
    (q : MpOrbDeltaQueue) (r : Round) (older : List Round)
    (packet : e = .packet (some tag) bytes bandwidth selected)
    (payload : bytes ≠ 0) (data : tag.echoed = false) (opened : h.queue.openRound now = .ok q)
    (joins : OpenRound h.rounds r older) :
    RoundsAfter h now e ({ r with observations := q.observation tag bytes :: r.observations } ::
      older)

/-- **What an event does.** -/
theorem RoundInv.step_cases {h h' : RoundHistory} (hinv : RoundInv h) {now : SimTime}
    {e : QueueEvent} (hadm : h.Admissible now e) (hstep : h.step now e = .ok h') :
    h'.queue.params = h.queue.params ∧ h'.queue.nodeId = h.queue.nodeId ∧
      RoundsAfter h now e h'.rounds := by
  cases e with
  | setAvgRtt avgRtt =>
    cases hstep
    exact ⟨rfl, rfl, .kept fun _ _ _ _ he => nomatch he⟩
  | timer =>
    have htimer := hadm.fires rfl
    rcases hinv.phase with hrest | ⟨r, older, hrun⟩
    · rw [hrest.timer] at htimer
      cases htimer
    have hdeadline : r.deadline = now := Option.some.inj (hrun.timer.symm.trans htimer)
    by_cases hbusy : 0 < h.queue.deltaShuffle.mass
    · unfold RoundHistory.step at hstep
      simp only [MpOrbDeltaQueue.handleShuffleTimer_busy hinv.roundInterval_pos hbusy] at hstep
      cases hstep
      refine ⟨rfl, rfl, .began _ rfl fun p hp => ?_⟩
      have hchron := hinv.chronicle
      rw [hrun.rounds] at hp hchron
      obtain ⟨_, hreg⟩ := hchron.regular p hp
      refine hreg.lasts.trans_le ?_
      rcases List.mem_cons.1 hp with rfl | hp
      · exact hdeadline.le
      · exact ((hchron.deadline_lt p hp).trans_eq hdeadline).le
    · unfold RoundHistory.step at hstep
      simp only [MpOrbDeltaQueue.handleShuffleTimer_idle hbusy] at hstep
      cases hstep
      exact ⟨rfl, rfl, .kept fun _ _ _ _ he => nomatch he⟩
  | packet tcpHeader bytes bandwidth selected =>
    by_cases hmeasured : MpOrbDeltaQueue.Measured tcpHeader bytes
    · obtain ⟨hbytes, tag, rfl, hdata⟩ := hmeasured
      obtain ⟨hrate, htotal⟩ := hadm.rates tag bytes bandwidth selected rfl hbytes hdata
      obtain ⟨q, r, older, hopen, hjoins, hrounds⟩ := hinv.openRound hadm.later
      rw [step_measures bandwidth selected hinv hbytes hdata hrate htotal hopen hrounds] at hstep
      cases hstep
      obtain ⟨hparams, hnode⟩ := MpOrbDeltaQueue.openRound_params hinv.roundInterval_pos hopen
      obtain ⟨hparams', hnode'⟩ := q.observePacket_params
        (if selected then h.queue.claimTag tag else tag) bytes bandwidth selected
      exact ⟨hparams'.trans hparams, hnode'.trans hnode,
        .observed tag bytes bandwidth selected q r older rfl hbytes hdata hopen hjoins⟩
    · rw [step_unmeasured hmeasured] at hstep
      cases hstep
      refine ⟨rfl, rfl, .kept ?_⟩
      rintro tag bytes bandwidth selected ⟨⟩
      exact MpOrbDeltaQueue.not_measured hmeasured

/-! ## Readings -/

/-- What a correction is computed from. -/
structure Reading where
  packetMass : ℚ
  rateAllowance : ℚ
  connectionRate : ℚ
  meanConnectionRate : ℚ

def Reading.correction (x : Reading) : ℚ :=
  rateCorrection x.packetMass x.rateAllowance x.connectionRate x.meanConnectionRate

def DeltaShuffleTag.reading (tag : DeltaShuffleTag) : Reading :=
  ⟨tag.packetMass, tag.rateAllowance, tag.connectionRate, tag.meanConnectionRate⟩

/-- The feedback on an observed packet, if this queue is its bottleneck. -/
def Observation.reading (deltaShuffleFraction bandwidth : ℚ) (o : Observation) : Reading :=
  ⟨o.mass, if 0 < o.previousMass then deltaShuffleFraction * bandwidth / o.previousMass else 0,
    o.connectionRate, o.previousMeanRate⟩

namespace MpOrbDeltaQueue

/-- **The queue writes the reading of its observation.** -/
theorem observePacket_reading (q₀ q : MpOrbDeltaQueue) (tag : DeltaShuffleTag) (bytes : ℕ)
    (bandwidth : ℚ) :
    (q.observePacket (q₀.claimTag tag) bytes bandwidth true).2.reading =
      (q.observation tag bytes).reading q.params.deltaShuffleFraction bandwidth :=
  rfl

theorem process_tag {q q' : MpOrbDeltaQueue} {now : SimTime} {tag tag' : DeltaShuffleTag}
    {bandwidth : ℚ} {bytes : ℕ} {selected : Bool} (hon : 0 < q.params.deltaShuffleFraction)
    (hrates : bytes ≠ 0 → tag.echoed = false →
      0 ≤ tag.subflowRate ∧ tag.subflowRate ≤ tag.connectionRate)
    (h : q.processTelemetryExtension now (some tag) bytes bandwidth selected =
      .ok (q', some tag')) :
    ((bytes = 0 ∨ tag.echoed = true ∨ selected = false) ∧ tag' = tag) ∨
      (bytes ≠ 0 ∧ tag.echoed = false ∧ selected = true ∧ ∃ q₁, q.openRound now = .ok q₁ ∧
        tag' = (q₁.observePacket (q.claimTag tag) bytes bandwidth true).2) := by
  by_cases hmeasured : Measured (some tag) bytes
  · obtain ⟨hbytes, _, ⟨⟩, hdata⟩ := hmeasured
    obtain ⟨hrate, htotal⟩ := hrates hbytes hdata
    obtain ⟨q₁, hopen, hresult⟩ := process_enabled_inv hbytes hdata hon hrate htotal h
    cases selected with
    | false =>
      cases hresult
      exact Or.inl ⟨Or.inr (Or.inr rfl), rfl⟩
    | true =>
      cases hresult
      exact Or.inr ⟨hbytes, hdata, rfl, q₁, hopen, rfl⟩
  · rw [process_unmeasured hmeasured] at h
    cases h
    exact Or.inl ⟨(not_measured hmeasured).imp_right Or.inl, rfl⟩

end MpOrbDeltaQueue

/-! ## The budget of a round -/

section Budget

variable {r p : Round} {fraction bandwidth : ℚ}

theorem Observation.correction_eq {o : Observation} (hmass : 0 < p.mass)
    (hprevious : o.previousMass = p.mass ∧ o.previousMeanRate = p.meanRate)
    (hmean : 0 < p.meanRate) :
    (o.reading fraction bandwidth).correction = fraction * bandwidth / p.mass *
      WeightedMean.deviation Observation.mass Observation.connectionRate p.meanRate o := by
  obtain ⟨hM, hX⟩ := hprevious
  simp only [Reading.correction, Observation.reading, rateCorrection, hM, hX, if_pos hmass,
    if_pos hmean, WeightedMean.deviation]
  ring

theorem Observation.correction_eq_zero {o : Observation} (hmean : ¬ 0 < o.previousMeanRate) :
    (o.reading fraction bandwidth).correction = 0 :=
  if_neg hmean

/-- What the packets of a round were measured with and against. -/
structure Behind (r p : Round) : Prop where
  mass : ∀ o ∈ r.observations, 0 < o.mass
  rate : ∀ o ∈ r.observations, 0 ≤ o.connectionRate
  population : 0 < p.mass
  moment : 0 ≤ p.rateMass
  previous : ∀ o ∈ r.observations, o.previousMass = p.mass ∧ o.previousMeanRate = p.meanRate

theorem Behind.sum_part (h : Behind r p) (part : ℚ → ℚ) (hpart : ∀ c d, 0 ≤ c →
    part (c * d) = c * part d) (hbudget : 0 ≤ fraction * bandwidth) (hmean : 0 < p.meanRate) :
    (r.observations.map fun o => part (o.reading fraction bandwidth).correction).sum =
      fraction * bandwidth / p.mass * (r.observations.map fun o => part
        (WeightedMean.deviation Observation.mass Observation.connectionRate p.meanRate o)).sum := by
  rw [← List.sum_map_mul_left]
  congr 1
  refine List.map_congr_left fun o ho => ?_
  rw [Observation.correction_eq h.population (h.previous o ho) hmean,
    hpart _ _ (div_nonneg hbudget h.population.le)]

theorem Behind.sum_part_zero (h : Behind r p) (part : ℚ → ℚ) (hzero : part 0 = 0)
    (hmean : ¬ 0 < p.meanRate) :
    (r.observations.map fun o => part (o.reading fraction bandwidth).correction).sum = 0 := by
  refine List.sum_eq_zero (List.forall_mem_map.2 fun o ho => ?_)
  rw [Observation.correction_eq_zero (by rw [(h.previous o ho).2]; exact hmean), hzero]

/-- **What a round raises**: at most the budget times the growth of the mass. -/
theorem round_raised_le (h : Behind r p) (hbudget : 0 ≤ fraction * bandwidth) :
    (r.observations.map fun o => max 0 (o.reading fraction bandwidth).correction).sum ≤
      fraction * bandwidth * r.mass / p.mass := by
  by_cases hmean : 0 < p.meanRate
  · rw [h.sum_part (max 0) (fun c d hc => by rw [mul_max_of_nonneg _ _ hc, mul_zero]) hbudget
      hmean, mul_div_right_comm (fraction * bandwidth)]
    refine mul_le_mul_of_nonneg_left ?_ (div_nonneg hbudget h.population.le)
    exact WeightedMean.sum_pos_deviation_le hmean h.mass h.rate
  · rw [h.sum_part_zero (max 0) (max_self 0) hmean]
    exact div_nonneg (mul_nonneg hbudget (WeightedMean.total_nonneg h.mass)) h.population.le

theorem Behind.rateMass_nonneg (h : Behind r p) : 0 ≤ r.rateMass :=
  List.sum_nonneg (List.forall_mem_map.2 fun o ho => mul_nonneg (h.mass o ho).le (h.rate o ho))

/-- **What a round lowers**: at most the budget times the growth of the rate mass. -/
theorem round_lowered_le (h : Behind r p) (hbudget : 0 ≤ fraction * bandwidth) :
    (r.observations.map fun o => max 0 (-(o.reading fraction bandwidth).correction)).sum ≤
      fraction * bandwidth * r.rateMass / p.rateMass := by
  by_cases hmean : 0 < p.meanRate
  · have hmoment : p.rateMass = p.mass * p.meanRate := (mul_div_cancel₀ _ h.population.ne').symm
    rw [h.sum_part (fun x => max 0 (-x)) (fun c d hc => by
      rw [mul_max_of_nonneg _ _ hc, mul_zero, mul_neg]) hbudget hmean, hmoment,
      mul_div_mul_comm]
    refine mul_le_mul_of_nonneg_left ?_ (div_nonneg hbudget h.population.le)
    exact WeightedMean.sum_neg_deviation_le hmean h.mass h.rate
  · rw [h.sum_part_zero (fun x => max 0 (-x)) (by rw [neg_zero, max_self]) hmean]
    exact div_nonneg (mul_nonneg hbudget h.rateMass_nonneg) h.moment

end Budget

/-! ## Attribution -/

namespace Bottleneck

def fraction (s : Bottleneck ι α) : ℚ := s.history.queue.params.deltaShuffleFraction

/-- The feedback that was written in a round. -/
def writtenIn (s : Bottleneck ι α) (r : Round) : List (Feedback ι) :=
  s.written.filter fun f => f.start = r.start

/-- The credits of a subflow for feedback of a round. -/
def creditsOf [DecidableEq ι] (s : Bottleneck ι α) (r : Round) (i : ι) : List Credit :=
  (s.subflows i).credits.filter fun c =>
    (s.writtenIn r).any fun f => f.subflow = i ∧ f.tag.echo = c.tag

/-- Where feedback comes from: feedback in the name of this node was written by this queue, in one
of its rounds, and the feedback of a round reads like a part of the round's observations. -/
structure Attributed (bandwidth : ℚ) (s : Bottleneck ι α) : Prop where
  origin : ∀ i, ∀ copy ∈ (s.subflows i).copies, 0 < copy.hops → copy.bottleneckId = s.node →
    ∃ f ∈ s.written, f.subflow = i ∧ f.tag = copy
  dated : ∀ f ∈ s.written, ∃ r ∈ s.history.rounds, f.start = r.start
  measured : ∀ r ∈ s.history.rounds, ((s.writtenIn r).map (·.tag.reading)).Sublist
    (r.observations.map (Observation.reading s.fraction bandwidth))
  rates : ∀ r ∈ s.history.rounds, ∀ o ∈ r.observations, 0 ≤ o.connectionRate

section Steps

variable {s : Bottleneck ι α} {bandwidth : ℚ}

/-- No feedback was written before the oldest round or in a round yet to begin. -/
theorem Attributed.unwritten (h : Attributed bandwidth s) {r : Round}
    (hlate : ∀ p ∈ s.history.rounds, p.start < r.start) : s.writtenIn r = [] := by
  refine List.filter_eq_nil_iff.2 fun f hf => ?_
  obtain ⟨p, hp, hstart⟩ := h.dated f hf
  rw [hstart]
  simpa using (hlate p hp).ne

/-- The round that a packet joins is like any other, and the rounds before it began earlier. -/
theorem Attributed.joined (h : Attributed bandwidth s) (hinv : RoundInv s.history) {r : Round}
    {older : List Round} (hjoins : OpenRound s.history.rounds r older) :
    ((s.writtenIn r).map (·.tag.reading)).Sublist
        (r.observations.map (Observation.reading s.fraction bandwidth)) ∧
      (∀ o ∈ r.observations, 0 ≤ o.connectionRate) ∧
      (∀ p ∈ older, p ∈ s.history.rounds ∧ p.start < r.start) ∧
      ∀ f ∈ s.written, ∃ p ∈ r :: older, f.start = p.start := by
  have hchron := hinv.chronicle
  rcases hjoins.newest with hrounds | ⟨hempty, rfl, hlate⟩
  · have hr : r ∈ s.history.rounds := by rw [hrounds]; exact List.mem_cons_self
    refine ⟨h.measured r hr, h.rates r hr, fun p hp => ?_, hrounds ▸ h.dated⟩
    rw [hrounds] at hchron ⊢
    refine ⟨List.mem_cons_of_mem _ hp, ?_⟩
    cases hchron with
    | cons hold hafter _ =>
      obtain ⟨_, hreg⟩ := hold.regular p hp
      exact hreg.lasts.trans_le (hafter p hp)
  · refine ⟨?_, by simp [hempty], fun p hp => ⟨hp, hlate p hp⟩, fun f hf => ?_⟩
    · rw [h.unwritten hlate]
      exact List.nil_sublist _
    · obtain ⟨p, hp, hstart⟩ := h.dated f hf
      exact ⟨p, List.mem_cons_of_mem _ hp, hstart⟩

/-- Another observation in the open round, with or without feedback to a subflow. -/
theorem Attributed.observe {s' : Bottleneck ι α} (h : Attributed bandwidth s)
    (hinv : RoundInv s.history) {r : Round} {older : List Round} {o : Observation}
    (hjoins : OpenRound s.history.rounds r older)
    (hrounds : s'.history.rounds = { r with observations := o :: r.observations } :: older)
    (hfraction : s'.fraction = s.fraction) (hrate : 0 ≤ o.connectionRate)
    (hwritten : s'.written = s.written ∨ ∃ f : Feedback ι, s'.written = f :: s.written ∧
      f.start = r.start ∧ f.tag.reading = o.reading s.fraction bandwidth)
    (horigin : ∀ i, ∀ copy ∈ (s'.subflows i).copies, 0 < copy.hops →
      copy.bottleneckId = s'.node → ∃ f ∈ s'.written, f.subflow = i ∧ f.tag = copy) :
    Attributed bandwidth s' := by
  obtain ⟨hsub, hrates, holder, hdated⟩ := h.joined hinv hjoins
  refine ⟨horigin, ?_, ?_, ?_⟩
  · have hold : ∀ f ∈ s.written, ∃ p ∈ s'.history.rounds, f.start = p.start := by
      intro f hf
      obtain ⟨p, hp, hstart⟩ := hdated f hf
      rw [hrounds]
      rcases List.mem_cons.1 hp with rfl | hp
      · exact ⟨{ p with observations := o :: p.observations }, List.mem_cons_self, hstart⟩
      · exact ⟨p, List.mem_cons_of_mem _ hp, hstart⟩
    rcases hwritten with hsame | ⟨f, hnew, hstart, -⟩
    · rw [hsame]
      exact hold
    · rw [hnew]
      refine List.forall_mem_cons.2 ⟨?_, hold⟩
      rw [hrounds]
      exact ⟨{ r with observations := o :: r.observations }, List.mem_cons_self, hstart⟩
  · rw [hrounds, hfraction]
    refine List.forall_mem_cons.2 ⟨?_, fun p hp => ?_⟩
    · rcases hwritten with hsame | ⟨f, hnew, hstart, hreading⟩
      · simp only [writtenIn, hsame]
        exact hsub.cons _
      · have hhead : s'.writtenIn { r with observations := o :: r.observations } =
            f :: s.writtenIn r := by
          simp only [writtenIn, hnew, List.filter_cons, hstart, decide_true, if_true]
        rw [hhead, List.map_cons, List.map_cons, hreading]
        exact hsub.cons_cons _
    · obtain ⟨hp, hlt⟩ := holder p hp
      have hkeep : s'.writtenIn p = s.writtenIn p := by
        rcases hwritten with hsame | ⟨f, hnew, hstart, -⟩
        · simp only [writtenIn, hsame]
        · simp only [writtenIn, hnew, List.filter_cons, hstart, hlt.ne', decide_false,
            Bool.false_eq_true, if_false]
      rw [hkeep]
      exact h.measured p hp
  · rw [hrounds]
    exact List.forall_mem_cons.2
      ⟨List.forall_mem_cons.2 ⟨hrate, hrates⟩, fun p hp => h.rates p (holder p hp).1⟩

theorem Attributed.begin {s' : Bottleneck ι α} (h : Attributed bandwidth s) {r : Round}
    (hempty : r.observations = []) (hlate : ∀ p ∈ s.history.rounds, p.start < r.start)
    (hrounds : s'.history.rounds = r :: s.history.rounds) (hfraction : s'.fraction = s.fraction)
    (hwritten : s'.written = s.written) (hsubflows : s'.subflows = s.subflows)
    (hnode : s'.node = s.node) : Attributed bandwidth s' := by
  have hkeep : ∀ p, s'.writtenIn p = s.writtenIn p := fun p => by simp only [writtenIn, hwritten]
  refine ⟨?_, ?_, ?_, ?_⟩
  · rw [hsubflows, hnode, hwritten]
    exact h.origin
  · rw [hwritten, hrounds]
    intro f hf
    obtain ⟨p, hp, hstart⟩ := h.dated f hf
    exact ⟨p, List.mem_cons_of_mem _ hp, hstart⟩
  · rw [hrounds, hfraction]
    refine List.forall_mem_cons.2 ⟨?_, fun p hp => hkeep p ▸ h.measured p hp⟩
    rw [hkeep, h.unwritten hlate]
    exact List.nil_sublist _
  · rw [hrounds]
    exact List.forall_mem_cons.2 ⟨by simp [hempty], h.rates⟩

theorem Attributed.party [DecidableEq ι] (h : Attributed bandwidth s) (i : ι) {n : Network α}
    (foreign : ∀ copy ∈ n.copies, copy ∈ (s.subflows i).copies ∨ copy.hops = 0 ∨
      copy.bottleneckId ≠ s.node) :
    Attributed bandwidth { s with subflows := Function.update s.subflows i n } := by
  refine ⟨?_, h.dated, h.measured, h.rates⟩
  refine (Function.forall_update_iff s.subflows fun j m => ∀ copy ∈ m.copies, 0 < copy.hops →
    copy.bottleneckId = s.node → ∃ f ∈ s.written, f.subflow = j ∧ f.tag = copy).2
      ⟨fun copy hcopy hhops hnode => ?_, fun j _ => h.origin j⟩
  rcases foreign copy hcopy with hold | hzero | hother
  · exact h.origin i copy hold hhops hnode
  · exact absurd hzero hhops.ne'
  · exact absurd hnode hother

theorem Attributed.queue (h : Attributed bandwidth s) (hinv : RoundInv s.history) {now : SimTime}
    {e : QueueEvent} {h' : RoundHistory} (hadm : s.history.Admissible now e)
    (hstep : s.history.step now e = .ok h') : Attributed bandwidth { s with history := h' } := by
  obtain ⟨hparams, hnode, hafter⟩ := hinv.step_cases hadm hstep
  have hfraction : h'.queue.params.deltaShuffleFraction = s.fraction := by rw [hparams]; rfl
  have horigin : ∀ i, ∀ copy ∈ (s.subflows i).copies, 0 < copy.hops →
      copy.bottleneckId = h'.queue.nodeId → ∃ f ∈ s.written, f.subflow = i ∧ f.tag = copy := by
    rw [hnode]
    exact h.origin
  generalize hrounds : h'.rounds = rounds at hafter
  cases hafter with
  | kept skip =>
    refine ⟨horigin, ?_, ?_, ?_⟩
    · show ∀ f ∈ s.written, ∃ r ∈ h'.rounds, f.start = r.start
      rw [hrounds]
      exact h.dated
    · show ∀ r ∈ h'.rounds, ((s.writtenIn r).map (·.tag.reading)).Sublist (r.observations.map
        (Observation.reading h'.queue.params.deltaShuffleFraction bandwidth))
      rw [hrounds, hfraction]
      exact h.measured
    · show ∀ r ∈ h'.rounds, _
      rw [hrounds]
      exact h.rates
  | began deadline timer late => exact h.begin rfl late hrounds hfraction rfl rfl hnode
  | observed tag bytes bandwidth' selected q r older packet payload data opened joins =>
    subst packet
    obtain ⟨hrate, htotal⟩ := hadm.rates tag bytes bandwidth' selected rfl payload data
    exact h.observe hinv joins hrounds hfraction (hrate.trans htotal) (Or.inl rfl) horigin

theorem Attributed.cross [DecidableEq ι] (h : Attributed bandwidth s) (hinv : RoundInv s.history)
    {i : ι} {tag tag' : DeltaShuffleTag} {bytes : ℕ} {selected : Bool} {now : SimTime}
    {q : MpOrbDeltaQueue} {h' : RoundHistory} (hcopy : tag ∈ (s.subflows i).copies)
    (hadm : s.history.Admissible now (.packet (some tag) bytes bandwidth selected))
    (hproc : s.history.queue.processTelemetryExtension now (some tag) bytes bandwidth selected =
      .ok (q, some tag'))
    (hstep : s.history.step now (.packet (some tag) bytes bandwidth selected) = .ok h') :
    Attributed bandwidth
      { history := h'
        subflows := Function.update s.subflows i (crossed (s.subflows i) tag tag')
        written := noteFeedback h'.rounds i tag tag' bytes selected s.written } := by
  have hqueue := h.queue hinv hadm hstep
  obtain ⟨hparams, hnode, hafter⟩ := hinv.step_cases hadm hstep
  have hrates := hadm.rates tag bytes bandwidth selected rfl
  rcases MpOrbDeltaQueue.process_tag hinv.enabled hrates hproc with
    ⟨hskip, rfl⟩ | ⟨hbytes, hdata, rfl, q₁, hopen, htag⟩
  · -- the tag stays, so there is no new copy
    have hnote : noteFeedback h'.rounds i tag' tag' bytes selected s.written = s.written := by
      cases h'.rounds with
      | nil => rfl
      | cons r _ => exact if_pos hskip
    rw [hnote]
    refine hqueue.party i fun copy hmem => Or.inl ?_
    rcases List.mem_cons.1 hmem with rfl | hmem
    · exact hcopy
    · exact hmem
  · generalize hrounds : h'.rounds = rounds at hafter
    cases hafter with
    | kept skip =>
      rcases skip tag bytes bandwidth true rfl with hzero | hecho
      · exact absurd hzero hbytes
      · rw [hdata] at hecho
        cases hecho
    | began deadline timer late => cases timer
    | observed tag₂ bytes₂ bandwidth₂ selected₂ q₂ r older packet payload data opened joins =>
      cases packet
      cases hopen.symm.trans opened
      obtain ⟨hrate, htotal⟩ := hrates hbytes hdata
      have hnote : noteFeedback (({ r with observations := q₁.observation tag bytes ::
          r.observations } : Round) :: older) i tag tag' bytes true s.written =
          ⟨r.start, i, tag'⟩ :: s.written := by
        refine if_neg ?_
        simp [hbytes, hdata]
      have hreading : tag'.reading =
          (q₁.observation tag bytes).reading s.fraction bandwidth := by
        rw [htag, MpOrbDeltaQueue.observePacket_reading,
          (MpOrbDeltaQueue.openRound_params hinv.roundInterval_pos hopen).1]
        rfl
      rw [hnote]
      refine h.observe hinv joins hrounds (congrArg DeltaParams.deltaShuffleFraction hparams)
        (hrate.trans htotal) (Or.inr ⟨_, rfl, rfl, hreading⟩) ?_
      refine (Function.forall_update_iff s.subflows fun j m => ∀ copy ∈ m.copies, 0 < copy.hops →
        copy.bottleneckId = h'.queue.nodeId → ∃ f ∈ ⟨r.start, i, tag'⟩ :: s.written,
          f.subflow = j ∧ f.tag = copy).2 ⟨?_, fun j _ copy hmem hhops hid => ?_⟩
      · refine List.forall_mem_cons.2 ⟨fun _ _ => ⟨_, List.mem_cons_self, rfl, rfl⟩, ?_⟩
        intro copy hmem hhops hid
        obtain ⟨f, hf, hrest⟩ := h.origin i copy hmem hhops (hid.trans hnode)
        exact ⟨f, List.mem_cons_of_mem _ hf, hrest⟩
      · obtain ⟨f, hf, hrest⟩ := h.origin j copy hmem hhops (hid.trans hnode)
        exact ⟨f, List.mem_cons_of_mem _ hf, hrest⟩

end Steps

end Bottleneck

/-- Only feedback that some hop wrote is credited. -/
theorem Network.Step.credits_hops {alpha : Alpha α} {n n' : Network α} (hstep : n.Step alpha n')
    (h : ∀ c ∈ n.credits, 0 < c.tag.hops) : ∀ c ∈ n'.credits, 0 < c.tag.hops := by
  have hdeliver : ∀ current data, ∀ c ∈ (n.deliver alpha current data).credits,
      0 < c.tag.hops := by
    intro current data
    cases current with
    | none => exact h
    | some tag =>
      by_cases hacc : n.sender.accepts tag data = true
      · obtain ⟨_, _, -, -, hhops, -⟩ := MpOrbDelta.accepts_iff.1 hacc
        simp only [Network.deliver, if_pos hacc]
        exact List.forall_mem_cons.2 ⟨hhops, h⟩
      · simp only [Network.deliver, if_neg hacc]
        exact h
  cases hstep with
  | deliver ack data inFlight => exact hdeliver (some ack) data
  | other current data unechoed => exact hdeliver current data
  | _ => exact h

namespace Bottleneck

/-! ## Every run -/

/-- The joint invariant of the queue, its rounds and the subflows. -/
structure Inv (bandwidth : ℚ) (s : Bottleneck ι α) : Prop where
  inFlight : ∀ i, (s.subflows i).InFlight
  credited : ∀ i, (s.subflows i).Credited
  hops : ∀ i, ∀ c ∈ (s.subflows i).credits, 0 < c.tag.hops
  rounds : RoundInv s.history
  attributed : Attributed bandwidth s

theorem rounds_step {h h' : RoundHistory} (hinv : RoundInv h) {now : SimTime} {e : QueueEvent}
    (hadm : h.Admissible now e) (hstep : h.step now e = .ok h') : RoundInv h' :=
  hinv.run (.single ⟨now, e, hadm, hstep⟩)

theorem Inv.step [DecidableEq ι] {alpha : ι → Alpha α} {bandwidth : ℚ} {s s' : Bottleneck ι α}
    (h : Inv bandwidth s) (hstep : Step alpha bandwidth s s') : Inv bandwidth s' := by
  cases hstep with
  | party i n step foreign =>
    refine ⟨?_, ?_, ?_, h.rounds, h.attributed.party i foreign⟩
    · exact (Function.forall_update_iff s.subflows fun _ m => m.InFlight).2
        ⟨(h.inFlight i).step step, fun j _ => h.inFlight j⟩
    · exact (Function.forall_update_iff s.subflows fun _ m => m.Credited).2
        ⟨(h.credited i).step (h.inFlight i) step, fun j _ => h.credited j⟩
    · exact (Function.forall_update_iff s.subflows fun _ m => ∀ c ∈ m.credits, 0 < c.tag.hops).2
        ⟨step.credits_hops (h.hops i), fun j _ => h.hops j⟩
  | cross i tag tag' bytes selected now q h' inFlight admissible processed recorded =>
    have hsame : SameStamp tag tag' := by
      rcases MpOrbDeltaQueue.process_tag h.rounds.enabled
        (admissible.rates tag bytes bandwidth selected rfl) processed with
        ⟨-, rfl⟩ | ⟨-, -, -, q₁, -, rfl⟩
      · exact .refl _
      · exact ⟨rfl, rfl, rfl, rfl⟩
    have hmove : (s.subflows i).Step (alpha i) (crossed (s.subflows i) tag tag') :=
      .rewrite tag tag' inFlight hsame
    have hcopy := (h.inFlight i).held tag (List.mem_append_left _ inFlight)
    refine ⟨?_, ?_, ?_, rounds_step h.rounds admissible recorded,
      h.attributed.cross h.rounds hcopy admissible processed recorded⟩
    · exact (Function.forall_update_iff s.subflows fun _ m => m.InFlight).2
        ⟨(h.inFlight i).step hmove, fun j _ => h.inFlight j⟩
    · exact (Function.forall_update_iff s.subflows fun _ m => m.Credited).2
        ⟨(h.credited i).step (h.inFlight i) hmove, fun j _ => h.credited j⟩
    · exact (Function.forall_update_iff s.subflows fun _ m => ∀ c ∈ m.credits, 0 < c.tag.hops).2
        ⟨h.hops i, fun j _ => h.hops j⟩
  | queue now e h' admissible recorded =>
    exact ⟨h.inFlight, h.credited, h.hops, rounds_step h.rounds admissible recorded,
      h.attributed.queue h.rounds admissible recorded⟩

/-- A queue before its first packet, and senders that have stamped and taken nothing. -/
def start (q : MpOrbDeltaQueue) (now : SimTime) (senders : ι → OrbState × α) : Bottleneck ι α :=
  { history := { queue := q, now }
    subflows := fun i => { sender := { state := (senders i).1, parent := (senders i).2 } } }

theorem Inv.start {q : MpOrbDeltaQueue} (hq : q.Fresh) (now : SimTime)
    (senders : ι → OrbState × α) (bandwidth : ℚ) : Inv bandwidth (start q now senders) := by
  refine ⟨fun i => ⟨rfl, Nat.two_pow_pos 64, ?_, List.Pairwise.nil, ?_, ?_, ?_⟩,
    fun i => ⟨List.Pairwise.nil, ?_, ?_, add_zero 0⟩, fun i => ?_, RoundInv.start hq now,
    ⟨fun i => ?_, ?_, ?_, ?_⟩⟩
  all_goals exact fun _ h => absurd h List.not_mem_nil

/-- The rounds that follow a round with observations are measured against it. -/
theorem Inv.behind {s : Bottleneck ι α} {bandwidth : ℚ} (h : Inv bandwidth s) {r p : Round}
    (hr : r ∈ s.history.rounds)
    (hp : p ∈ s.history.rounds) (hend : p.deadline = r.start) (hobs : p.observations ≠ []) :
    Behind r p := by
  obtain ⟨_, hreg⟩ := h.rounds.chronicle.regular r hr
  obtain ⟨_, hpreg⟩ := h.rounds.chronicle.regular p hp
  refine ⟨hreg.mass, h.attributed.rates r hr, hpreg.mass_pos hobs, ?_, fun o ho => ?_⟩
  · exact List.sum_nonneg (List.forall_mem_map.2 fun o ho =>
      mul_nonneg (hpreg.mass o ho).le (h.attributed.rates p hp o ho))
  · obtain ⟨-, hprevious⟩ := (h.rounds.chronicle.fed r hr o ho).previous p hp hend hobs
    exact hprevious

section Budgets

variable [DecidableEq ι] {s : Bottleneck ι α} {bandwidth : ℚ}

theorem mem_creditsOf {r : Round} {i : ι} {c : Credit} : c ∈ s.creditsOf r i ↔
    c ∈ (s.subflows i).credits ∧ ∃ f ∈ s.writtenIn r, f.subflow = i ∧ f.tag.echo = c.tag := by
  simp [creditsOf]

/-- **The senders take from a round at most what it holds**: however the feedback is lost,
duplicated and reordered, no packet's correction is taken twice. -/
theorem sum_creditsOf_le [Fintype ι] (h : Inv bandwidth s) (part : ℚ → ℚ) (hpart : ∀ c, 0 ≤ part c)
    {r : Round} (hr : r ∈ s.history.rounds) :
    ∑ i, ((s.creditsOf r i).map fun c => part c.tag.correction).sum ≤
      (r.observations.map fun o => part (o.reading s.fraction bandwidth).correction).sum := by
  let value : ι × DeltaShuffleTag → ℚ := fun v => part v.2.correction
  let issued := (s.writtenIn r).map fun f => (f.subflow, f.tag.echo)
  let redeemed := fun i => (s.creditsOf r i).map fun c => (i, c.tag)
  have hnodup : ∀ i, (redeemed i).Nodup := by
    intro i
    have hserials := (h.credited i).increasing.sublist
      ((List.filter_sublist (l := (s.subflows i).credits)
        (p := fun c => (s.writtenIn r).any fun f => f.subflow = i ∧ f.tag.echo = c.tag)).map _)
    refine List.pairwise_map.2 ((List.pairwise_map.1 hserials).imp ?_)
    intro a b hgt heq
    rw [(Prod.mk.inj heq).2] at hgt
    exact lt_irrefl _ hgt
  have hissued : ∀ i, ∀ v ∈ redeemed i, v ∈ issued ∧ v.1 = i := by
    intro i
    refine List.forall_mem_map.2 fun c hc => ⟨?_, rfl⟩
    obtain ⟨-, f, hf, hsubflow, hecho⟩ := mem_creditsOf.1 hc
    exact List.mem_map.2 ⟨f, hf, by rw [hsubflow, hecho]⟩
  calc ∑ i, ((s.creditsOf r i).map fun c => part c.tag.correction).sum
      = ∑ i, ((redeemed i).map value).sum := by simp only [redeemed, value, List.map_map]; rfl
    _ ≤ (issued.map value).sum :=
        Vouchers.sum_redeemed_le hnodup hissued fun v _ => hpart _
    _ = (((s.writtenIn r).map (·.tag.reading)).map fun x => part x.correction).sum := by
        simp only [issued, value, List.map_map]; rfl
    _ ≤ ((r.observations.map (Observation.reading s.fraction bandwidth)).map
          fun x => part x.correction).sum :=
        ((h.attributed.measured r hr).map _).sum_le_sum
          (List.forall_mem_map.2 fun x _ => hpart _)
    _ = _ := by rw [List.map_map]; rfl

/-- What the senders may take from the feedback of this queue. -/
structure WithinBudget [Fintype ι] (bandwidth : ℚ) (s : Bottleneck ι α) : Prop where
  /-- Every credit that names this node is for feedback of one of the rounds. -/
  attributed : ∀ i, ∀ c ∈ (s.subflows i).credits, c.tag.bottleneckId = s.node →
    ∃ r ∈ s.history.rounds, c ∈ s.creditsOf r i
  raised : ∀ r ∈ s.history.rounds, ∀ p ∈ s.history.rounds, p.deadline = r.start →
    p.observations ≠ [] →
    ∑ i, ((s.creditsOf r i).map fun c => max 0 c.tag.correction).sum ≤
      s.fraction * bandwidth * r.mass / p.mass
  lowered : ∀ r ∈ s.history.rounds, ∀ p ∈ s.history.rounds, p.deadline = r.start →
    p.observations ≠ [] →
    ∑ i, ((s.creditsOf r i).map fun c => max 0 (-c.tag.correction)).sum ≤
      s.fraction * bandwidth * r.rateMass / p.rateMass
  /-- The first round and one after an idle interval correct nothing. -/
  unfed : ∀ r ∈ s.history.rounds,
    (∀ p ∈ s.history.rounds, p.deadline = r.start → p.observations = []) →
    ∀ i, ∀ c ∈ s.creditsOf r i, c.tag.correction = 0

theorem Inv.withinBudget [Fintype ι] (h : Inv bandwidth s) (hbandwidth : 0 ≤ bandwidth) :
    WithinBudget bandwidth s := by
  have hbudget : 0 ≤ s.fraction * bandwidth := mul_nonneg h.rounds.enabled.le hbandwidth
  refine ⟨fun i c hc hid => ?_, fun r hr p hp hend hobs => ?_, fun r hr p hp hend hobs => ?_,
    fun r hr hidle i c hc => ?_⟩
  · obtain ⟨-, -, copy, hcopy, -, htag, -⟩ := (h.credited i).earned c hc
    have hhops := h.hops i c hc
    rw [htag] at hhops hid
    obtain ⟨f, hf, hsubflow, heq⟩ := h.attributed.origin i copy hcopy hhops hid
    obtain ⟨r, hr, hstart⟩ := h.attributed.dated f hf
    refine ⟨r, hr, mem_creditsOf.2 ⟨hc, f, List.mem_filter.2 ⟨hf, by simpa using hstart⟩,
      hsubflow, ?_⟩⟩
    rw [heq, htag]
  · exact (sum_creditsOf_le h (max 0) (fun c => le_max_left 0 c) hr).trans
      (round_raised_le (h.behind hr hp hend hobs) hbudget)
  · exact (sum_creditsOf_le h (fun c => max 0 (-c)) (fun c => le_max_left 0 (-c)) hr).trans
      (round_lowered_le (h.behind hr hp hend hobs) hbudget)
  · obtain ⟨-, f, hf, -, hecho⟩ := mem_creditsOf.1 hc
    have hmem := (h.attributed.measured r hr).subset (List.mem_map_of_mem hf)
    obtain ⟨o, ho, hreading⟩ := List.mem_map.1 hmem
    have hmean := ((h.rounds.chronicle.fed r hr o ho).unfed hidle).2
    rw [← hecho]
    show f.tag.reading.correction = 0
    rw [← hreading]
    exact Observation.correction_eq_zero (by rw [hmean]; exact lt_irrefl 0)

/-- **The correction budget of a shared bottleneck.** -/
theorem correction_budget [Fintype ι] {alpha : ι → Alpha α} {q : MpOrbDeltaQueue} (hq : q.Fresh)
    (hbandwidth : 0 ≤ bandwidth) (now : SimTime) (senders : ι → OrbState × α)
    (hrun : Relation.ReflTransGen (Step alpha bandwidth) (start q now senders) s) :
    WithinBudget bandwidth s := by
  have hinv : Inv bandwidth s := by
    induction hrun with
    | refl => exact Inv.start hq now senders bandwidth
    | tail _ hstep ih => exact ih.step hstep
  exact hinv.withinBudget hbandwidth

end Budgets

/-- The data packet that a subflow sends in the second round, and the feedback it takes. -/
def sentTag : DeltaShuffleTag := (freshSender.stampTelemetry none).2

/-- The packet as it comes from a queue at node 9. -/
def passedTag : DeltaShuffleTag := nodeTag 9 90000 sentTag

/-- The packet with the feedback of the second round. -/
def feedbackTag : DeltaShuffleTag :=
  (secondRound.queue.observePacket (secondRound.queue.claimTag passedTag) 1448 125000 true).2

/-- Other traffic fills the first round.  A packet of the subflow takes feedback at node 9, crosses
the queue in the second round, where that feedback is replaced, arrives and is echoed, and the
sender takes the correction. -/
theorem correction_budget_one_subflow : ∃ s : Bottleneck Unit Unit,
    (∃ c ∈ (s.subflows ()).credits, c.tag.correction < 0) ∧ WithinBudget 125000 s := by
  let alpha : Unit → Alpha Unit := fun _ => steadyAlpha
  let senders : Unit → OrbState × Unit := fun _ => (freshSender.state, ())
  let data : IntDataVec := [⟨7, 125000, .fin (9 / 10), 1 / 100, 0, 3, 3, false⟩]
  have hinv : RoundInv secondRound :=
    rounds_step (rounds_step (RoundInv.start measuringQueue_fresh 0) firstRound_admissible
      firstRound_step) secondRound_admissible secondRound_step
  have hsent : DataTag sentTag := ⟨rfl, by decide +kernel, by decide +kernel⟩
  have hsecond : secondRound.Admissible (11 / 100) (.packet (some passedTag) 1448 125000 true) :=
    secondRound_packet_admissible (by decide +kernel) (by decide +kernel)
  have hopen : secondRound.queue.openRound (11 / 100) = .ok secondRound.queue :=
    MpOrbDeltaQueue.openRound_pending rfl
  obtain ⟨hrate, htotal⟩ := hsecond.rates passedTag 1448 125000 true rfl (by decide) rfl
  have hcross : secondRound.queue.processTelemetryExtension (11 / 100) (some passedTag) 1448 125000
      true = .ok (_, some feedbackTag) :=
    MpOrbDeltaQueue.process_enabled (by decide) rfl hinv.enabled hrate htotal hopen
  have hcross' : secondRound.step (11 / 100) (.packet (some passedTag) 1448 125000 true) = .ok _ :=
    step_measures 125000 true hinv (by decide) rfl hrate htotal hopen rfl
  obtain ⟨s, hrun, hcredit⟩ : ∃ s : Bottleneck Unit Unit,
      Relation.ReflTransGen (Step alpha 125000) (start measuringQueue 0 senders) s ∧
      (s.subflows ()).credits.any (fun c => decide (c.tag.correction < 0)) = true := by
    refine ⟨_, (((((((Relation.ReflTransGen.refl.tail
      (.queue 0 _ firstRound firstRound_admissible firstRound_step)).tail
      (.queue (1 / 10) .timer secondRound secondRound_admissible secondRound_step)).tail
      (.party () _ (.stamp none (by decide)) ?_)).tail
      (.of_carry () (c := { tag := sentTag }) (by decide) hsent (by decide) (by decide +kernel)
        (by decide +kernel) (carry_nodeHop 9 90000 hsent))).tail
      (.cross () passedTag feedbackTag 1448 true (11 / 100) _ _ (by decide +kernel) hsecond hcross
        hcross')).tail
      (.party () _ (.receive feedbackTag (by decide +kernel)) fun _ h => Or.inl h)).tail
      (.party () _ (.echo feedbackTag (by decide +kernel)) fun _ h => Or.inl h)).tail
      (.party () _ (.deliver feedbackTag.echo data (by decide +kernel)) fun _ h => Or.inl h), ?_⟩
    · decide +kernel
    · intro copy hcopy
      rw [List.mem_singleton.1 hcopy]
      exact Or.inr (Or.inl rfl)
  obtain ⟨c, hc, hneg⟩ := List.any_eq_true.1 hcredit
  exact ⟨s, ⟨c, hc, of_decide_eq_true hneg⟩,
    correction_budget measuringQueue_fresh (by decide +kernel) 0 senders hrun⟩

end Bottleneck

end MpOrb
