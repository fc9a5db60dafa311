import MpOrb.IntTag
import Mathlib.Tactic.Linarith

/-!
# The directional delay given to the scheduler

A subflow caches the forward queueing delay of its newest valid feedback.  The delay codec of the
telemetry library is a parameter (`PintDelay`).

* `updateAckTelemetry` — one ACK, with its four early exits.
* `getSchedulerForwardDelay` — the cached delay on top of half the queue-corrected round-trip time.
* `accepted` — the accepted samples of a history of ACKs, defined without the cache.
* `Qualified` — what makes the last accepted sample usable.
* `CacheInv` — what the cache says about the history.
* `forward_delay_valid` — a delay comes from the last accepted sample, and that sample qualifies.
-/

set_option autoImplicit false

namespace MpOrb

/-! ## The cache -/

/-- `pint::QUEUEING_DELAY_MAX_CODE` and `pint::decodeQueueingDelay`. -/
structure PintDelay where
  QUEUEING_DELAY_MAX_CODE : ℕ
  decodeQueueingDelay : ℕ → ℚ

/-- The members that cache the forward delay. -/
structure DelayCache where
  hasDelayPath : Bool := false
  hasDelayFeedback : Bool := false
  delayPathDigest : BitVec 32 := 0
  delaySampleTime : SimTime := SIMTIME_ZERO
  delayReceivedTime : SimTime := SIMTIME_ZERO
  forwardQueueingDelay : ℚ := 0

/-- Feedback that carries no usable measurement, or an older one than the cache. -/
def DelayCache.refuses (cache : DelayCache) (now : SimTime) (sample : IntData) : Prop :=
  sample.B ≤ 0 ∨ sample.pintUtilization.isFinite = false ∨
    sample.pintUtilization.le (.fin 0) = true ∨ sample.ts < SIMTIME_ZERO ∨ now < sample.ts ∨
    (cache.hasDelayPath = true ∧ sample.ts < cache.delaySampleTime)

instance (cache : DelayCache) (now : SimTime) (sample : IntData) :
    Decidable (cache.refuses now sample) := by
  unfold DelayCache.refuses
  infer_instance

/-- `orbAlgorithm` tells whether the subflow runs an `OrbtcpFamily` algorithm; what that algorithm
makes of the feedback in `updateRttTelemetry` does not touch the cache. -/
def updateAckTelemetry (pint : PintDelay) (orbAlgorithm : Bool) (cache : DelayCache)
    (now : SimTime) (tag : Option IntDataVec) : DelayCache :=
  if orbAlgorithm = false then cache
  else match tag.getD [] with
    | [] => cache
    | sample :: _ =>
      if sample.separateQueueingDelay = false then { cache with hasDelayFeedback := false }
      else if cache.refuses now sample then cache
      else
        let pathChanged := cache.hasDelayPath && decide (cache.delayPathDigest ≠ sample.pathDigest)
        { hasDelayPath := true
          delayPathDigest := sample.pathDigest
          delaySampleTime := sample.ts
          delayReceivedTime := now
          -- the first ACK of a changed route is not combined with the old RTT baseline
          hasDelayFeedback := !pathChanged &&
            decide (sample.queueingDelayCode < pint.QUEUEING_DELAY_MAX_CODE) &&
            decide (sample.reverseQueueingDelayCode < pint.QUEUEING_DELAY_MAX_CODE)
          forwardQueueingDelay := pint.decodeQueueingDelay sample.queueingDelayCode }

/-- The part of the state that the query reads. -/
structure RecoveryState where
  lossRecovery : Bool
  afterRto : Bool

/-- What the scheduler's query reads of the connection; `estimatedRtt` is `none` without an
`OrbtcpFamily` algorithm. -/
structure SchedulingView where
  schedulingRtt : SimTime
  state : Option RecoveryState
  estimatedRtt : Option SimTime

/-- The delay for the scheduler, `none` when the function returns false. -/
def getSchedulerForwardDelay (cache : DelayCache) (now : SimTime) (view : SchedulingView) :
    Option SimTime :=
  let rtt := view.schedulingRtt
  match view.state with
  | none => none
  | some state =>
    if cache.hasDelayFeedback = false ∨ state.lossRecovery = true ∨ state.afterRto = true ∨
        rtt ≤ SIMTIME_ZERO ∨ rtt = SIMTIME_MAX ∨ 2 * rtt < now - cache.delayReceivedTime ∨
        2 * rtt < now - cache.delaySampleTime then none
    else
      let baseRtt := view.estimatedRtt.getD SIMTIME_ZERO
      if baseRtt ≤ SIMTIME_ZERO then none
      else some (baseRtt / 2 + cache.forwardQueueingDelay)

/-! ## Histories -/

/-- An ACK: when it was received and the INT tag it carried. -/
structure Ack where
  time : SimTime
  tag : Option IntDataVec

/-- The sample of an ACK is its first INT record. -/
def Ack.sample (ack : Ack) : Option IntData := (ack.tag.getD []).head?

/-- The cache of an `OrbtcpFamily` subflow after a history of ACKs, newest first. -/
def cacheAfter (pint : PintDelay) (history : List Ack) : DelayCache :=
  history.foldr (fun ack cache => updateAckTelemetry pint true cache ack.time ack.tag) {}

/-- A sample with its time of reception. -/
structure Reception where
  sample : IntData
  time : SimTime

/-- A valid split sample that is not older than the last accepted one. -/
structure Acceptable (s : Reception) (last : Option Reception) : Prop where
  split : s.sample.separateQueueingDelay = true
  bandwidth : 0 < s.sample.B
  finite : s.sample.pintUtilization.isFinite = true
  utilization : Double.lt (.fin 0) s.sample.pintUtilization = true
  ts_nonneg : 0 ≤ s.sample.ts
  ts_le : s.sample.ts ≤ s.time
  ordered : ∀ p ∈ last, p.sample.ts ≤ s.sample.ts

instance (s : Reception) (last : Option Reception) : Decidable (Acceptable s last) :=
  decidable_of_iff (s.sample.separateQueueingDelay = true ∧ 0 < s.sample.B ∧
      s.sample.pintUtilization.isFinite = true ∧
      Double.lt (.fin 0) s.sample.pintUtilization = true ∧ 0 ≤ s.sample.ts ∧
      s.sample.ts ≤ s.time ∧ ∀ p ∈ last, p.sample.ts ≤ s.sample.ts)
    ⟨fun ⟨h₁, h₂, h₃, h₄, h₅, h₆, h₇⟩ => ⟨h₁, h₂, h₃, h₄, h₅, h₆, h₇⟩,
      fun h => ⟨h.1, h.2, h.3, h.4, h.5, h.6, h.7⟩⟩

/-- The accepted samples of a history, newest first. -/
def accepted : List Ack → List Reception
  | [] => []
  | ack :: older =>
    match ack.sample with
    | none => accepted older
    | some sample =>
      if Acceptable ⟨sample, ack.time⟩ (accepted older).head? then
        ⟨sample, ack.time⟩ :: accepted older
      else accepted older

/-- The last accepted sample `s`, after `older`, can be used: every sample since is a split one,
neither code is saturated, and it does not come from a new path. -/
structure Qualified (pint : PintDelay) (history : List Ack) (s : Reception)
    (older : List Reception) : Prop where
  last : ∃ after ack before, history = after ++ ack :: before ∧ ack.time = s.time ∧
    ack.sample = some s.sample ∧ accepted before = older ∧
    ∀ a ∈ after, ∀ sample ∈ a.sample, sample.separateQueueingDelay = true
  forward : s.sample.queueingDelayCode < pint.QUEUEING_DELAY_MAX_CODE
  reverse : s.sample.reverseQueueingDelayCode < pint.QUEUEING_DELAY_MAX_CODE
  samePath : ∀ p ∈ older.head?, p.sample.pathDigest = s.sample.pathDigest

theorem accepted_ordered (history : List Ack) :
    (accepted history).Pairwise fun newer older => older.sample.ts ≤ newer.sample.ts := by
  induction history with
  | nil => exact List.Pairwise.nil
  | cons ack older ih =>
    unfold accepted
    split
    · exact ih
    · rename_i sample hsample
      split
      · rename_i hacc
        refine List.pairwise_cons.2 ⟨fun p hp => ?_, ih⟩
        cases hlast : accepted older with
        | nil => rw [hlast] at hp; exact absurd hp List.not_mem_nil
        | cons q oldest =>
          rw [hlast] at hp ih hacc
          have hq : q.sample.ts ≤ sample.ts := hacc.ordered q rfl
          rcases List.mem_cons.1 hp with rfl | hp
          · exact hq
          · exact ((List.pairwise_cons.1 ih).1 p hp).trans hq
      · exact ih

theorem accepted_received {history : List Ack} {s : Reception} (h : s ∈ accepted history) :
    s.sample.ts ≤ s.time ∧ ∃ ack ∈ history, ack.time = s.time := by
  induction history with
  | nil => exact absurd h List.not_mem_nil
  | cons ack older ih =>
    have hlater : s ∈ accepted older →
        s.sample.ts ≤ s.time ∧ ∃ a ∈ ack :: older, a.time = s.time := by
      intro hs
      obtain ⟨hts, a, ha, htime⟩ := ih hs
      exact ⟨hts, a, List.mem_cons_of_mem _ ha, htime⟩
    unfold accepted at h
    split at h
    · exact hlater h
    · split at h
      · rename_i hacc
        rcases List.mem_cons.1 h with rfl | h
        · exact ⟨hacc.ts_le, ack, List.mem_cons_self, rfl⟩
        · exact hlater h
      · exact hlater h

/-! ## The cache and the history -/

/-- What the cache says about the history. -/
structure CacheInv (pint : PintDelay) (history : List Ack) (cache : DelayCache) : Prop where
  empty : accepted history = [] →
    cache.hasDelayPath = false ∧ cache.hasDelayFeedback = false
  path : ∀ s older, accepted history = s :: older → cache.hasDelayPath = true
  digest : ∀ s older, accepted history = s :: older → cache.delayPathDigest = s.sample.pathDigest
  sampleTime : ∀ s older, accepted history = s :: older → cache.delaySampleTime = s.sample.ts
  receivedTime : ∀ s older, accepted history = s :: older → cache.delayReceivedTime = s.time
  delay : ∀ s older, accepted history = s :: older →
    cache.forwardQueueingDelay = pint.decodeQueueingDelay s.sample.queueingDelayCode
  feedback : ∀ s older, accepted history = s :: older → cache.hasDelayFeedback = true →
    Qualified pint history s older

section Cache

variable {pint : PintDelay} {history : List Ack} {cache : DelayCache} {ack : Ack}

theorem CacheInv.start (pint : PintDelay) : CacheInv pint [] {} := by
  have hnone : ∀ s older, accepted [] ≠ s :: older := fun s older => (List.cons_ne_nil s older).symm
  refine ⟨fun _ => ⟨rfl, rfl⟩, ?_, ?_, ?_, ?_, ?_, ?_⟩
  all_goals
    intro s older h
    exact absurd h (hnone s older)

/-- An ACK whose sample is a split one, or that has none, leaves the last accepted sample usable. -/
theorem Qualified.later {s : Reception} {older : List Reception}
    (h : Qualified pint history s older)
    (hsplit : ∀ sample ∈ ack.sample, sample.separateQueueingDelay = true) :
    Qualified pint (ack :: history) s older := by
  obtain ⟨after, last, before, rfl, htime, hsample, holder, hafter⟩ := h.last
  exact ⟨⟨ack :: after, last, before, rfl, htime, hsample, holder,
    List.forall_mem_cons.2 ⟨hsplit, hafter⟩⟩, h.forward, h.reverse, h.samePath⟩

/-- An ACK that is not accepted leaves the path alone, and at most drops the feedback. -/
theorem CacheInv.keep (hinv : CacheInv pint history cache)
    (hsame : accepted (ack :: history) = accepted history) {hasDelayFeedback : Bool}
    (hempty : accepted history = [] → hasDelayFeedback = false)
    (hqualified : ∀ s older, accepted history = s :: older → hasDelayFeedback = true →
      Qualified pint (ack :: history) s older) :
    CacheInv pint (ack :: history) { cache with hasDelayFeedback } where
  empty h := ⟨(hinv.empty (hsame ▸ h)).1, hempty (hsame ▸ h)⟩
  path := by rw [hsame]; exact hinv.path
  digest := by rw [hsame]; exact hinv.digest
  sampleTime := by rw [hsame]; exact hinv.sampleTime
  receivedTime := by rw [hsame]; exact hinv.receivedTime
  delay := by rw [hsame]; exact hinv.delay
  feedback := by rw [hsame]; exact hqualified

theorem CacheInv.skip (hinv : CacheInv pint history cache)
    (hsame : accepted (ack :: history) = accepted history)
    (hsplit : ∀ sample ∈ ack.sample, sample.separateQueueingDelay = true) :
    CacheInv pint (ack :: history) cache := by
  refine hinv.keep hsame (fun h => (hinv.empty h).2) fun s older hs hfb => ?_
  exact (hinv.feedback s older hs hfb).later hsplit

/-- **The cache refuses exactly the split samples that are not acceptable.** -/
theorem CacheInv.refuses_iff (hinv : CacheInv pint history cache) {sample : IntData}
    {now : SimTime} (hsplit : sample.separateQueueingDelay = true) :
    ¬ cache.refuses now sample ↔ Acceptable ⟨sample, now⟩ (accepted history).head? := by
  have hpositive : sample.pintUtilization.isFinite = true →
      (sample.pintUtilization.le (.fin 0) = false ↔
        Double.lt (.fin 0) sample.pintUtilization = true) := by
    intro hfin
    obtain ⟨u, hu⟩ := Double.isFinite_iff.1 hfin
    rw [hu, Double.fin_le_fin, Double.fin_lt_fin]
    simp
  have hordered : (cache.hasDelayPath = true → cache.delaySampleTime ≤ sample.ts) ↔
      ∀ p ∈ (accepted history).head?, p.sample.ts ≤ sample.ts := by
    cases haccepted : accepted history with
    | nil => simp [(hinv.empty haccepted).1]
    | cons s older => simp [hinv.path s older haccepted, hinv.sampleTime s older haccepted]
  unfold DelayCache.refuses SIMTIME_ZERO
  simp only [not_or, not_and, not_le, not_lt, Bool.not_eq_false, Bool.not_eq_true]
  constructor
  · rintro ⟨hB, hfin, hpos, hts, hle, hord⟩
    exact ⟨hsplit, hB, hfin, (hpositive hfin).1 hpos, hts, hle, hordered.1 hord⟩
  · rintro ⟨-, hB, hfin, hpos, hts, hle, hord⟩
    exact ⟨hB, hfin, (hpositive hfin).2 hpos, hts, hle, hordered.2 hord⟩

theorem CacheInv.accept (hinv : CacheInv pint history cache) {sample : IntData}
    (hsample : ack.sample = some sample)
    (haccepted : accepted (ack :: history) = ⟨sample, ack.time⟩ :: accepted history) :
    CacheInv pint (ack :: history)
      { hasDelayPath := true
        delayPathDigest := sample.pathDigest
        delaySampleTime := sample.ts
        delayReceivedTime := ack.time
        hasDelayFeedback :=
          !(cache.hasDelayPath && decide (cache.delayPathDigest ≠ sample.pathDigest)) &&
            decide (sample.queueingDelayCode < pint.QUEUEING_DELAY_MAX_CODE) &&
            decide (sample.reverseQueueingDelayCode < pint.QUEUEING_DELAY_MAX_CODE)
        forwardQueueingDelay := pint.decodeQueueingDelay sample.queueingDelayCode } := by
  have hnewest : ∀ s older, accepted (ack :: history) = s :: older →
      s = ⟨sample, ack.time⟩ ∧ older = accepted history := by
    intro s older hs
    rw [haccepted] at hs
    cases hs
    exact ⟨rfl, rfl⟩
  refine ⟨fun h => ?_, fun s older hs => ?_, fun s older hs => ?_, fun s older hs => ?_,
    fun s older hs => ?_, fun s older hs => ?_, fun s older hs hfb => ?_⟩
  · rw [haccepted] at h; cases h
  all_goals obtain ⟨rfl, rfl⟩ := hnewest s older hs
  any_goals rfl
  simp only [Bool.and_eq_true, Bool.not_eq_true', Bool.and_eq_false_iff, decide_eq_true_eq,
    decide_eq_false_iff_not, not_not] at hfb
  obtain ⟨⟨hpath, hforward⟩, hreverse⟩ := hfb
  refine ⟨⟨[], ack, history, rfl, rfl, hsample, rfl, fun _ h => absurd h List.not_mem_nil⟩,
    hforward, hreverse, fun p hp => ?_⟩
  cases hlast : accepted history with
  | nil => rw [hlast] at hp; cases hp
  | cons q older =>
    rw [hlast] at hp
    cases hp
    rcases hpath with hnone | hsame
    · rw [hinv.path p older hlast] at hnone
      cases hnone
    · rw [← hinv.digest p older hlast, hsame]

/-- **One ACK keeps the cache true to the history.** -/
theorem CacheInv.step (hinv : CacheInv pint history cache) (ack : Ack) :
    CacheInv pint (ack :: history) (updateAckTelemetry pint true cache ack.time ack.tag) := by
  unfold updateAckTelemetry
  rw [if_neg (by decide)]
  cases hfeedback : ack.tag.getD [] with
  | nil =>
    have hsample : ack.sample = none := by rw [Ack.sample, hfeedback]; rfl
    refine hinv.skip ?_ ?_
    · rw [accepted, hsample]
    · rw [hsample]
      intro sample h
      cases h
  | cons sample rest =>
    have hsample : ack.sample = some sample := by rw [Ack.sample, hfeedback]; rfl
    have haccepted : accepted (ack :: history) =
        if Acceptable ⟨sample, ack.time⟩ (accepted history).head? then
          ⟨sample, ack.time⟩ :: accepted history
        else accepted history := by
      rw [accepted, hsample]
    simp only
    cases hsplit : sample.separateQueueingDelay with
    | false =>
      -- an ACK of the old format is never accepted and drops the feedback
      have hsame : accepted (ack :: history) = accepted history := by
        rw [haccepted, if_neg]
        intro hacc
        have hsplit' : sample.separateQueueingDelay = true := hacc.split
        rw [hsplit] at hsplit'
        cases hsplit'
      rw [if_pos rfl]
      refine hinv.keep hsame (fun _ => rfl) fun s older _ hfb => ?_
      cases hfb
    | true =>
      rw [if_neg (by decide)]
      by_cases hrefused : cache.refuses ack.time sample
      · rw [if_pos hrefused]
        refine hinv.skip ?_ (by rw [hsample]; rintro _ ⟨⟩; exact hsplit)
        rw [haccepted, if_neg]
        intro hacc
        exact (hinv.refuses_iff hsplit).2 hacc hrefused
      · rw [if_neg hrefused]
        have hacc := (hinv.refuses_iff hsplit).1 hrefused
        rw [if_pos hacc] at haccepted
        exact hinv.accept hsample haccepted

end Cache

/-- **The cache is true to every history.** -/
theorem cacheInv (pint : PintDelay) (history : List Ack) :
    CacheInv pint history (cacheAfter pint history) := by
  induction history with
  | nil => exact CacheInv.start pint
  | cons ack older ih => exact ih.step ack

/-! ## The scheduler's query -/

theorem getSchedulerForwardDelay_some {cache : DelayCache} {now delay : SimTime}
    {view : SchedulingView} (h : getSchedulerForwardDelay cache now view = some delay) :
    cache.hasDelayFeedback = true ∧
      (∃ state, view.state = some state ∧ state.lossRecovery = false ∧ state.afterRto = false) ∧
      now - cache.delayReceivedTime ≤ 2 * view.schedulingRtt ∧
      now - cache.delaySampleTime ≤ 2 * view.schedulingRtt ∧
      ∃ baseRtt, view.estimatedRtt = some baseRtt ∧ 0 < baseRtt ∧
        delay = baseRtt / 2 + cache.forwardQueueingDelay := by
  unfold getSchedulerForwardDelay at h
  simp only at h
  split at h
  · cases h
  · rename_i state hstate
    split at h
    · cases h
    · rename_i hguard
      simp only [not_or, Bool.not_eq_false, Bool.not_eq_true, not_lt] at hguard
      obtain ⟨hfeedback, hloss, hrto, -, -, hreceived, hsampled⟩ := hguard
      split at h
      · cases h
      · rename_i hbase
        cases hest : view.estimatedRtt with
        | none =>
          rw [hest] at hbase
          exact absurd le_rfl hbase
        | some baseRtt =>
          rw [hest] at hbase h
          cases h
          exact ⟨hfeedback, ⟨state, hstate, hloss, hrto⟩, hreceived, hsampled, baseRtt, rfl,
            not_le.1 hbase, rfl⟩

/-- The last accepted sample stands behind a delay given to the scheduler. -/
structure ValidDelay (pint : PintDelay) (history : List Ack) (now : SimTime)
    (view : SchedulingView) (delay : SimTime) (s : Reception) (older : List Reception) : Prop where
  last : accepted history = s :: older
  qualified : Qualified pint history s older
  newest : ∀ p ∈ accepted history, p.sample.ts ≤ s.sample.ts
  ts_le : s.sample.ts ≤ s.time
  time_le : s.time ≤ now
  receivedAge : now - s.time ≤ 2 * view.schedulingRtt
  sampleAge : now - s.sample.ts ≤ 2 * view.schedulingRtt
  steady : ∃ state, view.state = some state ∧ state.lossRecovery = false ∧ state.afterRto = false
  delay : ∃ baseRtt, view.estimatedRtt = some baseRtt ∧ 0 < baseRtt ∧
    delay = baseRtt / 2 + pint.decodeQueueingDelay s.sample.queueingDelayCode

/-- **The directional delay is valid.**  After every history of ACKs, none of them later than
`now`, a delay given to the scheduler is backed by the last accepted sample. -/
theorem forward_delay_valid (pint : PintDelay) (history : List Ack) {now delay : SimTime}
    (hnow : ∀ ack ∈ history, ack.time ≤ now) {view : SchedulingView}
    (h : getSchedulerForwardDelay (cacheAfter pint history) now view = some delay) :
    ∃ s older, ValidDelay pint history now view delay s older := by
  have hinv := cacheInv pint history
  obtain ⟨hfeedback, hsteady, hreceived, hsampled, baseRtt, hest, hbase, rfl⟩ :=
    getSchedulerForwardDelay_some h
  cases hlast : accepted history with
  | nil =>
    rw [(hinv.empty hlast).2] at hfeedback
    cases hfeedback
  | cons s older =>
    have hordered := accepted_ordered history
    rw [hlast] at hordered
    have hmem : s ∈ accepted history := hlast ▸ List.mem_cons_self
    obtain ⟨hts, ack, hack, htime⟩ := accepted_received hmem
    rw [hinv.receivedTime s older hlast] at hreceived
    rw [hinv.sampleTime s older hlast] at hsampled
    rw [hinv.delay s older hlast]
    refine ⟨s, older, hlast, hinv.feedback s older hlast hfeedback, ?_, hts, ?_, hreceived,
      hsampled, hsteady, baseRtt, hest, hbase, rfl⟩
    · rw [hlast]
      exact List.forall_mem_cons.2 ⟨le_rfl, (List.pairwise_cons.1 hordered).1⟩
    · rw [← htime]
      exact hnow ack hack

/-- A 12-bit code in steps of 64 microseconds. -/
def pintDelay : PintDelay := ⟨4095, fun code => code * 64 / 10 ^ 6⟩

/-- A query with a base round-trip time of 40 ms. -/
def steadyQuery : SchedulingView := ⟨1 / 20, some ⟨false, false⟩, some (1 / 25)⟩

/-- Newest first: the second path again, a sample of the other format, the first sample of the
second path, and one of the first path. -/
def reroutedHistory : List Ack :=
  [⟨14 / 100, some [⟨7, 125000, .fin (9 / 10), 13 / 100, 5, 20, 3, true⟩]⟩,
    ⟨13 / 100, some [⟨7, 125000, .fin (9 / 10), 12 / 100, 5, 0, 0, false⟩]⟩,
    ⟨12 / 100, some [⟨7, 125000, .fin (9 / 10), 11 / 100, 5, 30, 3, true⟩]⟩,
    ⟨10 / 100, some [⟨7, 125000, .fin (9 / 10), 9 / 100, 0, 10, 3, true⟩]⟩]

/-- No delay right after the new path or after the format switch; the second sample of the new path
gives one, with 1280 microseconds of forward queueing. -/
theorem forward_delay_after_reroute :
    getSchedulerForwardDelay (cacheAfter pintDelay (reroutedHistory.drop 2)) (12 / 100)
        steadyQuery = none ∧
      getSchedulerForwardDelay (cacheAfter pintDelay (reroutedHistory.drop 1)) (13 / 100)
        steadyQuery = none ∧
      ∃ s older, ValidDelay pintDelay reroutedHistory (15 / 100) steadyQuery
        (1 / 50 + 128 / 100000) s older :=
  ⟨by decide +kernel, by decide +kernel,
    forward_delay_valid pintDelay reroutedHistory (by decide +kernel) (by decide +kernel)⟩

end MpOrb
