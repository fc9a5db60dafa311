import MpOrb.Basic
import MpOrb.Lib.Double
import Mathlib.Data.Finset.Card
import Mathlib.Data.List.ReduceOption
import Mathlib.Order.WithBot
import Mathlib.Algebra.Order.Group.Nat

/-!
# The INT-informed packet scheduler

Model of `MpOrbIntScheduler` (`MpOrbIntScheduler.cc`) on top of what it uses of its base class
`MpTcpPacketScheduler`, which is a parameter (`PacketScheduler`).

* `Subflow`, `MpTcpConnection` — what the scheduler reads of a subflow and of the connection.
* `evaluatePath` — service rate, write space and arrival score of one candidate.
* `Scan.visit` — one iteration of the ranking loop, which keeps two running winners (best and
  overdue) and edits the table of skip counts on the way.
* `selectDefaultSubflow` — cached burst, ranking, overdue turn, burst limit, skip counts.
* `selectRetransmissionSubflow` — the reinjection target.
-/

set_option autoImplicit false

namespace MpOrb

/-- What the scheduler reads of a `SubflowConnection`.  `forwardDelay` is the result of
`getSchedulerForwardDelay`, `none` when it returns false. -/
structure Subflow where
  isActiveForDefaultScheduler : Bool
  canUseDefaultScheduler : ℕ → Bool
  canAcceptRetransmission : ℕ → Bool
  cwnd : ℕ
  sndMss : ℕ
  unsentBytes : ℕ
  queuedBytes : ℕ
  writeLimit : ℕ
  pacingRate : Double
  windowRate : Double
  forwardDelay : Option SimTime
  schedulingRtt : SimTime

/-- What the scheduler reads of its `MpTcpConnection`: `getSubflows()`, which may hold null
pointers.  `MpOrb` registers every subflow under a socket id of its own. -/
structure MpTcpConnection where
  getSubflows : List (Option SocketId)
  nodup : getSubflows.reduceOption.Nodup

/-- The non-null subflows, in list order. -/
def MpTcpConnection.members (connection : MpTcpConnection) : List SocketId :=
  connection.getSubflows.reduceOption

/-- The dispatch state of the base class. -/
structure Burst where
  lastSubflow : Option SocketId
  remainingBurstBytes : ℕ
  avgPacingRates : SocketId → Option Double

/-- The base class `MpTcpPacketScheduler`: its constants, its admission rule and `startBurst`. -/
structure PacketScheduler where
  CWND_MAX_SKIPPED_BURSTS : ℕ
  DEFAULT_SEND_BURST_SIZE : ℕ
  getBoundedAssignmentSpace : Subflow → ℕ → ℕ
  startBurst : Burst → SocketId → ℕ → Double → ℕ → Burst
  /-- The threshold is compared with a `uint32_t` count. -/
  maxSkipped_le : CWND_MAX_SKIPPED_BURSTS ≤ UINT32_MAX

/-- The shared unsent allowance: `min(max(0, max(cwnd, MSS) - unsentBytes), available write
memory)`. -/
def sharedUnsentAllowance (subflow : Subflow) : ℕ :=
  min (max subflow.cwnd subflow.sndMss - subflow.unsentBytes)
    (subflow.writeLimit - subflow.queuedBytes)

/-- What the scheduler relies on in its base class: admission is the shared unsent allowance,
whatever the reference size, and `startBurst` stores the subflow and the limit. -/
structure PacketScheduler.Documented (base : PacketScheduler) : Prop where
  space : ∀ subflow referenceBytes,
    base.getBoundedAssignmentSpace subflow referenceBytes = sharedUnsentAllowance subflow
  lastSubflow : ∀ burst s queued rate limit,
    (base.startBurst burst s queued rate limit).lastSubflow = some s
  remainingBurstBytes : ∀ burst s queued rate limit,
    (base.startBurst burst s queued rate limit).remainingBurstBytes = limit

/-- A base class that behaves as documented and does nothing else. -/
def documentedScheduler (maxSkipped : ℕ) (h : maxSkipped ≤ UINT32_MAX) : PacketScheduler where
  CWND_MAX_SKIPPED_BURSTS := maxSkipped
  DEFAULT_SEND_BURST_SIZE := 65428
  getBoundedAssignmentSpace subflow _ := sharedUnsentAllowance subflow
  startBurst burst s _ _ limit := { burst with lastSubflow := some s, remainingBurstBytes := limit }
  maxSkipped_le := h

theorem documentedScheduler_documented (maxSkipped : ℕ) (h : maxSkipped ≤ UINT32_MAX) :
    (documentedScheduler maxSkipped h).Documented :=
  ⟨fun _ _ => rfl, fun _ _ _ _ _ => rfl, fun _ _ _ _ _ => rfl⟩

/-- A connection of two subflows. -/
def twoPaths : MpTcpConnection := ⟨[some 1, some 2], by decide⟩

/-- Two idle paths with room for ten segments; the second one is slower. -/
def idleView (s : SocketId) : Subflow where
  isActiveForDefaultScheduler := true
  canUseDefaultScheduler := fun _ => true
  canAcceptRetransmission := fun _ => true
  cwnd := 14480
  sndMss := 1448
  unsentBytes := 0
  queuedBytes := 0
  writeLimit := 65536
  pacingRate := .fin (if s = 1 then 2000000 else 1000000)
  windowRate := .fin 1000000
  forwardDelay := none
  schedulingRtt := if s = 1 then 1 / 50 else 1 / 10

/-- No burst is running and no pacing average is known. -/
def Burst.idle : Burst := ⟨none, 0, fun _ => none⟩

/-! ## The table of skip counts -/

/-- `skippedCwndBursts`. -/
abbrev SkipTable := SocketId → Option ℕ

namespace SkipTable

/-- The table before the first selection. -/
def empty : SkipTable := fun _ => none

/-- The count read by `table[s]`. -/
def count (t : SkipTable) (s : SocketId) : ℕ := (t s).getD 0

def set (t : SkipTable) (s : SocketId) (n : ℕ) : SkipTable := Function.update t s (some n)

def erase (t : SkipTable) (s : SocketId) : SkipTable := Function.update t s none

/-- `table[s]` creates a missing entry. -/
def touch (t : SkipTable) (s : SocketId) : SkipTable := t.set s (t.count s)

@[simp] theorem count_empty (s : SocketId) : empty.count s = 0 := rfl

theorem set_apply (t : SkipTable) (s i : SocketId) (n : ℕ) :
    t.set s n i = if i = s then some n else t i := by
  simp [set, Function.update_apply]

theorem erase_apply (t : SkipTable) (s i : SocketId) :
    t.erase s i = if i = s then none else t i := by
  simp [erase, Function.update_apply]

theorem count_set (t : SkipTable) (s i : SocketId) (n : ℕ) :
    (t.set s n).count i = if i = s then n else t.count i := by
  unfold count
  rw [set_apply]
  split <;> rfl

@[simp] theorem count_touch (t : SkipTable) (s i : SocketId) :
    (t.touch s).count i = t.count i := by
  unfold touch
  rw [count_set]
  split
  · rename_i h; rw [h]
  · rfl

theorem touch_apply (t : SkipTable) (s i : SocketId) :
    t.touch s i = if i = s then some (t.count s) else t i := set_apply t s i _

end SkipTable

/-! ## Path evaluation -/

/-- `PathEstimate`; the default score is infinite. -/
structure PathEstimate where
  space : ℕ := 0
  score : WithTop ℚ := ⊤
  hasRate : Bool := false
  freshFeedback : Bool := false
  deriving DecidableEq

/-- A recent rate reduction or a small window constrains a stale pacing average. -/
def serviceRate (averageRate currentRate windowRate : Double) : ℚ :=
  let rate := Double.min3 averageRate currentRate windowRate
  if !(Double.lt (.fin 0) averageRate) || !(Double.lt (.fin 0) currentRate) ||
      !(Double.lt (.fin 0) windowRate) || !rate.isFinite then 0
  else rate.toRat

/-- Delay of the prospective burst; a path without a rate keeps the infinite score. -/
def arrivalScore (rate : ℚ) (forwardDelay : SimTime) (unsent referenceBytes : ℕ) : WithTop ℚ :=
  if 0 < rate then ((forwardDelay + ((unsent : ℚ) + referenceBytes) / rate : ℚ) : WithTop ℚ)
  else ⊤

/-- `MpOrbIntScheduler::evaluatePath`. -/
def evaluatePath (base : PacketScheduler) (avgPacingRates : SocketId → Option Double)
    (s : SocketId) (subflow : Subflow) (referenceBytes : ℕ) : PathEstimate :=
  let unsent := subflow.unsentBytes
  let currentRate := subflow.pacingRate
  let averageRate := (avgPacingRates s).getD currentRate
  let windowRate := subflow.windowRate
  let rate := serviceRate averageRate currentRate windowRate
  let hasRate := decide (0 < rate)
  let space := base.getBoundedAssignmentSpace subflow referenceBytes
  match subflow.forwardDelay with
  | some forwardDelay =>
    { space, hasRate, freshFeedback := true,
      score := arrivalScore rate forwardDelay unsent referenceBytes }
  | none =>
    let rtt := subflow.schedulingRtt
    if rtt ≤ SIMTIME_ZERO ∨ rtt = SIMTIME_MAX then { space, hasRate }
    else { space, hasRate, score := arrivalScore rate (rtt / 2) unsent referenceBytes }

theorem evaluatePath_space (base : PacketScheduler) (avg : SocketId → Option Double)
    (s : SocketId) (subflow : Subflow) (referenceBytes : ℕ) :
    (evaluatePath base avg s subflow referenceBytes).space =
      base.getBoundedAssignmentSpace subflow referenceBytes := by
  unfold evaluatePath
  split
  · rfl
  · simp only
    split <;> rfl

/-! ## The ranking loop -/

/-- The local variables of the loop. -/
structure Scan where
  bestSubflow : Option (SocketId × PathEstimate)
  overdueSubflow : Option (SocketId × PathEstimate)
  eligible : List SocketId
  skipped : SkipTable

def Scan.init (skipped : SkipTable) : Scan := ⟨none, none, [], skipped⟩

/-- The lower score wins; an exact tie goes to the path that has missed more selections. -/
def updateBest (best : Option (SocketId × PathEstimate)) (skipped : SkipTable) (s : SocketId)
    (path : PathEstimate) : Option (SocketId × PathEstimate) :=
  match best with
  | none => some (s, path)
  | some (b, bestPath) =>
    if path.score < bestPath.score ∨
        (path.score = bestPath.score ∧ skipped.count b < skipped.count s) then some (s, path)
    else some (b, bestPath)

/-- A path at the threshold is overdue; the largest count wins, the first one on a tie. -/
def updateOverdue (threshold : ℕ) (overdue : Option (SocketId × PathEstimate))
    (skipped : SkipTable) (s : SocketId) (path : PathEstimate) :
    Option (SocketId × PathEstimate) :=
  if threshold ≤ skipped.count s then
    match overdue with
    | none => some (s, path)
    | some (o, overduePath) =>
      if skipped.count o < skipped.count s then some (s, path) else some (o, overduePath)
  else overdue

/-- What one call sees: the base class, the subflows, the pacing averages and the request. -/
structure Request where
  base : PacketScheduler
  view : SocketId → Subflow
  avgPacingRates : SocketId → Option Double
  bytes : ℕ

namespace Request

variable (r : Request)

/-- The estimate of a path for the request. -/
def estimate (s : SocketId) : PathEstimate :=
  evaluatePath r.base r.avgPacingRates s (r.view s) r.base.DEFAULT_SEND_BURST_SIZE

/-- The tests of the loop: active, enough space, a usable rate. -/
def isEligible (s : SocketId) : Bool :=
  (r.view s).isActiveForDefaultScheduler && decide (r.bytes ≤ (r.estimate s).space) &&
    (r.estimate s).hasRate

end Request

/-- One iteration of the loop over `connection->getSubflows()`. -/
def Scan.visit (r : Request) (sc : Scan) : Option SocketId → Scan
  | none => sc
  | some s =>
    if !(r.view s).isActiveForDefaultScheduler then
      { sc with skipped := sc.skipped.erase s }
    else
      let path := r.estimate s
      if path.space < r.bytes || !path.hasRate then { sc with skipped := sc.skipped.erase s }
      else
        let skipped := sc.skipped.touch s
        { bestSubflow := updateBest sc.bestSubflow skipped s path
          overdueSubflow :=
            updateOverdue r.base.CWND_MAX_SKIPPED_BURSTS sc.overdueSubflow skipped s path
          eligible := sc.eligible ++ [s]
          skipped := skipped }

/-- The ranking loop. -/
def scan (r : Request) (subflows : List (Option SocketId)) (skipped : SkipTable) : Scan :=
  subflows.foldl (Scan.visit r) (Scan.init skipped)

/-! ## Selection -/

/-- The state of the scheduler: the base class and the table of skip counts. -/
structure SchedulerState extends Burst where
  skippedCwndBursts : SkipTable

/-- The first test of `selectDefaultSubflow`: the running burst still covers the request. -/
def cachedBurst (base : PacketScheduler) (view : SocketId → Subflow) (burst : Burst) (bytes : ℕ) :
    Option SocketId :=
  match burst.lastSubflow with
  | none => none
  | some last =>
    if bytes ≤ burst.remainingBurstBytes ∧ (view last).isActiveForDefaultScheduler = true ∧
        bytes ≤ base.getBoundedAssignmentSpace (view last) bytes then some last
    else none

/-- Bound the burst by the shared allowance, then round to segments; an overdue path receives
only one segment. -/
def burstLimit (base : PacketScheduler) (bytes space : ℕ) (overdue : Bool) : ℕ :=
  let limit := min (max base.DEFAULT_SEND_BURST_SIZE bytes) space
  if overdue then bytes else limit - limit % bytes

/-- The loop over the eligible subflows that resets the winner and ages the others. -/
def ageSkipped (eligible : List SocketId) (winner : SocketId) (skipped : SkipTable) : SkipTable :=
  eligible.foldl (fun t s =>
    if s = winner then t.set s 0
    else if t.count s < UINT32_MAX then t.set s (t.count s + 1)
    else t.touch s) skipped

/-- The part of `selectDefaultSubflow` after the ranking loop: an overdue path takes the turn of
the best one, the burst is started and the skip counts are updated. -/
def dispatch (r : Request) (st : SchedulerState) (sc : Scan) : Option SocketId × SchedulerState :=
  match sc.bestSubflow with
  | none => (none, { st with skippedCwndBursts := sc.skipped })
  | some best =>
    let (winner, path) := sc.overdueSubflow.getD best
    let limit := burstLimit r.base r.bytes path.space sc.overdueSubflow.isSome
    let burst := r.base.startBurst st.toBurst winner (r.view winner).queuedBytes
      (r.view winner).pacingRate limit
    (some winner, { burst with skippedCwndBursts := ageSkipped sc.eligible winner sc.skipped })

/-- `MpOrbIntScheduler::selectDefaultSubflow`. -/
def selectDefaultSubflow (base : PacketScheduler) (connection : MpTcpConnection)
    (view : SocketId → Subflow) (st : SchedulerState) (bytes : ℕ) :
    Option SocketId × SchedulerState :=
  match cachedBurst base view st.toBurst bytes with
  | some last => (some last, st)
  | none =>
    let r : Request := ⟨base, view, st.avgPacingRates, bytes⟩
    dispatch r st (scan r connection.getSubflows st.skippedCwndBursts)

/-- One iteration of the loop of `selectRetransmissionSubflow`. -/
def visitRetransmission (base : PacketScheduler) (view : SocketId → Subflow)
    (avgPacingRates : SocketId → Option Double) (source : Option SocketId) (bytes : ℕ)
    (requireIdle : Bool) (best : Option SocketId × WithTop ℚ) :
    Option SocketId → Option SocketId × WithTop ℚ
  | none => best
  | some s =>
    if requireIdle = false ∧ some s = source then best
    else
      let available := if requireIdle then (view s).canAcceptRetransmission bytes
        else (view s).canUseDefaultScheduler bytes
      if !available then best
      else
        let path := evaluatePath base avgPacingRates s (view s) bytes
        if path.space < bytes then best
        else if path.score < best.2 then (some s, path.score)
        else best

/-- `MpOrbIntScheduler::selectRetransmissionSubflow`; the connection may be null. -/
def selectRetransmissionSubflow (base : PacketScheduler)
    (connection : Option MpTcpConnection) (view : SocketId → Subflow)
    (avgPacingRates : SocketId → Option Double) (source : Option SocketId) (bytes : ℕ)
    (requireIdle : Bool) : Option SocketId :=
  match connection with
  | none => none
  | some connection =>
    if bytes = 0 then none
    else (connection.getSubflows.foldl
      (visitRetransmission base view avgPacingRates source bytes requireIdle) (none, ⊤)).1

end MpOrb
