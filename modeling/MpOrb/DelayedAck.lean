import MpOrb.DeltaNetwork
import MpOrb.EchoCoherence
import MpOrb.Lib.Batching

/-!
# The acknowledgments of a receiver

`MpOrbUncoupled` decides when received data is acknowledged: at once with the telemetry of the
segment that is being processed, or by the delayed-ACK timer.  The base class, outside the
repository, stores the data, keeps the ACK variables and sends ACKs of its own; what the flavour
relies on of its `ackSent` is `TcpBase`.

* `receiveSeqChanged`, `receivedOutOfOrderSegment` — the two hooks; `receiveSeqChangedInt_eq` — what
  the first one does.
* `ReceiverHistory.step` — a data segment through its hook, an ACK or data segment sent by the base
  class, the timer, and the sender's loss recovery.
* `ReceiverHistory.Inv` — data that waits is a `Batch`, and the segment counter counts it.
* `Turn.Sound.echo_step` — the ACK of a hook is an echo on the network of the sender.
* `ack_discipline` — in every reachable state no data waits longer than 200 ms and less than two
  full-sized segments do, the timer runs exactly while data waits, and every ACK of a hook returns
  the telemetry of its segment with the current acknowledgment number.
-/

set_option autoImplicit false

namespace MpOrb

variable {α : Type}

/-! ## The flavour -/

/-- The ACK variables of the connection and its delayed-ACK timer. -/
structure AckState where
  rcv_nxt : BitVec 32
  last_ack_sent : BitVec 32
  full_sized_segment_counter : ℕ := 0
  ack_now : Bool := false
  lossRecovery : Bool := false
  delayed_acks_enabled : Bool
  delayedAckTimer : Option SimTime := none

/-- `ackSent` of the base class: an ACK is out, so nothing is owed and the timer is cancelled. -/
structure TcpBase where
  ackSent : AckState → AckState
  counter : ∀ st, (ackSent st).full_sized_segment_counter = 0
  ackNow : ∀ st, (ackSent st).ack_now = false
  acknowledged : ∀ st, (ackSent st).last_ack_sent = st.rcv_nxt
  cancelled : ∀ st, (ackSent st).delayedAckTimer = none
  rcv_nxt : ∀ st, (ackSent st).rcv_nxt = st.rcv_nxt
  enabled : ∀ st, (ackSent st).delayed_acks_enabled = st.delayed_acks_enabled

/-- `conn` is `none` unless it is an `MpOrbSubflowConnection`. -/
structure MpOrbUncoupled (α : Type) where
  state : AckState
  conn : Option (SubflowConnection α)

/-- No data is unacknowledged, and nothing else asks for an ACK. -/
def AckState.quiet (st : AckState) : Bool :=
  decide (st.full_sized_segment_counter = 0) && !st.ack_now &&
    decide (st.last_ack_sent = st.rcv_nxt) && st.delayedAckTimer.isNone

namespace MpOrbUncoupled

/-- The error of a connection that is not an `MpOrbSubflowConnection`. -/
def requiresSubflow : SimError := .runtime "MpOrbUncoupled requires MpOrbSubflowConnection"

/-- The samples of the segment that is being processed. -/
def getCurrentIntData (f : MpOrbUncoupled α) : IntDataVec :=
  match f.conn with
  | none => []
  | some subflow => subflow.getCurrentIntData

/-- `subflow->sendIntAck(intData)`, which ends with `tcpAlgorithm->ackSent()`. -/
def sendIntAck (base : TcpBase) (view : AckView) (f : MpOrbUncoupled α)
    (subflow : SubflowConnection α) (intData : IntDataVec) : MpOrbUncoupled α × List Sent :=
  let (subflow, packet) := subflow.sendIntAck { view with rcv_nxt := f.state.rcv_nxt } intData
  ({ state := base.ackSent f.state, conn := some subflow }, [packet])

/-- `receiveSeqChanged(intData)`. -/
def receiveSeqChangedInt (base : TcpBase) (now : SimTime) (view : AckView) (f : MpOrbUncoupled α)
    (intData : IntDataVec) : Except SimError (MpOrbUncoupled α × List Sent) :=
  if f.state.quiet then .ok (f, [])
  else
    let state := if f.state.lossRecovery then { f.state with ack_now := true } else f.state
    let f := { f with state }
    match f.conn with
    | none => .error requiresSubflow
    | some subflow =>
      if !state.delayed_acks_enabled then .ok (f.sendIntAck base view subflow intData)
      else if state.ack_now then .ok (f.sendIntAck base view subflow intData)
      else if 2 ≤ state.full_sized_segment_counter then .ok (f.sendIntAck base view subflow intData)
      else if state.delayedAckTimer.isSome then .ok (f, [])
      else do
        let delayedAckTimer ← scheduleAt now (now + 1 / 5) state.delayedAckTimer
        return ({ f with state := { state with delayedAckTimer } }, [])

/-- The hook for data that moves `rcv_nxt`. -/
def receiveSeqChanged (base : TcpBase) (now : SimTime) (view : AckView) (f : MpOrbUncoupled α) :
    Except SimError (MpOrbUncoupled α × List Sent) :=
  f.receiveSeqChangedInt base now view f.getCurrentIntData

/-- `receivedOutOfOrderSegment(intData)`. -/
def receivedOutOfOrderSegmentInt (base : TcpBase) (view : AckView) (f : MpOrbUncoupled α)
    (intData : IntDataVec) : Except SimError (MpOrbUncoupled α × List Sent) :=
  let f := { f with state := { f.state with ack_now := true } }
  match f.conn with
  | none => .error requiresSubflow
  | some subflow => .ok (f.sendIntAck base view subflow intData)

/-- The hook for data that does not. -/
def receivedOutOfOrderSegment (base : TcpBase) (view : AckView) (f : MpOrbUncoupled α) :
    Except SimError (MpOrbUncoupled α × List Sent) :=
  f.receivedOutOfOrderSegmentInt base view f.getCurrentIntData

/-- `processSegment1stThru8th` of the subflow around a base-class body that may raise an error. -/
def processSegment1stThru8th (f : MpOrbUncoupled α) (tcpHeader : Option TcpHeader)
    (body : MpOrbUncoupled α → Except SimError (MpOrbUncoupled α × List Sent)) :
    Except SimError (MpOrbUncoupled α × List Sent) := do
  let (f, sent) ← body { f with conn := f.conn.map (·.pushIntContext tcpHeader) }
  return ({ f with conn := f.conn.map SubflowConnection.popIntContext }, sent)

/-! ## What the hooks do -/

/-- The flavour acknowledges at once. -/
def acksNow (st : AckState) : Bool :=
  !st.delayed_acks_enabled || st.lossRecovery || st.ack_now ||
    decide (2 ≤ st.full_sized_segment_counter)

/-- In loss recovery an ACK is due at once. -/
def afterRecovery (st : AckState) : AckState :=
  if st.lossRecovery then { st with ack_now := true } else st

section Hooks

variable {f : MpOrbUncoupled α} {subflow : SubflowConnection α}

/-- **What `receiveSeqChanged` does**: nothing, an ACK at once, or the timer. -/
theorem receiveSeqChangedInt_eq (base : TcpBase) (now : SimTime) (view : AckView)
    (hconn : f.conn = some subflow) (intData : IntDataVec) :
    f.receiveSeqChangedInt base now view intData = .ok (
      if f.state.quiet then (f, [])
      else if acksNow f.state then
        { f with state := afterRecovery f.state }.sendIntAck base view subflow intData
      else ({ f with state := { f.state with
        delayedAckTimer := some (f.state.delayedAckTimer.getD (now + 1 / 5)) } }, [])) := by
  have hlater : now ≤ now + 1 / 5 := le_add_of_nonneg_right (by decide +kernel)
  obtain ⟨⟨rcvNxt, lastAckSent, counter, ackNow, recovery, enabled, timer⟩, conn⟩ := f
  cases hconn
  unfold receiveSeqChangedInt acksNow afterRecovery
  split
  · rfl
  cases recovery with
  | true => cases enabled <;> simp
  | false =>
    cases enabled with
    | false => simp
    | true =>
      cases ackNow with
      | true => simp
      | false =>
        by_cases hcount : 2 ≤ counter
        · simp [hcount]
        · cases timer with
          | none =>
            simp only [hcount, Bool.not_true, Bool.false_eq_true, if_false, Option.isSome_none,
              scheduleAt_idle hlater]
            rfl
          | some deadline => simp [hcount]

theorem receivedOutOfOrderSegmentInt_eq (base : TcpBase) (view : AckView)
    (hconn : f.conn = some subflow) (intData : IntDataVec) :
    f.receivedOutOfOrderSegmentInt base view intData =
      .ok ({ f with state := { f.state with ack_now := true } }.sendIntAck base view subflow
        intData) := by
  simp only [receivedOutOfOrderSegmentInt, hconn]

end Hooks

end MpOrbUncoupled

theorem SubflowConnection.sendIntAck_ackNo (sf : SubflowConnection α) (view : AckView)
    (intData : IntDataVec) : (sf.sendIntAck view intData).2.header.ackNo = view.rcv_nxt := by
  simp only [SubflowConnection.sendIntAck, SubflowConnection.sendToIP_ack]

/-! ## Receivers -/

/-- What the base class reports of a data segment before it calls a hook; `answered` when it has
sent a segment of its own in between. -/
structure Received where
  rcv_nxt : BitVec 32
  fullSized : Bool
  ackNow : Bool
  answered : Bool

/-- The base class counts the segment and notes whether it asks for an ACK. -/
def Received.store (r : Received) (st : AckState) : AckState :=
  { st with
    rcv_nxt := r.rcv_nxt
    full_sized_segment_counter := st.full_sized_segment_counter + if r.fullSized then 1 else 0
    ack_now := st.ack_now || r.ackNow }

/-- The ACK variables that the hook finds. -/
def Received.note (base : TcpBase) (r : Received) (st : AckState) : AckState :=
  if r.answered then base.ackSent (r.store st) else r.store st

/-- The base class calls one hook for data that moves `rcv_nxt` and one for data that does not. -/
def Received.body (base : TcpBase) (now : SimTime) (view : AckView) (r : Received)
    (f : MpOrbUncoupled α) : Except SimError (MpOrbUncoupled α × List Sent) :=
  let noted := { f with state := r.note base f.state }
  if r.rcv_nxt = f.state.rcv_nxt then noted.receivedOutOfOrderSegment base view
  else noted.receiveSeqChanged base now view

/-- A data segment and what its hook sent.  `inOrder` when it moved `rcv_nxt`; `urgent` when the
data is not allowed to wait. -/
structure Turn where
  tcpHeader : Option TcpHeader
  view : AckView
  received : Received
  inOrder : Bool
  urgent : Bool
  sent : List Sent

/-- `waiting` are the arrivals that no ACK covers yet, with whether they are full-sized; `turns` is
history.  Both are newest first and no step of the code reads them. -/
structure ReceiverHistory (α : Type) where
  flavour : MpOrbUncoupled α
  now : SimTime
  waiting : List (SimTime × Bool) := []
  turns : List Turn := []

/-- What happens to a receiver. -/
inductive ReceiverEvent where
  | segment (tcpHeader : Option TcpHeader) (view : AckView) (received : Received)
  /-- The base class sends a segment with an ACK. -/
  | ackSent
  /-- The base class answers the timer with an ACK. -/
  | delayedAckTimer
  | lossRecovery (lossRecovery : Bool)

namespace ReceiverHistory

/-- An ACK covers all data. -/
def covered (base : TcpBase) (h : ReceiverHistory α) (now : SimTime) (st : AckState) :
    ReceiverHistory α :=
  { h with flavour := { h.flavour with state := base.ackSent st }, now, waiting := [] }

/-- A data segment was processed. -/
def processed (h : ReceiverHistory α) (now : SimTime) (tcpHeader : Option TcpHeader)
    (view : AckView) (r : Received) (result : MpOrbUncoupled α × List Sent) : ReceiverHistory α :=
  let (flavour, sent) := result
  let st := h.flavour.state
  { flavour
    now
    waiting := if r.answered || !sent.isEmpty then [] else (now, r.fullSized) :: h.waiting
    turns :=
      { tcpHeader, view, received := r, sent
        inOrder := decide (r.rcv_nxt ≠ st.rcv_nxt)
        urgent := !st.delayed_acks_enabled || st.lossRecovery || r.ackNow } :: h.turns }

/-- The hooks are the flavour's; the base class sends an ACK of its own with a segment and at the
timer, whose delivery leaves it unscheduled. -/
def step (base : TcpBase) (h : ReceiverHistory α) (now : SimTime) :
    ReceiverEvent → Except SimError (ReceiverHistory α)
  | .segment tcpHeader view r =>
    (h.flavour.processSegment1stThru8th tcpHeader (r.body base now view)).map
      (h.processed now tcpHeader view r)
  | .ackSent => return h.covered base now h.flavour.state
  | .delayedAckTimer =>
    return h.covered base now { h.flavour.state with ack_now := true, delayedAckTimer := none }
  | .lossRecovery lossRecovery =>
    return { h with
      flavour := { h.flavour with state := { h.flavour.state with lossRecovery } }
      now }

theorem step_segment {base : TcpBase} {h : ReceiverHistory α} {now : SimTime}
    {tcpHeader : Option TcpHeader} {view : AckView} {r : Received}
    {result : MpOrbUncoupled α × List Sent}
    (hprocess : h.flavour.processSegment1stThru8th tcpHeader (r.body base now view) = .ok result) :
    h.step base now (.segment tcpHeader view r) =
      .ok (h.processed now tcpHeader view r result) := by
  simp only [step, hprocess]
  rfl

/-- Time does not run backwards or past a pending deadline, and the timer fires at its deadline. -/
structure Admissible (h : ReceiverHistory α) (now : SimTime) (e : ReceiverEvent) : Prop where
  later : h.now ≤ now
  pending : ∀ deadline ∈ h.flavour.state.delayedAckTimer, now ≤ deadline
  fires : e = .delayedAckTimer → h.flavour.state.delayedAckTimer = some now

def Step (base : TcpBase) (h h' : ReceiverHistory α) : Prop :=
  ∃ now e, h.Admissible now e ∧ h.step base now e = .ok h'

end ReceiverHistory

/-! ## The invariant -/

theorem AckState.quiet_iff {st : AckState} : st.quiet = true ↔
    st.full_sized_segment_counter = 0 ∧ st.ack_now = false ∧ st.last_ack_sent = st.rcv_nxt ∧
      st.delayedAckTimer = none := by
  simp [AckState.quiet, and_assoc]

theorem TcpBase.ackSent_quiet (base : TcpBase) (st : AckState) : (base.ackSent st).quiet = true :=
  AckState.quiet_iff.2 ⟨base.counter st, base.ackNow st,
    (base.acknowledged st).trans (base.rcv_nxt st).symm, base.cancelled st⟩

/-- What a turn does for its segment. -/
structure Turn.Sound (t : Turn) : Prop where
  single : t.sent.length ≤ 1
  echo : ∀ packet ∈ t.sent,
    EchoOf t.tcpHeader t.view packet ∧ packet.header.ackNo = t.received.rcv_nxt
  outOfOrder : t.inOrder = false → t.sent ≠ []
  urgent : t.urgent = true → t.received.answered = false → t.sent ≠ []

/-- The ACK of a hook is an echo on the network of the sender, once its segment is received. -/
theorem Turn.Sound.echo_step {t : Turn} (h : t.Sound) {packet : Sent} (hsent : packet ∈ t.sent)
    (alpha : Alpha α) {n : Network α} {tag : DeltaShuffleTag}
    (htag : headerDelta t.tcpHeader = some tag) (known : tag ∈ n.received) :
    ∃ ack, packet.header.deltaShuffle = some ack ∧
      Network.Step alpha n { n with acks := ack :: n.acks } := by
  obtain ⟨hecho, -⟩ := h.echo packet hsent
  refine ⟨tag.echo, ?_, .echo tag known⟩
  rw [hecho.delta, htag]
  rfl

theorem Turn.sound_of_ack {t : Turn} {packet : Sent} (hsent : t.sent = [packet])
    (hecho : EchoOf t.tcpHeader t.view packet) (hackNo : packet.header.ackNo = t.received.rcv_nxt) :
    t.Sound := by
  have hne : t.sent ≠ [] := hsent ▸ List.cons_ne_nil _ _
  refine ⟨by rw [hsent]; exact le_rfl, ?_, fun _ => hne, fun _ _ => hne⟩
  rw [hsent]
  simpa using ⟨hecho, hackNo⟩

theorem Turn.sound_of_silence {t : Turn} (hsent : t.sent = []) (hinOrder : t.inOrder = true)
    (hpatient : t.urgent = true → t.received.answered = true) : t.Sound := by
  refine ⟨by simp [hsent], by simp [hsent], fun hout => ?_, fun hurgent hanswered => ?_⟩
  · rw [hinOrder] at hout
    cases hout
  · rw [hpatient hurgent] at hanswered
    cases hanswered

namespace ReceiverHistory

def batch (h : ReceiverHistory α) : Batch SimTime Bool :=
  ⟨h.waiting, h.flavour.state.delayedAckTimer⟩

/-- The joint invariant of the ACK variables, the timer and the data that waits. -/
structure Inv (h : ReceiverHistory α) : Prop where
  conn : ∃ subflow, h.flavour.conn = some subflow
  timely : h.batch.Timely (1 / 5) h.now
  idle : h.waiting = [] → h.flavour.state.quiet = true
  busy : h.waiting ≠ [] → h.flavour.state.delayed_acks_enabled = true ∧
    h.flavour.state.ack_now = false ∧ h.flavour.state.full_sized_segment_counter < 2
  counted : h.flavour.state.full_sized_segment_counter = (h.waiting.filter (·.2)).length
  turns : ∀ t ∈ h.turns, t.Sound

theorem Inv.of_ackSent {h : ReceiverHistory α} (hconn : ∃ subflow, h.flavour.conn = some subflow)
    {base : TcpBase} {st : AckState} (hstate : h.flavour.state = base.ackSent st)
    (hwaiting : h.waiting = []) (hturns : ∀ t ∈ h.turns, t.Sound) : Inv h := by
  have hbatch : h.batch = {} := by
    simp only [batch, hwaiting, hstate, base.cancelled]
  refine ⟨hconn, hbatch ▸ .start _ _, fun _ => hstate ▸ base.ackSent_quiet st,
    fun hne => absurd hwaiting hne, ?_, hturns⟩
  rw [hstate, hwaiting, base.counter]
  rfl

end ReceiverHistory

/-! ## One data segment -/

/-- How a hook ends: with an ACK of its own, without anything to do, or with the timer running. -/
inductive HookResult (base : TcpBase) (now : SimTime) (tcpHeader : Option TcpHeader)
    (view : AckView) (r : Received) (st : AckState) : AckState → List Sent → Prop where
  | acknowledged (st' : AckState) (packet : Sent) (echo : EchoOf tcpHeader view packet)
    (ackNo : packet.header.ackNo = r.rcv_nxt) :
    HookResult base now tcpHeader view r st (base.ackSent st') [packet]
  | quiet (moved : r.rcv_nxt ≠ st.rcv_nxt) (nothing : (r.note base st).quiet = true) :
    HookResult base now tcpHeader view r st (r.note base st) []
  | waits (moved : r.rcv_nxt ≠ st.rcv_nxt) (owed : (r.note base st).quiet = false)
    (patient : MpOrbUncoupled.acksNow (r.note base st) = false) :
    HookResult base now tcpHeader view r st { r.note base st with
      delayedAckTimer := some ((r.note base st).delayedAckTimer.getD (now + 1 / 5)) } []

theorem Received.note_rcv_nxt (base : TcpBase) (r : Received) (st : AckState) :
    (r.note base st).rcv_nxt = r.rcv_nxt := by
  unfold Received.note
  split
  · exact base.rcv_nxt _
  · rfl

theorem sendIntAck_result (base : TcpBase) (now : SimTime) (view : AckView) {r : Received}
    {f : MpOrbUncoupled α} {subflow : SubflowConnection α} {tcpHeader : Option TcpHeader}
    {st : AckState} (hcontext : InContext [tcpHeader] subflow)
    (hnxt : f.state.rcv_nxt = r.rcv_nxt) :
    (∃ subflow', (f.sendIntAck base view subflow subflow.getCurrentIntData).1.conn =
        some subflow') ∧
      HookResult base now tcpHeader view r st
        (f.sendIntAck base view subflow subflow.getCurrentIntData).1.state
        (f.sendIntAck base view subflow subflow.getCurrentIntData).2 := by
  let acked : AckView := { view with rcv_nxt := f.state.rcv_nxt }
  obtain ⟨hpure, hsamples, hdelta⟩ := sendIntAck_echo hcontext acked
  refine ⟨⟨_, rfl⟩, .acknowledged f.state
    (subflow.sendIntAck acked subflow.getCurrentIntData).2 ⟨hpure, hsamples, hdelta⟩ ?_⟩
  rw [SubflowConnection.sendIntAck_ackNo]
  exact hnxt

/-- **A hook inside the context of its segment.** -/
theorem Received.body_result (base : TcpBase) (now : SimTime) (view : AckView) (r : Received)
    {f : MpOrbUncoupled α} {subflow : SubflowConnection α} {tcpHeader : Option TcpHeader}
    (hconn : f.conn = some subflow) (hcontext : InContext [tcpHeader] subflow) :
    ∃ f' sent, r.body base now view f = .ok (f', sent) ∧
      (∃ subflow', f'.conn = some subflow') ∧
      HookResult base now tcpHeader view r f.state f'.state sent := by
  have hint : ({ f with state := r.note base f.state } : MpOrbUncoupled α).getCurrentIntData =
      subflow.getCurrentIntData := by
    simp only [MpOrbUncoupled.getCurrentIntData, hconn]
  have hnxt := r.note_rcv_nxt base f.state
  have hnoted : ({ f with state := r.note base f.state } : MpOrbUncoupled α).conn =
      some subflow := hconn
  unfold Received.body
  by_cases hmoved : r.rcv_nxt = f.state.rcv_nxt
  · simp only [hmoved, if_true, MpOrbUncoupled.receivedOutOfOrderSegment, hint]
    rw [MpOrbUncoupled.receivedOutOfOrderSegmentInt_eq base view hnoted]
    exact ⟨_, _, rfl, sendIntAck_result base now view hcontext hnxt⟩
  · simp only [hmoved, if_false, MpOrbUncoupled.receiveSeqChanged, hint]
    rw [MpOrbUncoupled.receiveSeqChangedInt_eq base now view hnoted]
    by_cases hquiet : (r.note base f.state).quiet = true
    · simp only [hquiet, if_true]
      exact ⟨_, _, rfl, ⟨subflow, hconn⟩, .quiet hmoved hquiet⟩
    · simp only [hquiet, if_false, Bool.false_eq_true]
      cases hnow : MpOrbUncoupled.acksNow (r.note base f.state) with
      | true =>
        have hafter : (MpOrbUncoupled.afterRecovery (r.note base f.state)).rcv_nxt = r.rcv_nxt := by
          unfold MpOrbUncoupled.afterRecovery
          split <;> exact hnxt
        exact ⟨_, _, rfl, sendIntAck_result base now view hcontext hafter⟩
      | false => exact ⟨_, _, rfl, ⟨subflow, hconn⟩, .waits hmoved (by simpa using hquiet) hnow⟩

theorem MpOrbUncoupled.process_result (base : TcpBase) (now : SimTime) (view : AckView)
    (r : Received) {f : MpOrbUncoupled α} (hconn : ∃ subflow, f.conn = some subflow)
    (tcpHeader : Option TcpHeader) :
    ∃ f' sent, f.processSegment1stThru8th tcpHeader (r.body base now view) = .ok (f', sent) ∧
      (∃ subflow', f'.conn = some subflow') ∧
      HookResult base now tcpHeader view r f.state f'.state sent := by
  obtain ⟨subflow, hconn⟩ := hconn
  have hempty : InContext [] subflow := ⟨List.nil_prefix, List.nil_prefix⟩
  have hpushed : ({ f with conn := f.conn.map (·.pushIntContext tcpHeader) } :
      MpOrbUncoupled α).conn = some (subflow.pushIntContext tcpHeader) := by rw [hconn]; rfl
  obtain ⟨f', sent, hbody, ⟨subflow', hconn'⟩, hresult⟩ :=
    r.body_result base now view hpushed (hempty.push tcpHeader)
  refine ⟨{ f' with conn := f'.conn.map SubflowConnection.popIntContext }, sent, ?_,
    ⟨subflow'.popIntContext, ?_⟩, hresult⟩
  · unfold MpOrbUncoupled.processSegment1stThru8th
    rw [hbody]
    rfl
  · show f'.conn.map _ = _
    rw [hconn']
    rfl

theorem acksNow_eq_false {st : AckState} : MpOrbUncoupled.acksNow st = false ↔
    st.delayed_acks_enabled = true ∧ st.lossRecovery = false ∧ st.ack_now = false ∧
      st.full_sized_segment_counter < 2 := by
  simp [MpOrbUncoupled.acksNow, and_assoc]

namespace ReceiverHistory

variable {h : ReceiverHistory α} {base : TcpBase} {now : SimTime}

/-- In-order data is owed an ACK unless the base class has sent one. -/
theorem Inv.owed (hinv : Inv h) {r : Received} (hmoved : r.rcv_nxt ≠ h.flavour.state.rcv_nxt)
    (hanswered : r.answered = false) : (r.note base h.flavour.state).quiet = false := by
  have hstore : r.note base h.flavour.state = r.store h.flavour.state := by
    simp only [Received.note, hanswered, Bool.false_eq_true, if_false]
  rw [hstore, Bool.eq_false_iff]
  intro hquiet
  obtain ⟨-, -, hlast, htimer⟩ := AckState.quiet_iff.1 hquiet
  by_cases hwaiting : h.waiting = []
  · obtain ⟨-, -, hbefore, -⟩ := AckState.quiet_iff.1 (hinv.idle hwaiting)
    exact hmoved (hlast.symm.trans hbefore)
  · obtain ⟨oldest, harmed, -⟩ := hinv.timely.armed hwaiting
    exact nomatch harmed.symm.trans htimer

theorem Inv.waits (hinv : Inv h) (hlater : h.now ≤ now)
    (hpending : ∀ deadline ∈ h.flavour.state.delayedAckTimer, now ≤ deadline) {r : Received}
    (hpatient : MpOrbUncoupled.acksNow (r.store h.flavour.state) = false)
    {flavour : MpOrbUncoupled α} (hconn : ∃ subflow, flavour.conn = some subflow)
    (hstate : flavour.state = { r.store h.flavour.state with
      delayedAckTimer := some (h.flavour.state.delayedAckTimer.getD (now + 1 / 5)) })
    {turns : List Turn} (hturns : ∀ t ∈ turns, t.Sound) :
    Inv { flavour, now, waiting := (now, r.fullSized) :: h.waiting, turns } := by
  obtain ⟨henabled, -, hack, hcount⟩ := acksNow_eq_false.1 hpatient
  have hbatch : batch { flavour, now, waiting := (now, r.fullSized) :: h.waiting, turns } =
      h.batch.add (1 / 5) now r.fullSized := by
    simp only [batch, hstate, Batch.add]
  refine ⟨hconn, ?_, fun hempty => absurd hempty (List.cons_ne_nil _ _), fun _ => ?_, ?_, hturns⟩
  · rw [hbatch]
    exact (hinv.timely.wait hlater hpending).add (by decide +kernel) r.fullSized
  · show flavour.state.delayed_acks_enabled = true ∧ flavour.state.ack_now = false ∧
      flavour.state.full_sized_segment_counter < 2
    rw [hstate]
    exact ⟨henabled, hack, hcount⟩
  · show flavour.state.full_sized_segment_counter = _
    rw [hstate]
    show h.flavour.state.full_sized_segment_counter + (if r.fullSized then 1 else 0) = _
    rw [hinv.counted, List.filter_cons]
    cases r.fullSized <;> rfl

/-- **A data segment.** -/
theorem Inv.segment (hinv : Inv h) (hlater : h.now ≤ now)
    (hpending : ∀ deadline ∈ h.flavour.state.delayedAckTimer, now ≤ deadline)
    (tcpHeader : Option TcpHeader) (view : AckView) (r : Received) :
    ∃ h', h.step base now (.segment tcpHeader view r) = .ok h' ∧ Inv h' := by
  obtain ⟨f, sent, hprocess, hconn, hresult⟩ :=
    MpOrbUncoupled.process_result base now view r hinv.conn tcpHeader
  refine ⟨h.processed now tcpHeader view r (f, sent), step_segment hprocess, ?_⟩
  unfold ReceiverHistory.processed
  generalize hstate : f.state = st at hresult
  cases hresult with
  | acknowledged st' packet echo ackNo =>
    refine Inv.of_ackSent hconn hstate (by simp) (List.forall_mem_cons.2 ⟨?_, hinv.turns⟩)
    exact Turn.sound_of_ack rfl echo ackNo
  | quiet moved nothing =>
    have hanswered : r.answered = true := by
      by_contra hnot
      rw [hinv.owed moved (Bool.eq_false_iff.2 hnot)] at nothing
      cases nothing
    have hnote : r.note base h.flavour.state = base.ackSent (r.store h.flavour.state) := by
      simp only [Received.note, hanswered, if_true]
    refine Inv.of_ackSent hconn (hstate.trans hnote) (by simp [hanswered])
      (List.forall_mem_cons.2 ⟨?_, hinv.turns⟩)
    exact Turn.sound_of_silence rfl (decide_eq_true moved) fun _ => hanswered
  | waits moved owed patient =>
    have hanswered : r.answered = false := by
      refine Bool.eq_false_iff.2 fun hanswered => ?_
      have hquiet : (r.note base h.flavour.state).quiet = true := by
        simp only [Received.note, hanswered, if_true]
        exact base.ackSent_quiet _
      rw [hquiet] at owed
      cases owed
    have hnote : r.note base h.flavour.state = r.store h.flavour.state := by
      simp only [Received.note, hanswered, Bool.false_eq_true, if_false]
    rw [hnote] at hstate patient
    simp only [hanswered, List.isEmpty_nil, Bool.not_true, Bool.or_self, Bool.false_eq_true,
      if_false]
    refine hinv.waits hlater hpending patient hconn hstate
      (List.forall_mem_cons.2 ⟨?_, hinv.turns⟩)
    refine Turn.sound_of_silence rfl (decide_eq_true moved) fun hurgent => ?_
    obtain ⟨henabled, hrecovery, hack, -⟩ := acksNow_eq_false.1 patient
    have hack : h.flavour.state.ack_now = false ∧ r.ackNow = false := Bool.or_eq_false_iff.1 hack
    have henabled : h.flavour.state.delayed_acks_enabled = true := henabled
    have hrecovery : h.flavour.state.lossRecovery = false := hrecovery
    simp [henabled, hrecovery, hack.2] at hurgent

/-! ## Every run -/

/-- **One event.**  The code raises no error, and the invariant is kept. -/
theorem Inv.step (hinv : Inv h) {e : ReceiverEvent} (hadm : h.Admissible now e) :
    ∃ h', h.step base now e = .ok h' ∧ Inv h' := by
  cases e with
  | segment tcpHeader view r => exact hinv.segment hadm.later hadm.pending tcpHeader view r
  | ackSent => exact ⟨_, rfl, .of_ackSent hinv.conn rfl rfl hinv.turns⟩
  | delayedAckTimer => exact ⟨_, rfl, .of_ackSent hinv.conn rfl rfl hinv.turns⟩
  | lossRecovery lossRecovery =>
    exact ⟨_, rfl, hinv.conn, hinv.timely.wait hadm.later hadm.pending, hinv.idle, hinv.busy,
      hinv.counted, hinv.turns⟩

theorem Inv.run (hinv : Inv h) {h' : ReceiverHistory α}
    (hrun : Relation.ReflTransGen (Step base) h h') : Inv h' := by
  induction hrun with
  | refl => exact hinv
  | tail _ hstep ih =>
    obtain ⟨now, e, hadm, hok⟩ := hstep
    obtain ⟨h'', hok', hinv'⟩ := ih.step hadm
    cases hok.symm.trans hok'
    exact hinv'

/-- The discipline in one state. -/
structure AckDiscipline (base : TcpBase) (h : ReceiverHistory α) : Prop where
  noError : ∀ now e, h.Admissible now e → ∃ h', h.step base now e = .ok h'
  young : ∀ w ∈ h.waiting, h.now ≤ w.1 + 1 / 5
  few : (h.waiting.filter (·.2)).length < 2
  armed : h.flavour.state.delayedAckTimer.isSome ↔ h.waiting ≠ []
  acknowledged : h.waiting = [] → h.flavour.state.last_ack_sent = h.flavour.state.rcv_nxt
  immediate : h.flavour.state.delayed_acks_enabled = false → h.waiting = []
  turns : ∀ t ∈ h.turns, t.Sound
  echoes : ∀ t ∈ h.turns, ∀ packet ∈ t.sent, ∀ tag, headerDelta t.tcpHeader = some tag →
    ∀ {β : Type} (alpha : Alpha β) (n : Network β), tag ∈ n.received →
      ∃ ack, packet.header.deltaShuffle = some ack ∧
        n.Step alpha { n with acks := ack :: n.acks }

/-- **The acknowledgments of a receiver.**  From a subflow that owes no ACK, in every state that
any order of events reaches. -/
theorem ack_discipline (base : TcpBase) {st : AckState} (hquiet : st.quiet = true)
    (subflow : SubflowConnection α) (start : SimTime)
    (hrun : Relation.ReflTransGen (Step base)
      { flavour := { state := st, conn := some subflow }, now := start } h) :
    AckDiscipline base h := by
  obtain ⟨hcount, -, -, htimer⟩ := AckState.quiet_iff.1 hquiet
  have hstart : Inv { flavour := { state := st, conn := some subflow }, now := start } := by
    have hbatch :
        batch { flavour := { state := st, conn := some subflow }, now := start } = {} := by
      simp only [batch, htimer]
    refine ⟨⟨subflow, rfl⟩, hbatch ▸ .start _ _, fun _ => hquiet, fun hne => absurd rfl hne,
      hcount, fun t ht => absurd ht List.not_mem_nil⟩
  have hinv := hstart.run hrun
  refine ⟨fun now e hadm => ?_, fun w hw => hinv.timely.age_le hw, ?_, hinv.timely.timer_isSome,
    fun hempty => (AckState.quiet_iff.1 (hinv.idle hempty)).2.2.1, fun hoff => ?_, hinv.turns,
    fun t ht packet hpacket tag htag _ alpha n known =>
      (hinv.turns t ht).echo_step hpacket alpha htag known⟩
  · obtain ⟨h', hok, -⟩ := hinv.step hadm
    exact ⟨h', hok⟩
  · by_cases hempty : h.waiting = []
    · rw [hempty]
      decide
    · rw [← hinv.counted]
      exact (hinv.busy hempty).2.2
  · by_contra hne
    rw [(hinv.busy hne).1] at hoff
    cases hoff

/-- A base class whose `ackSent` does no more than the flavour relies on. -/
def plainBase : TcpBase where
  ackSent st := { st with
    last_ack_sent := st.rcv_nxt
    full_sized_segment_counter := 0
    ack_now := false
    delayedAckTimer := none }
  counter _ := rfl
  ackNow _ := rfl
  acknowledged _ := rfl
  cancelled _ := rfl
  rcv_nxt _ := rfl
  enabled _ := rfl

/-- A receiver with delayed ACKs before its first data segment. -/
def freshReceiver : ReceiverHistory Unit :=
  { flavour := ⟨{ rcv_nxt := 1, last_ack_sent := 1, delayed_acks_enabled := true },
      some { tcpAlgorithm := .orb }⟩
    now := 0 }

def fullSegment (rcv_nxt : BitVec 32) : Received := ⟨rcv_nxt, true, false, false⟩

/-- The first segment waits for the timer. -/
def oneWaiting : ReceiverHistory Unit :=
  freshReceiver.processed 0 none plainAck (fullSegment 1449)
    (⟨{ rcv_nxt := 1449, last_ack_sent := 1, full_sized_segment_counter := 1
        delayed_acks_enabled := true, delayedAckTimer := some (1 / 5) },
      some { tcpAlgorithm := .orb }⟩, [])

/-- The second segment is acknowledged at once, and the first one with it. -/
theorem ack_discipline_two_segments : ∃ h : ReceiverHistory Unit, h.waiting = [] ∧
    h.turns.map (fun t => t.sent.length) = [1, 0] ∧ AckDiscipline plainBase h := by
  have hone : freshReceiver.step plainBase 0 (.segment none plainAck (fullSegment 1449)) =
      .ok oneWaiting := by with_unfolding_all rfl
  obtain ⟨f, sent, htwo, hlength⟩ : ∃ f sent, oneWaiting.flavour.processSegment1stThru8th none
      ((fullSegment 2897).body plainBase (1 / 10) plainAck) = .ok (f, sent) ∧ sent.length = 1 :=
    ⟨_, _, rfl, rfl⟩
  have hadm : freshReceiver.Admissible 0 (.segment none plainAck (fullSegment 1449)) :=
    ⟨le_rfl, fun _ hd => (nomatch hd), nofun⟩
  have hadm' : oneWaiting.Admissible (1 / 10) (.segment none plainAck (fullSegment 2897)) := by
    refine ⟨by decide +kernel, ?_, nofun⟩
    rintro deadline ⟨⟩
    decide +kernel
  have hrun : Relation.ReflTransGen (Step plainBase) freshReceiver
      (oneWaiting.processed (1 / 10) none plainAck (fullSegment 2897) (f, sent)) :=
    (Relation.ReflTransGen.single ⟨0, _, hadm, hone⟩).tail
      ⟨1 / 10, _, hadm', step_segment htwo⟩
  refine ⟨_, ?_, ?_, ack_discipline plainBase (by decide) { tcpAlgorithm := .orb } 0 hrun⟩
  · obtain ⟨packet, rfl⟩ := List.length_eq_one_iff.1 hlength
    rfl
  · show [sent.length, 0] = _
    rw [hlength]

end ReceiverHistory

end MpOrb
