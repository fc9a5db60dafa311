import MpOrb.DeltaSender

/-!
# The telemetry of a subflow

`MpOrbSubflowConnection` keeps the telemetry of the segments being processed on two parallel stacks,
stamps outgoing data segments and echoes the telemetry of the current segment on pure ACKs.  What
the base classes supply (sequence numbers, windows, options, the base-class send) comes in as
`SendView` and `AckView`; a packet handed to the base class is a `Sent`.

* `withIntContext` — the two entry points push the context of a segment, run the base class and
  pop it.
* `sendToIP` — a data segment gets a fresh Delta tag and, unless it has one, an INT tag.
* `sendIntAck` — a pure ACK with the given INT samples and the echo of the current Delta tag.
-/

set_option autoImplicit false

namespace MpOrb

/-! ## Headers and packets -/

/-- The fields that the subflow reads or writes. -/
structure TcpHeader where
  sequenceNo : BitVec 32 := 0
  ackNo : BitVec 32 := 0
  window : BitVec 16 := 0
  ackBit : Bool := false
  finBit : Bool := false
  eceBit : Bool := false
  options : List (List UInt8) := []
  dataAck : Option (BitVec 64) := none
  intTag : Option IntTag := none
  deltaShuffle : Option DeltaShuffleTag := none

/-- What the base class sends; `sndAck` is the connection's flag at that moment. -/
structure Sent where
  header : TcpHeader
  byteLength : ℕ
  sndAck : Bool

/-- The subflow's `tcpAlgorithm`. -/
inductive TcpAlgorithm (α : Type) where
  | delta (d : MpOrbDelta α)
  | orb
  | other

/-- `dynamic_cast<OrbtcpFamily *>` succeeds. -/
def TcpAlgorithm.isOrbtcpFamily {α : Type} : TcpAlgorithm α → Bool
  | .other => false
  | _ => true

/-- What `sendToIP` reads of the connection, its algorithm and its module parameters. -/
structure SendView where
  subflows : Option (List Sibling)
  connId : ℕ
  estimatedRtt : SimTime
  rtt : SimTime
  cwnd : UInt32
  usesPintTelemetry : Bool
  pintUseAverageRtt : Bool
  initialPhase : Bool
  /-- `rexmitQueue->isRetransmitted`, `none` without a queue. -/
  isRetransmitted : Option (BitVec 32 → Bool)
  encodeBaseRtt : SimTime → ℕ
  encodeCwnd : UInt32 → ℕ

/-- What `sendIntAck` reads. -/
structure AckView where
  send : SendView
  snd_nxt : BitVec 32
  rcv_nxt : BitVec 32
  rcvWnd : BitVec 16
  ect : Bool
  shouldMarkAck : Bool
  options : List (List UInt8)
  dataAckToSend : BitVec 64
  pintSeparateQueueingDelay : Bool

/-- Stacks with the innermost context first. -/
structure SubflowConnection (α : Type) where
  tcpAlgorithm : TcpAlgorithm α
  intDataContextStack : List IntDataVec := []
  deltaContextStack : List (Option DeltaShuffleTag) := []
  sndAck : Bool := false

/-- The INT samples a header brings into its context. -/
def headerIntData (tcpHeader : Option TcpHeader) : IntDataVec :=
  match tcpHeader.bind TcpHeader.intTag with
  | some tag => tag.intData
  | none => []

/-- The Delta tag a header brings into its context. -/
def headerDelta (tcpHeader : Option TcpHeader) : Option DeltaShuffleTag :=
  tcpHeader.bind TcpHeader.deltaShuffle

namespace SubflowConnection

variable {α : Type}

/-! ## Contexts -/

/-- The telemetry of a segment becomes current; a null header brings none. -/
def pushIntContext (sf : SubflowConnection α) (tcpHeader : Option TcpHeader) :
    SubflowConnection α :=
  { sf with
    deltaContextStack := headerDelta tcpHeader :: sf.deltaContextStack
    intDataContextStack := headerIntData tcpHeader :: sf.intDataContextStack }

/-- The telemetry of the segment before becomes current again. -/
def popIntContext (sf : SubflowConnection α) : SubflowConnection α :=
  { sf with
    deltaContextStack := sf.deltaContextStack.tail
    intDataContextStack := sf.intDataContextStack.tail }

/-- The INT samples of the innermost segment, empty outside any. -/
def getCurrentIntData (sf : SubflowConnection α) : IntDataVec :=
  sf.intDataContextStack.head?.getD []

/-- Its Delta tag, `none` without one. -/
def getCurrentDeltaShuffle (sf : SubflowConnection α) : Option DeltaShuffleTag :=
  sf.deltaContextStack.head?.join

/-- A base-class method runs inside the context of its segment and returns normally. -/
def withIntContext {β : Type} (sf : SubflowConnection α) (tcpHeader : Option TcpHeader)
    (base : SubflowConnection α → SubflowConnection α × β) : SubflowConnection α × β :=
  let (sf, result) := base (sf.pushIntContext tcpHeader)
  (sf.popIntContext, result)

/-- The base-class method in the context of the segment. -/
def processSegment1stThru8th {β : Type} (sf : SubflowConnection α) (tcpHeader : Option TcpHeader)
    (base : SubflowConnection α → SubflowConnection α × β) : SubflowConnection α × β :=
  sf.withIntContext tcpHeader base

/-- The base-class method in the context of the segment. -/
def processAckInEstabEtc {β : Type} (sf : SubflowConnection α) (tcpHeader : Option TcpHeader)
    (base : SubflowConnection α → SubflowConnection α × β) : SubflowConnection α × β :=
  sf.withIntContext tcpHeader base

/-! ## Sending -/

/-- The INT tag of an outgoing data segment. -/
def freshIntTag (view : SendView) (byteLength : ℕ) (tcpHeader : TcpHeader) : IntTag :=
  let average := view.usesPintTelemetry && view.pintUseAverageRtt
  let endSeqNo := tcpHeader.sequenceNo + BitVec.ofNat 32 byteLength +
    (if tcpHeader.finBit then 1 else 0)
  { connId := view.connId
    cwnd := view.cwnd
    rtt := if view.usesPintTelemetry then view.rtt else view.estimatedRtt
    pintBaseRttCode := if average then view.encodeBaseRtt view.estimatedRtt else 0
    pintCwndCode := if average then view.encodeCwnd view.cwnd else 0
    initialPhase := view.initialPhase
    retrans := match view.isRetransmitted with
      | some isRetransmitted => isRetransmitted endSeqNo
      | none => false }

/-- A data segment of a Delta sender is stamped; its old Delta tag is lost. -/
def stampSegment (sf : SubflowConnection α) (view : SendView) (byteLength : ℕ)
    (tcpHeader : TcpHeader) : SubflowConnection α × TcpHeader :=
  match sf.tcpAlgorithm with
  | .delta d =>
    if 0 < byteLength then
      let (d, tag) := d.stampTelemetry view.subflows
      ({ sf with tcpAlgorithm := .delta d }, { tcpHeader with deltaShuffle := some tag })
    else (sf, tcpHeader)
  | _ => (sf, tcpHeader)

/-- A segment leaves: a pure ACK as it is, data with its telemetry. -/
def sendToIP (sf : SubflowConnection α) (view : SendView) (byteLength : ℕ)
    (tcpHeader : TcpHeader) : SubflowConnection α × Sent :=
  let (sf, tcpHeader) := sf.stampSegment view byteLength tcpHeader
  let tcpHeader :=
    if 0 < byteLength && tcpHeader.intTag.isNone && sf.tcpAlgorithm.isOrbtcpFamily then
      { tcpHeader with intTag := some (freshIntTag view byteLength tcpHeader) }
    else tcpHeader
  (sf, ⟨tcpHeader, byteLength, sf.sndAck⟩)

/-- The reverse direction of an ACK starts its own delay accumulator. -/
def separateDelay (sample : IntData) : IntData :=
  { sample with separateQueueingDelay := true, reverseQueueingDelayCode := 0 }

/-- The INT samples of an ACK. -/
def echoedIntData (sf : SubflowConnection α) (view : AckView) (intData : IntDataVec) : IntDataVec :=
  if sf.tcpAlgorithm.isOrbtcpFamily && view.send.usesPintTelemetry &&
      view.pintSeparateQueueingDelay then
    intData.map separateDelay
  else intData

/-- A pure ACK with the samples and the echo of the current Delta tag. -/
def sendIntAck (sf : SubflowConnection α) (view : AckView) (intData : IntDataVec) :
    SubflowConnection α × Sent :=
  let tcpHeader : TcpHeader :=
    { ackBit := true
      sequenceNo := view.snd_nxt
      ackNo := view.rcv_nxt
      window := view.rcvWnd
      eceBit := view.ect && view.shouldMarkAck
      options := view.options
      dataAck := some view.dataAckToSend
      intTag := some { intData := sf.echoedIntData view intData }
      deltaShuffle := sf.getCurrentDeltaShuffle.map DeltaShuffleTag.echo }
  let (sf, packet) := { sf with sndAck := true }.sendToIP view.send 0 tcpHeader
  ({ sf with sndAck := false }, packet)

/-! ## What sending does -/

section Sending

variable (sf : SubflowConnection α)

theorem sendToIP_stacks (view : SendView) (byteLength : ℕ) (tcpHeader : TcpHeader) :
    (sf.sendToIP view byteLength tcpHeader).1.intDataContextStack = sf.intDataContextStack ∧
      (sf.sendToIP view byteLength tcpHeader).1.deltaContextStack = sf.deltaContextStack := by
  unfold sendToIP stampSegment
  cases sf.tcpAlgorithm with
  | delta d =>
    simp only
    split <;> exact ⟨rfl, rfl⟩
  | orb => exact ⟨rfl, rfl⟩
  | other => exact ⟨rfl, rfl⟩

/-- A data segment of a Delta sender goes out with the stamp the sender makes for it. -/
theorem sendToIP_data {d : MpOrbDelta α} (hd : sf.tcpAlgorithm = .delta d) (view : SendView)
    {byteLength : ℕ} (hdata : 0 < byteLength) (tcpHeader : TcpHeader) :
    (sf.sendToIP view byteLength tcpHeader).2.header.deltaShuffle =
        some (d.stampTelemetry view.subflows).2 ∧
      (sf.sendToIP view byteLength tcpHeader).1.tcpAlgorithm =
        .delta (d.stampTelemetry view.subflows).1 := by
  have hstamp : sf.stampSegment view byteLength tcpHeader =
      ({ sf with tcpAlgorithm := .delta (d.stampTelemetry view.subflows).1 },
        { tcpHeader with deltaShuffle := some (d.stampTelemetry view.subflows).2 }) := by
    simp only [stampSegment, hd, hdata, if_true]
  simp only [sendToIP, hstamp, and_true]
  split <;> rfl

theorem sendToIP_ack (view : SendView) (tcpHeader : TcpHeader) :
    sf.sendToIP view 0 tcpHeader = (sf, ⟨tcpHeader, 0, sf.sndAck⟩) := by
  have hstamp : sf.stampSegment view 0 tcpHeader = (sf, tcpHeader) := by
    unfold stampSegment
    cases sf.tcpAlgorithm <;> rfl
  unfold sendToIP
  rw [hstamp]
  rfl

theorem sendIntAck_sender (view : AckView) (intData : IntDataVec) :
    (sf.sendIntAck view intData).1 = { sf with sndAck := false } := by
  simp only [sendIntAck, sendToIP_ack]

theorem sendIntAck_pure (view : AckView) (intData : IntDataVec) :
    (sf.sendIntAck view intData).2.byteLength = 0 ∧
      (sf.sendIntAck view intData).2.header.ackBit = true := by
  simp only [sendIntAck, sendToIP_ack, and_self]

theorem sendIntAck_intData (view : AckView) (intData : IntDataVec) :
    (sf.sendIntAck view intData).2.header.intTag =
      some { intData := sf.echoedIntData view intData } := by
  simp only [sendIntAck, sendToIP_ack]

theorem sendIntAck_delta (view : AckView) (intData : IntDataVec) :
    (sf.sendIntAck view intData).2.header.deltaShuffle =
      sf.getCurrentDeltaShuffle.map DeltaShuffleTag.echo := by
  simp only [sendIntAck, sendToIP_ack]

end Sending

end SubflowConnection

end MpOrb
