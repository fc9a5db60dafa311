import MpOrb.FluidModel
import MpOrb.Lib.EventLoop
import Mathlib.Data.Finset.Card

/-!
# The packet projection

`packet_projection` of `orbcc-fluid-model`: FIFO links, ACKs, pacing and the window rules as an
event loop.  Every handler returns `none` where Python raises.

* `Event`, `Traffic`, `State` — pending events, what packets pass through, and the rest.
* `History` — what happened to the packets; no code reads it.
* `send`, `startService` — the nested functions of the projection.
* `handle`, `iteration` — one event and one iteration of the loop; `head` — the state at the head of
  every iteration.
-/

set_option autoImplicit false

namespace MpOrb.FluidModel

open PyFloat

/-! ## States -/

/-- The data of an `'arrival'` event; `serial` tells packets apart. -/
structure Packet (R : Type) (n : ℕ) where
  subflow : Fin n
  sent : R
  taggedBase : R
  taggedW : ℤ
  serial : ℕ

/-- The kinds of events on the heap, with their data. -/
inductive EventKind (R : Type) (n m : ℕ) where
  | arrival (link : Fin m) (packet : Packet R n)
  | finish (link : Fin m)
  | pace (subflow : Fin n)
  | measurement (link : Fin m)
  | react (subflow : Fin n)
  | ack (packet : Packet R n) (u : R) (count : ℤ) (qdelay : R)
  | record

/-- An event of the heap. -/
structure Event (R : Type) (n m : ℕ) where
  t : R
  counter : ℕ
  kind : EventKind R n m

/-- A packet that was sent, with `F` and `W` of its subflow right after. -/
structure SendRecord (R : Type) (n : ℕ) where
  packet : Packet R n
  F : ℤ
  W : ℤ

/-- Sent and acknowledged packets, newest first; packets of every link, oldest first. -/
structure History (R : Type) (n m : ℕ) where
  sends : List (SendRecord R n) := []
  acked : List (Packet R n) := []
  arrived : Fin m → List (Packet R n) := fun _ => []
  served : Fin m → List (Packet R n) := fun _ => []

/-- The arrays that packets pass through. -/
structure Traffic (R : Type) (n m : ℕ) where
  F : Fin n → ℤ := fun _ => 0
  pace : Fin n → Bool := fun _ => false
  queues : Fin m → List (Packet R n × R) := fun _ => []
  busy : Fin m → Bool := fun _ => false
  delivered : Fin n → ℤ := fun _ => 0
  events : List (Event R n m) := []
  counter : ℕ := 0
  history : History R n m := {}

/-- A row of the result. -/
structure Row (R : Type) (n m : ℕ) where
  t : R
  delivered : Fin n → ℤ
  W : Fin n → ℤ
  queueBytes : Fin m → ℤ
  U : Fin m → R

/-- The local arrays of `packet_projection`. -/
structure State (R : Type) (n m : ℕ) extends Traffic R n m where
  W : Fin n → ℤ
  V : Fin n → ℤ
  s : Fin n → R
  rawR : Fin n → R
  baseR : Fin n → R
  residual : Fin n → R
  interval : Fin n → R
  commit : Fin n → Bool
  reactScheduled : Fin n → Bool
  U : Fin m → R
  /-- `none` is the initial `nan`. -/
  last : Fin m → Option R
  H : Fin m → R
  N : Fin m → ℤ
  ids : Fin m → Finset ℤ
  moments : Fin m → R × R
  sampleSum : Fin m → R
  samples : Fin m → ℕ
  /-- The draws made from `rng`. -/
  draws : ℕ
  rows : List (Row R n m)

/-- The arguments of `packet_projection`; the seed stands for the stream of `rng`. -/
structure Projection (R : Type) (n m : ℕ) where
  case : Case R n m
  duration : R
  rng : ℕ → R
  quantizedU : Bool := false

/-- The heap order on `(t, counter, ...)`; counters are distinct. -/
def Event.before {R : Type} [PyFloat R] {n m : ℕ} (e f : Event R n m) : Bool :=
  if eq e.t f.t then decide (e.counter < f.counter) else lt e.t f.t

/-- Push an event with the next counter. -/
def State.event {R : Type} {n m : ℕ} (st : State R n m) (t : R) (kind : EventKind R n m) :
    State R n m :=
  { st with
    events := ⟨t, st.counter, kind⟩ :: st.events
    counter := st.counter + 1 }

namespace Projection

variable {R : Type} [PyFloat R] {n m : ℕ} (p : Projection R n m)

/-! ## Sending -/

/-- A packet leaves if the window has room for it and pacing allows it. -/
def send (t : R) (i : Fin n) (st : State R n m) : Option (State R n m) :=
  if st.pace i || decide (st.W i < st.F i + MSS) then some st
  else do
    let st := { st with F := Function.update st.F i (st.F i + MSS) }
    let code ← floor (st.baseR i * lit 1000000 + lit (1 / 2))
    let packet : Packet R n :=
      { subflow := i
        sent := t
        taggedBase := ofInt code * lit (1 / 1000000)
        taggedW := encodeCwndRoundtrip (st.W i)
        serial := st.history.sends.length }
    let st := st.event (t + p.case.propagation i / lit 2) (.arrival (p.case.pathLink i) packet)
    let st := { st with
      pace := Function.update st.pace i true
      history := { st.history with sends := ⟨packet, st.F i, st.W i⟩ :: st.history.sends } }
    return st.event (t + st.interval i) (.pace i)

/-! ## Service -/

/-- The utilization filter of a link at a departure that leaves `waiting` packets behind. -/
def measureUtilization (t : R) (j : Fin m) (waiting : ℕ) (st : State R n m) : State R n m :=
  let B := p.case.capacity j
  let qterm := ofInt (waiting * p.case.chargedPacketBytes) / (B * st.H j)
  let st :=
    match st.last j with
    | none => { st with U := Function.update st.U j qterm }
    | some last =>
      let tau := PyFloat.max (t - last) (ofInt MSS / B)
      let sample := qterm + ofInt MSS / (B * tau)
      let U := (lit 1 - lit QUEUE_ALPHA) * st.U j + lit QUEUE_ALPHA * sample
      if le (p.duration / lit 2) t then
        { st with
          U := Function.update st.U j U
          sampleSum := Function.update st.sampleSum j (st.sampleSum j + sample)
          samples := Function.update st.samples j (st.samples j + 1) }
      else { st with U := Function.update st.U j U }
  { st with last := Function.update st.last j (if isnan t then none else some t) }

/-- The feedback of a departure, with the draws made so far. -/
def quantizedFeedback (feedback : R) (draws : ℕ) : Option (R × ℕ) :=
  if p.quantizedU then do
    let minimum : R := lit (1 / 512)
    let units ← ceil (feedback * lit 512)
    let clamped := ofInt (Max.max 1 units) / lit 512
    let power ← log (clamped / minimum) (lit (105 / 100))
    let lower ← floor power
    let upper ← ceil power
    let lower := Min.min 255 lower
    let upper := Min.min 255 upper
    if lower = upper then return (minimum * pow (lit (105 / 100)) lower, draws)
    else
      let lo := minimum * pow (lit (105 / 100)) lower
      let hi := minimum * pow (lit (105 / 100)) upper
      return (if lt (p.rng draws) ((clamped - lo) / (hi - lo)) then hi else lo, draws + 1)
  else return (feedback, draws)

/-- `busy[j] = True` and `queues[j].popleft()`. -/
def takeFirst (j : Fin m) (packet : Packet R n) (queue : List (Packet R n × R))
    (st : State R n m) : State R n m :=
  { st with
    busy := Function.update st.busy j true
    queues := Function.update st.queues j queue
    history := { st.history with
      served := Function.update st.history.served j (st.history.served j ++ [packet]) } }

/-- An idle link takes its first packet and schedules its departure and its ACK. -/
def startService (t : R) (j : Fin m) (st : State R n m) : Option (State R n m) :=
  if st.busy j then some st
  else
    match st.queues j with
    | [] => some st
    | (packet, arrived) :: queue => do
      let st := p.measureUtilization t j queue.length (takeFirst j packet queue st)
      let (feedback, draws) ← p.quantizedFeedback (st.U j) st.draws
      let st := { st with draws }
      let code ← floor ((t - arrived) / lit (64 / 1000000) + lit (1 / 2))
      let qdelay := ofInt (Min.min 4095 code) * lit (64 / 1000000)
      let serviceTime := ofInt p.case.chargedPacketBytes / p.case.capacity j
      let st := st.event (t + serviceTime) (.finish j)
      return st.event (t + serviceTime + p.case.propagation packet.subflow / lit 2)
        (.ack packet feedback (st.N j) qdelay)

/-! ## Acknowledgments -/

/-- The round-trip estimates. -/
def updateRtt (t : R) (i : Fin n) (sent qdelay : R) (st : State R n m) : Option (State R n m) := do
  let received ← floor (t * lit 1000)
  let sentMs ← floor (sent * lit 1000)
  let rawR := ofInt (received - sentMs) / lit 1000
  let estimate := rawR - qdelay
  let s := st.s i + lit RTT_GAIN * (rawR - st.s i)
  let baseR := st.baseR i + lit RTT_GAIN * (estimate - st.baseR i)
  let baseR := if le estimate (lit 0) || le baseR (lit 0) then s else baseR
  return { st with
    rawR := Function.update st.rawR i rawR
    s := Function.update st.s i s
    baseR := Function.update st.baseR i baseR }

/-- The integer additive increase and the residual left by the Alpha weight. -/
def additiveIncrease (i : Fin n) (count : ℤ) (st : State R n m) : Option (ℤ × R) := do
  let a ← int (lit AI_GAIN * p.case.capacity (p.case.pathLink i) / ofInt count * st.rawR i)
  if p.case.alpha && decide (0 < a) then
    let exact := ofInt a * weights st.W st.s p.case i + st.residual i
    let a ← int exact
    return (a, exact - ofInt a)
  else return (a, st.residual i)

/-- `int(V[i] * min(1, ETA/u) + a)`; with the factor `1` it is integer arithmetic. -/
def targetWindow (V a : ℤ) (u : R) : Option ℤ :=
  if lt (lit ETA / u) (lit 1) then int (ofInt V * (lit ETA / u) + ofInt a) else some (V + a)

/-- The window rule; it needs positive feedback. -/
def updateWindow (i : Fin n) (u : R) (count : ℤ) (st : State R n m) : Option (State R n m) :=
  if lt (lit 0) u then do
    let (a, residual) ← p.additiveIncrease i count st
    let target ← targetWindow (st.V i) a u
    let sendable := Max.max (st.W i / MSS) 1 * MSS
    let limited := decide (sendable ≤ st.F i + MSS)
    let target := if limited then target else Min.min target (st.W i)
    let W := Max.max MSS target
    let st := { st with
      residual := Function.update st.residual i residual
      W := Function.update st.W i W }
    if st.commit i then
      return { st with
        V := Function.update st.V i W
        commit := Function.update st.commit i false }
    else return st
  else some st

/-- An ACK arrives: estimates, window, pacing interval, the next packet, the reaction. -/
def acknowledge (t : R) (packet : Packet R n) (u : R) (count : ℤ) (qdelay : R)
    (st : State R n m) : Option (State R n m) := do
  let i := packet.subflow
  let st := { st with
    F := Function.update st.F i (st.F i - MSS)
    delivered := Function.update st.delivered i (st.delivered i + MSS)
    history := { st.history with acked := packet :: st.history.acked } }
  let st ← updateRtt t i packet.sent qdelay st
  let st ← p.updateWindow i u count st
  let st := { st with
    interval := Function.update st.interval i
      (ofInt MSS * st.s i / (lit (12 / 10) * ofInt (Max.max (st.W i) (st.F i)))) }
  let st ← p.send t i st
  if st.reactScheduled i then return st
  else
    let st := { st with reactScheduled := Function.update st.reactScheduled i true }
    return st.event (t + st.s i) (.react i)

/-! ## The loop -/

/-- A link renews its flow count and its mean delay from what passed it. -/
def measure (t : R) (j : Fin m) (st : State R n m) : State R n m :=
  let st :=
    if (st.ids j).Nonempty then
      let (first, second) := st.moments j
      { st with
        N := Function.update st.N j (Max.max 1 (st.ids j).card)
        H := Function.update st.H j
          (if lt (lit 0) first && lt (lit 0) second then second / first else st.H j)
        ids := Function.update st.ids j ∅
        moments := Function.update st.moments j (lit 0, lit 0) }
    else st
  st.event (t + st.H j) (.measurement j)

/-- A packet joins the queue of its link. -/
def arrive (t : R) (j : Fin m) (packet : Packet R n) (st : State R n m) : State R n m :=
  let (first, second) := st.moments j
  let base := packet.taggedBase
  let w : R := ofInt packet.taggedW
  { st with
    ids := Function.update st.ids j (insert (p.case.connection packet.subflow) (st.ids j))
    moments := Function.update st.moments j
      (first + base * ofInt MSS / w, second + pow base 2 * ofInt MSS / w)
    queues := Function.update st.queues j (st.queues j ++ [(packet, t)])
    history := { st.history with
      arrived := Function.update st.history.arrived j (st.history.arrived j ++ [packet]) } }

/-- A row is recorded and the next one scheduled. -/
def recordRow (t : R) (st : State R n m) : State R n m :=
  let row : Row R n m :=
    { t
      delivered := st.delivered
      W := st.W
      queueBytes := fun j => (st.queues j).length * p.case.chargedPacketBytes
      U := st.U }
  let st := { st with rows := st.rows ++ [row] }
  st.event (t + lit (1 / 100)) .record

/-- The branch of the loop for an event. -/
def handle (t : R) (kind : EventKind R n m) (st : State R n m) : Option (State R n m) :=
  match kind with
  | .arrival j packet => p.startService t j (p.arrive t j packet st)
  | .finish j => p.startService t j { st with busy := Function.update st.busy j false }
  | .pace i => p.send t i { st with pace := Function.update st.pace i false }
  | .measurement j => some (measure t j st)
  | .react i =>
    let st := { st with commit := Function.update st.commit i true }
    some (st.event (t + st.s i) (.react i))
  | .ack packet u count qdelay => p.acknowledge t packet u count qdelay st
  | .record => some (p.recordRow t st)

/-- The arrays before the first event. -/
def initial : State R n m :=
  let B (i : Fin n) := p.case.capacity (p.case.pathLink i)
  let D := p.case.propagation
  let W (i : Fin n) := astype (p.case.initialFraction i * B i * D i)
  { W
    V := W
    s := D
    rawR := D
    baseR := D
    residual := fun _ => lit 0
    interval := fun i => ofInt MSS * D i / (lit (12 / 10) * ofInt (W i))
    commit := fun _ => false
    reactScheduled := fun _ => false
    U := fun _ => lit 0
    last := fun _ => none
    H := fun j => mean (((List.finRange n).filter fun i => p.case.pathLink i = j).map D)
    N := fun _ => 1
    ids := fun _ => ∅
    moments := fun _ => (lit 0, lit 0)
    sampleSum := fun _ => lit 0
    samples := fun _ => 0
    draws := 0
    rows := [] }

/-- The measurement timers, the first sends and the first record. -/
def start : Option (State R n m) := do
  let st := (List.finRange m).foldl (fun st j => st.event (st.H j) (.measurement j)) p.initial
  let st ← (List.finRange n).foldlM (fun st i => p.send (lit 0) i st) st
  return st.event (lit 0) .record

/-- One iteration; the loop is over without events, after `duration` or where Python raises. -/
def iteration (st : State R n m) : Option (State R n m) :=
  match EventLoop.pop Event.before st.events with
  | none => none
  | some (e, events) =>
    if lt p.duration e.t then none else p.handle e.t e.kind { st with events }

/-- The state at the head of every iteration of `packet_projection`. -/
def head : ℕ → Option (State R n m) := EventLoop.heads p.iteration p.start

/-- What `packet_projection` returns from its last state. -/
def result (st : State R n m) : List (Row R n m) × (Fin m → R) :=
  (st.rows, fun j => st.sampleSum j / ofInt (Max.max (st.samples j) 1 : ℕ))

end Projection

end MpOrb.FluidModel
