import MpOrb.Subflow
import MpOrb.Lib.Counter
import Mathlib.Data.PNat.Basic

/-!
# Telemetry echo coherence

An `Execution` is a well-nested run of the two entry points of a subflow, with ACKs and data
segments sent anywhere inside.  The run writes down what it sends, with the headers of the calls
that are active at that moment, innermost first; the subflow itself does not know them.

* `Execution.run` — the run, through the code of the subflow.
* `run_stacks` — every execution leaves both context stacks as they were.
* `run_coherent` — an ACK echoes the header of the innermost active call.
* `run_issues` — a Delta sender stamps every data segment, and the serials count up from its own.
* `echo_coherence` — the guarantees together; `serials_wrap` — what 64 bits do to the serials.
-/

set_option autoImplicit false

namespace MpOrb

variable {α : Type}

/-! ## Executions -/

/-- The two base-class methods that run in the context of a segment. -/
inductive EntryPoint where
  | segment1stThru8th
  | ackInEstabEtc

/-- `update` is whatever else the base classes do to a Delta sender; only a stamp takes a serial. -/
inductive Execution (α : Type) where
  | done
  | call (entry : EntryPoint) (tcpHeader : Option TcpHeader) (body rest : Execution α)
  | ack (view : AckView) (rest : Execution α)
  | data (view : SendView) (byteLength : ℕ+) (tcpHeader : TcpHeader) (rest : Execution α)
  | update (f : MpOrbDelta α → MpOrbDelta α) (serial : ∀ d, (f d).nextSerial = d.nextSerial)
      (rest : Execution α)

/-- A packet with the headers of the active calls, innermost first, and what sent it. -/
inductive Transmission (α : Type) where
  | ack (active : List (Option TcpHeader)) (view : AckView) (packet : Sent)
  | data (active : List (Option TcpHeader)) (sender : TcpAlgorithm α) (view : SendView)
      (packet : Sent)

/-- An entry point around a base-class body. -/
def EntryPoint.run {β : Type} (entry : EntryPoint) (sf : SubflowConnection α)
    (tcpHeader : Option TcpHeader) (base : SubflowConnection α → SubflowConnection α × β) :
    SubflowConnection α × β :=
  match entry with
  | .segment1stThru8th => sf.processSegment1stThru8th tcpHeader base
  | .ackInEstabEtc => sf.processAckInEstabEtc tcpHeader base

/-- A Delta sender changes; other algorithms have nothing that matters here. -/
def SubflowConnection.update (sf : SubflowConnection α) (f : MpOrbDelta α → MpOrbDelta α) :
    SubflowConnection α :=
  match sf.tcpAlgorithm with
  | .delta d => { sf with tcpAlgorithm := .delta (f d) }
  | _ => sf

/-- The execution, with the headers of the active calls, and what it sends. -/
def Execution.run : Execution α → List (Option TcpHeader) → SubflowConnection α →
    SubflowConnection α × List (Transmission α)
  | .done, _, sf => (sf, [])
  | .call entry tcpHeader body rest, active, sf =>
    let inner := entry.run sf tcpHeader (body.run (tcpHeader :: active))
    let later := rest.run active inner.1
    (later.1, inner.2 ++ later.2)
  | .ack view rest, active, sf =>
    let sent := sf.sendIntAck view sf.getCurrentIntData
    let later := rest.run active sent.1
    (later.1, .ack active view sent.2 :: later.2)
  | .data view byteLength tcpHeader rest, active, sf =>
    let sent := sf.sendToIP view byteLength tcpHeader
    let later := rest.run active sent.1
    (later.1, .data active sf.tcpAlgorithm view sent.2 :: later.2)
  | .update f _ rest, active, sf => rest.run active (sf.update f)

theorem EntryPoint.run_eq {β : Type} (entry : EntryPoint) (sf : SubflowConnection α)
    (tcpHeader : Option TcpHeader) (base : SubflowConnection α → SubflowConnection α × β) :
    entry.run sf tcpHeader base =
      ((base (sf.pushIntContext tcpHeader)).1.popIntContext,
        (base (sf.pushIntContext tcpHeader)).2) := by
  cases entry <;> rfl

/-! ## Contexts -/

theorem update_stacks (sf : SubflowConnection α) (f : MpOrbDelta α → MpOrbDelta α) :
    (sf.update f).intDataContextStack = sf.intDataContextStack ∧
      (sf.update f).deltaContextStack = sf.deltaContextStack := by
  unfold SubflowConnection.update
  cases sf.tcpAlgorithm <;> exact ⟨rfl, rfl⟩

/-- **Every execution restores both context stacks.** -/
theorem run_stacks (e : Execution α) (active : List (Option TcpHeader))
    (sf : SubflowConnection α) :
    (e.run active sf).1.intDataContextStack = sf.intDataContextStack ∧
      (e.run active sf).1.deltaContextStack = sf.deltaContextStack := by
  induction e generalizing active sf with
  | done => exact ⟨rfl, rfl⟩
  | call entry tcpHeader body rest ihbody ihrest =>
    obtain ⟨hint, hdelta⟩ := ihbody (tcpHeader :: active) (sf.pushIntContext tcpHeader)
    simp only [Execution.run, EntryPoint.run_eq]
    refine ⟨(ihrest _ _).1.trans ?_, (ihrest _ _).2.trans ?_⟩
    · show List.tail _ = _
      rw [hint]
      rfl
    · show List.tail _ = _
      rw [hdelta]
      rfl
  | ack view rest ih =>
    simp only [Execution.run, SubflowConnection.sendIntAck_sender]
    exact ih active _
  | data view byteLength tcpHeader rest ih =>
    obtain ⟨hint, hdelta⟩ := sf.sendToIP_stacks view byteLength tcpHeader
    simp only [Execution.run]
    exact ⟨(ih _ _).1.trans hint, (ih _ _).2.trans hdelta⟩
  | update f serial rest ih =>
    obtain ⟨hint, hdelta⟩ := update_stacks sf f
    simp only [Execution.run]
    exact ⟨(ih _ _).1.trans hint, (ih _ _).2.trans hdelta⟩

/-- The stacks hold the contexts of the active calls on top of older ones. -/
structure InContext (active : List (Option TcpHeader)) (sf : SubflowConnection α) : Prop where
  int : active.map headerIntData <+: sf.intDataContextStack
  delta : active.map headerDelta <+: sf.deltaContextStack

namespace InContext

variable {active : List (Option TcpHeader)} {sf sf' : SubflowConnection α}

theorem of_stacks (h : InContext active sf)
    (hstacks : sf'.intDataContextStack = sf.intDataContextStack ∧
      sf'.deltaContextStack = sf.deltaContextStack) : InContext active sf' := by
  obtain ⟨hint, hdelta⟩ := hstacks
  exact ⟨hint ▸ h.int, hdelta ▸ h.delta⟩

theorem push (h : InContext active sf) (tcpHeader : Option TcpHeader) :
    InContext (tcpHeader :: active) (sf.pushIntContext tcpHeader) :=
  ⟨List.cons_prefix_cons.2 ⟨rfl, h.int⟩, List.cons_prefix_cons.2 ⟨rfl, h.delta⟩⟩

/-- What the code takes for the current telemetry comes from one header, the innermost. -/
theorem current {tcpHeader : Option TcpHeader} (h : InContext (tcpHeader :: active) sf) :
    sf.getCurrentIntData = headerIntData tcpHeader ∧
      sf.getCurrentDeltaShuffle = headerDelta tcpHeader := by
  obtain ⟨older, hint⟩ := h.int
  obtain ⟨older', hdelta⟩ := h.delta
  unfold SubflowConnection.getCurrentIntData SubflowConnection.getCurrentDeltaShuffle
  rw [← hint, ← hdelta]
  exact ⟨rfl, rfl⟩

end InContext

/-! ## ACKs -/

/-- A pure ACK returns the samples and the Delta tag of one header. -/
structure EchoOf (tcpHeader : Option TcpHeader) (view : AckView) (packet : Sent) : Prop where
  pure : packet.byteLength = 0 ∧ packet.header.ackBit = true
  samples : ∃ tag, packet.header.intTag = some tag ∧
    (tag.intData = headerIntData tcpHeader ∨
      view.send.usesPintTelemetry = true ∧ view.pintSeparateQueueingDelay = true ∧
        tag.intData = (headerIntData tcpHeader).map SubflowConnection.separateDelay)
  delta : packet.header.deltaShuffle = (headerDelta tcpHeader).map DeltaShuffleTag.echo

/-- An ACK sent inside a call echoes the header of that call. -/
def Transmission.Coherent : Transmission α → Prop
  | .ack (tcpHeader :: _) view packet => EchoOf tcpHeader view packet
  | _ => True

theorem sendIntAck_echo {active : List (Option TcpHeader)} {tcpHeader : Option TcpHeader}
    {sf : SubflowConnection α} (h : InContext (tcpHeader :: active) sf) (view : AckView) :
    EchoOf tcpHeader view (sf.sendIntAck view sf.getCurrentIntData).2 := by
  obtain ⟨hint, hdelta⟩ := h.current
  refine ⟨sf.sendIntAck_pure view _, ⟨_, sf.sendIntAck_intData view _, ?_⟩, ?_⟩
  · rw [hint]
    unfold SubflowConnection.echoedIntData
    split
    · rename_i hseparate
      simp only [Bool.and_eq_true] at hseparate
      exact .inr ⟨hseparate.1.2, hseparate.2, rfl⟩
    · exact .inl rfl
  · rw [sf.sendIntAck_delta, hdelta]

/-- **Every ACK echoes the innermost active call**, whatever ran before it. -/
theorem run_coherent (e : Execution α) {active : List (Option TcpHeader)}
    {sf : SubflowConnection α} (h : InContext active sf) :
    ∀ t ∈ (e.run active sf).2, t.Coherent := by
  induction e generalizing active sf with
  | done =>
    intro t ht
    exact absurd ht List.not_mem_nil
  | call entry tcpHeader body rest ihbody ihrest =>
    intro t ht
    -- the call as a whole is an execution that restores the stacks
    have hafter := h.of_stacks (run_stacks (.call entry tcpHeader body .done) active sf)
    simp only [Execution.run, EntryPoint.run_eq, List.mem_append] at ht hafter
    rcases ht with ht | ht
    · exact ihbody (h.push tcpHeader) t ht
    · exact ihrest hafter t ht
  | ack view rest ih =>
    intro t ht
    simp only [Execution.run, SubflowConnection.sendIntAck_sender, List.mem_cons] at ht
    rcases ht with rfl | ht
    · cases active with
      | nil => trivial
      | cons tcpHeader active => exact sendIntAck_echo h view
    · have hafter : InContext active { sf with sndAck := false } := h.of_stacks ⟨rfl, rfl⟩
      exact ih hafter t ht
  | data view byteLength tcpHeader rest ih =>
    intro t ht
    simp only [Execution.run, List.mem_cons] at ht
    rcases ht with rfl | ht
    · trivial
    · exact ih (h.of_stacks (sf.sendToIP_stacks view byteLength tcpHeader)) t ht
  | update f serial rest ih => exact ih (h.of_stacks (update_stacks sf f))

/-! ## Data segments -/

/-- The data segments an execution sends. -/
def Execution.segments : Execution α → ℕ
  | .done => 0
  | .call _ _ body rest => body.segments + rest.segments
  | .ack _ rest => rest.segments
  | .data _ _ _ rest => 1 + rest.segments
  | .update _ _ rest => rest.segments

/-- The serial of a stamped data segment. -/
def Transmission.dataSerial : Transmission α → Option ℕ
  | .ack .. => none
  | .data _ _ _ packet => packet.header.deltaShuffle.map DeltaShuffleTag.serial

/-- The serials of the data segments, in the order of sending. -/
def serials (sent : List (Transmission α)) : List ℕ := sent.filterMap Transmission.dataSerial

/-- A data segment carries the stamp that its sender makes for it. -/
def Transmission.Stamped : Transmission α → Prop
  | .ack .. => True
  | .data _ sender view packet => ∃ d, sender = .delta d ∧
      packet.header.deltaShuffle = some (d.stampTelemetry view.subflows).2

/-- What `n` data segments do to a Delta sender that starts as `d`. -/
structure Issues (d : MpOrbDelta α) (n : ℕ) (after : SubflowConnection α)
    (sent : List (Transmission α)) : Prop where
  sender : ∃ d', after.tcpAlgorithm = .delta d' ∧
    d'.nextSerial ≡ d.nextSerial + n [MOD 2 ^ 64]
  stamped : ∀ t ∈ sent, t.Stamped
  serials : serials sent = Counter.issued (2 ^ 64) d.nextSerial n

/-- The sender goes on with the serials it has not used yet. -/
theorem Issues.append {d : MpOrbDelta α} {m n : ℕ} {sf after : SubflowConnection α}
    {sent sent' : List (Transmission α)} (h : Issues d m sf sent)
    (hlater : ∀ d', sf.tcpAlgorithm = .delta d' → Issues d' n after sent') :
    Issues d (m + n) after (sent ++ sent') := by
  obtain ⟨d', hd', hserial⟩ := h.sender
  have hlater := hlater d' hd'
  obtain ⟨d'', hd'', hserial'⟩ := hlater.sender
  refine ⟨⟨d'', hd'', ?_⟩, ?_, ?_⟩
  · rw [← Nat.add_assoc]
    exact hserial'.trans (hserial.add_right n)
  · intro t ht
    exact (List.mem_append.1 ht).elim (h.stamped t) (hlater.stamped t)
  · rw [MpOrb.serials, List.filterMap_append]
    exact (congrArg₂ _ h.serials hlater.serials).trans (Counter.issued_append hserial n)

/-- Nothing is stamped where only other things change. -/
theorem Issues.quiet {d : MpOrbDelta α} {after : SubflowConnection α}
    {sent : List (Transmission α)}
    (hsender : ∃ d', after.tcpAlgorithm = .delta d' ∧ d'.nextSerial = d.nextSerial)
    (hack : ∀ t ∈ sent, ∃ active view packet, t = .ack active view packet) :
    Issues d 0 after sent := by
  obtain ⟨d', hd', hserial⟩ := hsender
  refine ⟨⟨d', hd', congrArg (· % 2 ^ 64) hserial⟩, ?_, ?_⟩
  · intro t ht
    obtain ⟨active, view, packet, rfl⟩ := hack t ht
    trivial
  · refine List.filterMap_eq_nil_iff.2 fun t ht => ?_
    obtain ⟨active, view, packet, rfl⟩ := hack t ht
    rfl

theorem sendToIP_issues {d : MpOrbDelta α} {sf : SubflowConnection α}
    (hd : sf.tcpAlgorithm = .delta d) (active : List (Option TcpHeader)) (view : SendView)
    (byteLength : ℕ+) (tcpHeader : TcpHeader) :
    Issues d 1 (sf.sendToIP view byteLength tcpHeader).1
      [.data active sf.tcpAlgorithm view (sf.sendToIP view byteLength tcpHeader).2] := by
  obtain ⟨htag, hafter⟩ := sf.sendToIP_data hd view byteLength.pos tcpHeader
  refine ⟨⟨_, hafter, Nat.mod_modEq _ _⟩, ?_, ?_⟩
  · intro t ht
    rw [List.mem_singleton.1 ht]
    exact ⟨d, hd, htag⟩
  · simp only [serials, Transmission.dataSerial, List.filterMap_cons, htag]
    rfl

/-- **A Delta sender stamps all its data segments, with consecutive serials modulo `2 ^ 64`.** -/
theorem run_issues (e : Execution α) (active : List (Option TcpHeader))
    {sf : SubflowConnection α} {d : MpOrbDelta α} (hd : sf.tcpAlgorithm = .delta d) :
    Issues d e.segments (e.run active sf).1 (e.run active sf).2 := by
  induction e generalizing active sf d with
  | done => exact .quiet ⟨d, hd, rfl⟩ fun t ht => absurd ht List.not_mem_nil
  | call entry tcpHeader body rest ihbody ihrest =>
    simp only [Execution.run, EntryPoint.run_eq, Execution.segments]
    have hpush : (sf.pushIntContext tcpHeader).tcpAlgorithm = .delta d := hd
    have hbody := ihbody (tcpHeader :: active) hpush
    -- popping the context leaves the algorithm alone
    exact Issues.append ⟨hbody.sender, hbody.stamped, hbody.serials⟩
      fun d' hd' => ihrest active hd'
  | ack view rest ih =>
    simp only [Execution.run, SubflowConnection.sendIntAck_sender, Execution.segments]
    rw [← Nat.zero_add rest.segments, ← List.singleton_append]
    refine (Issues.quiet ⟨d, hd, rfl⟩ ?_).append fun d' hd' => ih active hd'
    intro t ht
    exact ⟨_, _, _, List.mem_singleton.1 ht⟩
  | data view byteLength tcpHeader rest ih =>
    exact (sendToIP_issues hd active view byteLength tcpHeader).append fun d' hd' => ih active hd'
  | update f serial rest ih =>
    have hupdate : (sf.update f).tcpAlgorithm = .delta (f d) := by
      simp only [SubflowConnection.update, hd]
    simp only [Execution.run, Execution.segments]
    rw [← Nat.zero_add rest.segments, ← List.nil_append (Execution.run _ _ _).2]
    exact (Issues.quiet ⟨f d, hupdate, serial d⟩ fun t ht => absurd ht List.not_mem_nil).append
      fun d' hd' => ih active hd'

/-! ## The guarantees together -/

/-- **Telemetry echo coherence.**  Every execution restores the context stacks, every ACK inside a
call echoes the innermost one, and a Delta sender puts a fresh tag on every data segment.  The
serials count up from the sender's own modulo `2 ^ 64`: each is above all used before as long as
they do not wrap. -/
theorem echo_coherence (e : Execution α) (sf : SubflowConnection α) :
    ((e.run [] sf).1.intDataContextStack = sf.intDataContextStack ∧
      (e.run [] sf).1.deltaContextStack = sf.deltaContextStack) ∧
    (∀ tcpHeader outer view packet, .ack (tcpHeader :: outer) view packet ∈ (e.run [] sf).2 →
      EchoOf tcpHeader view packet) ∧
    ∀ d, sf.tcpAlgorithm = .delta d →
      (∀ active sender view packet, .data active sender view packet ∈ (e.run [] sf).2 →
        ∃ d' tag, sender = .delta d' ∧ packet.header.deltaShuffle = some tag ∧
          tag = (d'.stampTelemetry view.subflows).2 ∧ tag.echoed = false) ∧
      serials (e.run [] sf).2 =
        (List.range' (d.nextSerial + 1) e.segments).map (· % 2 ^ 64) ∧
      (d.nextSerial + e.segments < 2 ^ 64 →
        (serials (e.run [] sf).2).Pairwise (· < ·) ∧
          ∀ serial ∈ serials (e.run [] sf).2, d.nextSerial < serial) := by
  refine ⟨run_stacks e [] sf, ?_, ?_⟩
  · intro tcpHeader outer view packet hack
    have hcontext : InContext [] sf := ⟨List.nil_prefix, List.nil_prefix⟩
    exact run_coherent e hcontext _ hack
  · intro d hd
    have hissues := run_issues e [] hd
    refine ⟨?_, hissues.serials, ?_⟩
    · intro active sender view packet hdata
      obtain ⟨d', hsender, htag⟩ := hissues.stamped _ hdata
      exact ⟨d', _, hsender, htag, rfl, rfl⟩
    · intro hbound
      rw [hissues.serials]
      exact Counter.issued_increasing hbound

/-- A Delta subflow that has not sent anything. -/
def freshSubflow : SubflowConnection Unit := { tcpAlgorithm := .delta freshSender }

/-- A connection without siblings or PINT telemetry. -/
def plainSend : SendView where
  subflows := none
  connId := 1
  estimatedRtt := 1 / 10
  rtt := 1 / 10
  cwnd := 14480
  usesPintTelemetry := false
  pintUseAverageRtt := false
  initialPhase := false
  isRetransmitted := none
  encodeBaseRtt _ := 0
  encodeCwnd _ := 0

def plainAck : AckView where
  send := plainSend
  snd_nxt := 1
  rcv_nxt := 1
  rcvWnd := 65535
  ect := false
  shouldMarkAck := false
  options := []
  dataAckToSend := 1
  pintSeparateQueueingDelay := false

/-- A segment with feedback; a null header inside brings an ACK without a tag, the segment itself
one with its echo, and new data a stamp. -/
theorem echo_coherence_nested :
    let feedback : DeltaShuffleTag := { serial := 5, hops := 2, bottleneckId := 3 }
    let segment : TcpHeader := { intTag := some {}, deltaShuffle := some feedback }
    let inner : Execution Unit := .ack plainAck .done
    let later : Execution Unit := .data plainSend 1448 {} (.ack plainAck .done)
    let e : Execution Unit :=
      .call .segment1stThru8th segment (.call .ackInEstabEtc none inner later) .done
    let sent := (e.run [] freshSubflow).2
    (∀ view packet, .ack [none, some segment] view packet ∈ sent →
      packet.header.deltaShuffle = none) ∧
    (∀ view packet, .ack [some segment] view packet ∈ sent →
      packet.header.deltaShuffle = some feedback.echo) ∧
    (serials sent).Pairwise (· < ·) := by
  intro feedback segment inner later e sent
  obtain ⟨-, hack, hdelta⟩ := echo_coherence e freshSubflow
  refine ⟨?_, ?_, ((hdelta freshSender rfl).2.2 (by decide)).1⟩
  · intro view packet h
    exact (hack _ _ view packet h).delta
  · intro view packet h
    exact (hack _ _ view packet h).delta

/-! ## Serials of 64 bits -/

/-- `n` data segments of one byte. -/
def sendSegments : ℕ → Execution α
  | 0 => .done
  | n + 1 => .data plainSend 1 {} (sendSegments n)

theorem segments_sendSegments (n : ℕ) : (sendSegments n : Execution α).segments = n := by
  induction n with
  | zero => rfl
  | succ n ih => rw [sendSegments, Execution.segments, ih, Nat.add_comm]

/-- A call with `2 ^ 64 + 1` data segments inside uses a serial twice. -/
theorem serials_wrap :
    ¬ (serials ((Execution.call .segment1stThru8th none (sendSegments (2 ^ 64 + 1)) .done).run []
      freshSubflow).2).Pairwise (· < ·) := by
  rw [(run_issues _ [] rfl).serials, Execution.segments, segments_sendSegments]
  exact Counter.issued_wrap (Nat.two_pow_pos 64) _

end MpOrb
