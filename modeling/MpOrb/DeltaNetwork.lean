import MpOrb.DeltaPath
import Mathlib.Algebra.BigOperators.Group.List.Basic
import Mathlib.Logic.Relation
import Mathlib.Tactic.Linarith

/-!
# At-most-once crediting over a lossy network

One Delta subflow, the network and its receiver.  Data packets and ACKs are dropped, duplicated and
taken in any order, queues rewrite the feedback of any packet in flight, and the receiver echoes
any tag it received, as often as it likes.

* `Network.Step` — the steps of the three parties.
* `InFlight` — every tag in flight or received is a copy of a stamped packet.
* `Credited` — the accepted serials increase, come from stamped packets and carry the bytes of one
  of their copies.
* `credited_at_most_once` — the guarantees in every reachable state.
-/

set_option autoImplicit false

namespace MpOrb

variable {α : Type}

/-- Feedback the sender accepted, with the round-trip time and the bytes it added. -/
structure Credit where
  tag : DeltaShuffleTag
  srtt : SimTime
  bytes : ℚ

/-- `stamped`, `copies`, `credits` and `consumed` are the history; no step reads them.  Lists of the
history are newest first. -/
structure Network (α : Type) where
  sender : MpOrbDelta α
  data : List DeltaShuffleTag := []
  received : List DeltaShuffleTag := []
  acks : List DeltaShuffleTag := []
  stamped : List DeltaShuffleTag := []
  copies : List DeltaShuffleTag := []
  credits : List Credit := []
  consumed : ℚ := 0

namespace Network

/-- The sender reads an ACK or another segment with this tag. -/
def deliver (alpha : Alpha α) (n : Network α) (current : Option DeltaShuffleTag)
    (data : IntDataVec) : Network α :=
  let sender := (n.sender.measureInflight alpha current data).2
  { n with
    sender
    credits := match current with
      | some tag =>
        if n.sender.accepts tag data then
          ⟨tag, n.sender.state.srtt,
            sender.pendingShuffleBytes - n.sender.pendingShuffleBytes⟩ :: n.credits
        else n.credits
      | none => n.credits }

/-- The sender computes a window. -/
def compute (alpha : Alpha α) (n : Network α) (u : Double) (updateWc : Bool) : Network α :=
  { n with
    sender := (n.sender.computeWnd alpha u updateWc).2
    consumed := n.consumed +
      if updateWc then (Truncation.truncate n.sender.pendingShuffleBytes : ℚ) else 0 }

/-- One step of the sender, of the network or of the receiver. -/
inductive Step (alpha : Alpha α) (n : Network α) : Network α → Prop where
  /-- A data transmission, also of a packet sent before, overwrites its tag. -/
  | stamp (subflows : Option (List Sibling)) (fewer : n.stamped.length + 1 < 2 ^ 64) :
    Step alpha n { n with
      sender := (n.sender.stampTelemetry subflows).1
      data := (n.sender.stampTelemetry subflows).2 :: n.data
      stamped := (n.sender.stampTelemetry subflows).2 :: n.stamped
      copies := (n.sender.stampTelemetry subflows).2 :: n.copies }
  /-- A queue on the path writes feedback on a packet. -/
  | rewrite (tag tag' : DeltaShuffleTag) (inFlight : tag ∈ n.data) (same : SameStamp tag tag') :
    Step alpha n { n with data := tag' :: n.data.erase tag, copies := tag' :: n.copies }
  | duplicateData (tag : DeltaShuffleTag) (inFlight : tag ∈ n.data) :
    Step alpha n { n with data := tag :: n.data }
  | dropData (tag : DeltaShuffleTag) : Step alpha n { n with data := n.data.erase tag }
  | receive (tag : DeltaShuffleTag) (inFlight : tag ∈ n.data) :
    Step alpha n { n with data := n.data.erase tag, received := tag :: n.received }
  /-- `sendIntAck` with the tag of a received packet. -/
  | echo (tag : DeltaShuffleTag) (known : tag ∈ n.received) :
    Step alpha n { n with acks := tag.echo :: n.acks }
  | duplicateAck (ack : DeltaShuffleTag) (inFlight : ack ∈ n.acks) :
    Step alpha n { n with acks := ack :: n.acks }
  | dropAck (ack : DeltaShuffleTag) : Step alpha n { n with acks := n.acks.erase ack }
  | deliver (ack : DeltaShuffleTag) (data : IntDataVec) (inFlight : ack ∈ n.acks) :
    Step alpha n { n.deliver alpha (some ack) data with acks := n.acks.erase ack }
  /-- A segment without a tag, or with one that the peer stamped on data of its own. -/
  | other (current : Option DeltaShuffleTag) (data : IntDataVec)
      (unechoed : ∀ tag ∈ current, tag.echoed = false) :
    Step alpha n (n.deliver alpha current data)
  | compute (u : Double) (updateWc : Bool) : Step alpha n (n.compute alpha u updateWc)
  /-- The rest of the connection moves its own variables, the round-trip time among them. -/
  | change (state : OrbState) (parent : α) :
    Step alpha n { n with sender := { n.sender with state, parent } }

/-- A hop of a path is such a queue. -/
theorem step_of_carry (alpha : Alpha α) {n : Network α} {hop : Hop} {c c' : Carried}
    {tcpPayloadBytes : ℕ} (hbytes : tcpPayloadBytes ≠ 0) (hdata : DataTag c.tag)
    (hmem : c.tag ∈ n.data) (hcarry : hop.carry tcpPayloadBytes c = .ok c') :
    Step alpha n { n with data := c'.tag :: n.data.erase c.tag, copies := c'.tag :: n.copies } :=
  .rewrite c.tag c'.tag hmem (Hop.carry_cases hbytes hdata hcarry).1

/-! ## Tags in flight -/

/-- Every tag in the network goes back to a stamp, and the serials are those stamped. -/
structure InFlight (n : Network α) : Prop where
  count : n.sender.nextSerial = n.stamped.length
  bound : n.stamped.length < 2 ^ 64
  serial_le : ∀ p ∈ n.stamped, p.serial ≤ n.stamped.length
  serials : (n.stamped.map (·.serial)).Pairwise (· > ·)
  copies : ∀ copy ∈ n.copies, ∃ p ∈ n.stamped, SameStamp p copy
  held : ∀ tag ∈ n.data ++ n.received, tag ∈ n.copies
  acks : ∀ ack ∈ n.acks, ∃ copy ∈ n.copies, ack = copy.echo

/-- Moving tags around brings in no new ones. -/
theorem InFlight.mono {n n' : Network α} (h : InFlight n)
    (hserial : n'.sender.nextSerial = n.sender.nextSerial) (hstamped : n'.stamped = n.stamped)
    (hcopies : n'.copies = n.copies)
    (hheld : ∀ tag ∈ n'.data ++ n'.received, tag ∈ n.data ++ n.received)
    (hacks : ∀ ack ∈ n'.acks, ack ∈ n.acks) : InFlight n' := by
  refine ⟨?_, ?_, ?_, ?_, ?_, ?_, ?_⟩
  · rw [hserial, hstamped]; exact h.count
  · rw [hstamped]; exact h.bound
  · rw [hstamped]; exact h.serial_le
  · rw [hstamped]; exact h.serials
  · rw [hcopies, hstamped]; exact h.copies
  · rw [hcopies]
    intro tag htag
    exact h.held tag (hheld tag htag)
  · rw [hcopies]
    intro ack hack
    exact h.acks ack (hacks ack hack)

theorem InFlight.acks_cons {n : Network α} (h : InFlight n) (new : DeltaShuffleTag) :
    ∀ ack ∈ n.acks, ∃ copy ∈ new :: n.copies, ack = copy.echo := by
  intro ack hack
  obtain ⟨copy, hcopy, hecho⟩ := h.acks ack hack
  exact ⟨copy, List.mem_cons_of_mem _ hcopy, hecho⟩

/-- A stamp gets the next serial, so it is newer than all before. -/
theorem InFlight.stamp {n : Network α} (h : InFlight n)
    (subflows : Option (List Sibling)) (fewer : n.stamped.length + 1 < 2 ^ 64) :
    InFlight { n with
      sender := (n.sender.stampTelemetry subflows).1
      data := (n.sender.stampTelemetry subflows).2 :: n.data
      stamped := (n.sender.stampTelemetry subflows).2 :: n.stamped
      copies := (n.sender.stampTelemetry subflows).2 :: n.copies } := by
  have hserial : (n.sender.stampTelemetry subflows).2.serial = n.stamped.length + 1 := by
    show (n.sender.nextSerial + 1) % 2 ^ 64 = _
    rw [h.count, Nat.mod_eq_of_lt fewer]
  refine ⟨hserial, fewer, ?_, ?_, ?_, ?_, h.acks_cons _⟩
  · refine List.forall_mem_cons.2 ⟨hserial.le, fun p hp => ?_⟩
    exact (h.serial_le p hp).trans (Nat.le_succ _)
  · refine List.pairwise_cons.2 ⟨List.forall_mem_map.2 fun p hp => ?_, h.serials⟩
    show p.serial < (n.sender.stampTelemetry subflows).2.serial
    rw [hserial]
    exact Nat.lt_succ_of_le (h.serial_le p hp)
  · refine List.forall_mem_cons.2 ⟨⟨_, List.mem_cons_self, .refl _⟩, fun copy hcopy => ?_⟩
    obtain ⟨p, hp, hsame⟩ := h.copies copy hcopy
    exact ⟨p, List.mem_cons_of_mem _ hp, hsame⟩
  · exact List.forall_mem_cons.2
      ⟨List.mem_cons_self, fun tag htag => List.mem_cons_of_mem _ (h.held tag htag)⟩

theorem InFlight.rewrite {n : Network α} (h : InFlight n) {tag tag' : DeltaShuffleTag}
    (inFlight : tag ∈ n.data) (same : SameStamp tag tag') :
    InFlight { n with data := tag' :: n.data.erase tag, copies := tag' :: n.copies } := by
  refine ⟨h.count, h.bound, h.serial_le, h.serials, ?_, ?_, h.acks_cons _⟩
  · obtain ⟨p, hp, hsame⟩ := h.copies tag (h.held tag (List.mem_append_left _ inFlight))
    exact List.forall_mem_cons.2 ⟨⟨p, hp, hsame.trans same⟩, h.copies⟩
  · refine List.forall_mem_cons.2 ⟨List.mem_cons_self, fun t ht => List.mem_cons_of_mem _ ?_⟩
    refine h.held t ?_
    rcases List.mem_append.1 ht with ht | ht
    · exact List.mem_append_left _ (List.mem_of_mem_erase ht)
    · exact List.mem_append_right _ ht

theorem InFlight.step {alpha : Alpha α} {n n' : Network α} (h : InFlight n)
    (hstep : Step alpha n n') : InFlight n' := by
  cases hstep with
  | stamp subflows fewer => exact h.stamp subflows fewer
  | rewrite tag tag' inFlight same => exact h.rewrite inFlight same
  | duplicateData tag inFlight =>
    refine h.mono rfl rfl rfl ?_ fun _ => id
    exact List.forall_mem_cons.2 ⟨List.mem_append_left _ inFlight, fun _ => id⟩
  | dropData tag =>
    refine h.mono rfl rfl rfl ?_ fun _ => id
    intro t ht
    exact List.mem_append.2 ((List.mem_append.1 ht).imp_left List.mem_of_mem_erase)
  | receive tag inFlight =>
    refine h.mono rfl rfl rfl ?_ fun _ => id
    intro t ht
    rcases List.mem_append.1 ht with ht | ht
    · exact List.mem_append_left _ (List.mem_of_mem_erase ht)
    · rcases List.mem_cons.1 ht with rfl | ht
      · exact List.mem_append_left _ inFlight
      · exact List.mem_append_right _ ht
  | echo tag known =>
    refine ⟨h.count, h.bound, h.serial_le, h.serials, h.copies, h.held, ?_⟩
    exact List.forall_mem_cons.2
      ⟨⟨tag, h.held tag (List.mem_append_right _ known), rfl⟩, h.acks⟩
  | duplicateAck ack inFlight =>
    exact h.mono rfl rfl rfl (fun _ => id) (List.forall_mem_cons.2 ⟨inFlight, fun _ => id⟩)
  | dropAck ack => exact h.mono rfl rfl rfl (fun _ => id) fun _ => List.mem_of_mem_erase
  | deliver ack data inFlight =>
    refine h.mono ?_ rfl rfl (fun _ => id) fun _ => List.mem_of_mem_erase
    exact MpOrbDelta.measureInflight_nextSerial alpha n.sender (some ack) data
  | other current data unechoed =>
    refine h.mono ?_ rfl rfl (fun _ => id) fun _ => id
    exact MpOrbDelta.measureInflight_nextSerial alpha n.sender current data
  | compute u updateWc =>
    refine h.mono ?_ rfl rfl (fun _ => id) fun _ => id
    cases updateWc <;> rfl
  | change state parent => exact h.mono rfl rfl rfl (fun _ => id) fun _ => id

/-! ## Credits -/

/-- A credit comes from a copy of a stamped packet, echoed, and adds what the copy is worth. -/
def Earned (n : Network α) (c : Credit) : Prop :=
  ∃ p ∈ n.stamped, ∃ copy ∈ n.copies, SameStamp p copy ∧ c.tag = copy.echo ∧
    c.bytes = if SIMTIME_ZERO < c.srtt then
      rateCorrection copy.packetMass copy.rateAllowance p.connectionRate copy.meanConnectionRate *
        c.srtt
    else 0

/-- The invariant of the sender's ledger. -/
structure Credited (n : Network α) : Prop where
  increasing : (n.credits.map (·.tag.serial)).Pairwise (· > ·)
  last : ∀ c ∈ n.credits, c.tag.serial ≤ n.sender.lastShuffleSerial
  earned : ∀ c ∈ n.credits, n.Earned c
  ledger : n.sender.pendingShuffleBytes + n.consumed = (n.credits.map Credit.bytes).sum

theorem Earned.mono {n n' : Network α} {c : Credit} (h : n.Earned c)
    (hstamped : ∀ p ∈ n.stamped, p ∈ n'.stamped) (hcopies : ∀ copy ∈ n.copies, copy ∈ n'.copies) :
    n'.Earned c := by
  obtain ⟨p, hp, copy, hcopy, hrest⟩ := h
  exact ⟨p, hstamped p hp, copy, hcopies copy hcopy, hrest⟩

theorem Credited.mono {n n' : Network α} (h : Credited n)
    (hlast : n'.sender.lastShuffleSerial = n.sender.lastShuffleSerial)
    (hpending : n'.sender.pendingShuffleBytes = n.sender.pendingShuffleBytes)
    (hcredits : n'.credits = n.credits) (hconsumed : n'.consumed = n.consumed)
    (hstamped : ∀ p ∈ n.stamped, p ∈ n'.stamped) (hcopies : ∀ copy ∈ n.copies, copy ∈ n'.copies) :
    Credited n' := by
  refine ⟨?_, ?_, ?_, ?_⟩
  · rw [hcredits]; exact h.increasing
  · rw [hcredits, hlast]; exact h.last
  · rw [hcredits]
    intro c hc
    exact (h.earned c hc).mono hstamped hcopies
  · rw [hpending, hconsumed, hcredits]; exact h.ledger

theorem Credited.rejected {n : Network α} (h : Credited n) (alpha : Alpha α)
    {current : Option DeltaShuffleTag} {data : IntDataVec}
    (hrej : ∀ tag ∈ current, ¬ n.sender.accepts tag data = true) :
    Credited (n.deliver alpha current data) := by
  cases current with
  | none => exact h.mono rfl rfl rfl rfl (fun _ => id) fun _ => id
  | some tag =>
    have hrej := hrej tag rfl
    have hsender : n.sender.creditShuffle (some tag) data = n.sender :=
      MpOrbDelta.creditShuffle_rejected hrej
    refine h.mono ?_ ?_ (if_neg hrej) rfl (fun _ => id) fun _ => id
    · show (n.sender.creditShuffle (some tag) data).lastShuffleSerial = _
      rw [hsender]
    · show (n.sender.creditShuffle (some tag) data).pendingShuffleBytes = _
      rw [hsender]

/-- **An accepted echo is newer than every credit, and earns its bytes.** -/
theorem Credited.accepted {n : Network α} (h : Credited n) (hflight : InFlight n)
    (alpha : Alpha α) {ack : DeltaShuffleTag} {data : IntDataVec} (hack : ack ∈ n.acks)
    (hacc : n.sender.accepts ack data = true) : Credited (n.deliver alpha (some ack) data) := by
  have hsender := MpOrbDelta.creditShuffle_accepted hacc
  have hcredits : (n.deliver alpha (some ack) data).credits =
      ⟨ack, n.sender.state.srtt, n.sender.credit ack⟩ :: n.credits := by
    show (if _ then _ else _) = _
    rw [if_pos hacc]
    have hbytes : (n.sender.measureInflight alpha (some ack) data).2.pendingShuffleBytes -
        n.sender.pendingShuffleBytes = n.sender.credit ack := by
      show (n.sender.creditShuffle (some ack) data).pendingShuffleBytes - _ = _
      rw [hsender]
      exact add_sub_cancel_left _ _
    rw [hbytes]
  have hlast : (n.deliver alpha (some ack) data).sender.lastShuffleSerial = ack.serial :=
    congrArg MpOrbDelta.lastShuffleSerial hsender
  have hpending : (n.deliver alpha (some ack) data).sender.pendingShuffleBytes =
      n.sender.pendingShuffleBytes + n.sender.credit ack :=
    congrArg MpOrbDelta.pendingShuffleBytes hsender
  obtain ⟨-, -, -, -, -, -, hnewer⟩ := MpOrbDelta.accepts_iff.1 hacc
  refine ⟨?_, ?_, ?_, ?_⟩
  · rw [hcredits]
    refine List.pairwise_cons.2 ⟨List.forall_mem_map.2 fun c hc => ?_, h.increasing⟩
    exact (h.last c hc).trans_lt hnewer
  · rw [hcredits, hlast]
    exact List.forall_mem_cons.2 ⟨le_rfl, fun c hc => (h.last c hc).trans hnewer.le⟩
  · rw [hcredits]
    refine List.forall_mem_cons.2 ⟨?_, fun c hc => h.earned c hc⟩
    obtain ⟨copy, hcopy, rfl⟩ := hflight.acks ack hack
    obtain ⟨p, hp, hsame⟩ := hflight.copies copy hcopy
    refine ⟨p, hp, copy, hcopy, hsame, rfl, ?_⟩
    rw [← hsame.connectionRate]
    rfl
  · have hledger := h.ledger
    rw [hcredits, hpending, List.map_cons, List.sum_cons]
    show _ + n.consumed = n.sender.credit ack + _
    linarith

theorem Credited.step {alpha : Alpha α} {n n' : Network α} (h : Credited n) (hflight : InFlight n)
    (hstep : Step alpha n n') : Credited n' := by
  cases hstep with
  | stamp subflows fewer =>
    exact h.mono rfl rfl rfl rfl (fun _ => List.mem_cons_of_mem _) fun _ => List.mem_cons_of_mem _
  | rewrite tag tag' inFlight same =>
    exact h.mono rfl rfl rfl rfl (fun _ => id) fun _ => List.mem_cons_of_mem _
  | deliver ack data inFlight =>
    -- taking the ACK out of flight concerns no credit
    by_cases hacc : n.sender.accepts ack data = true
    · exact (h.accepted hflight alpha inFlight hacc).mono rfl rfl rfl rfl (fun _ => id) fun _ => id
    · have hrejected : ∀ tag ∈ some ack, ¬ n.sender.accepts tag data = true := by
        intro tag htag
        cases htag
        exact hacc
      exact (h.rejected alpha hrejected).mono rfl rfl rfl rfl (fun _ => id) fun _ => id
  | other current data unechoed =>
    apply h.rejected alpha
    intro tag htag hacc
    obtain ⟨-, -, -, hecho, -⟩ := MpOrbDelta.accepts_iff.1 hacc
    rw [unechoed tag htag] at hecho
    cases hecho
  | compute u updateWc =>
    have hledger := h.ledger
    refine ⟨h.increasing, ?_, h.earned, ?_⟩
    · cases updateWc <;> exact h.last
    · cases updateWc with
      | false =>
        show n.sender.pendingShuffleBytes + (n.consumed + 0) = _
        rw [add_zero]
        exact hledger
      | true =>
        have hsplit := Truncation.truncate_add_remainder n.sender.pendingShuffleBytes
        show Truncation.remainder n.sender.pendingShuffleBytes + (n.consumed +
          (Truncation.truncate n.sender.pendingShuffleBytes : ℚ)) = (n.credits.map Credit.bytes).sum
        linarith
  | _ => exact h.mono rfl rfl rfl rfl (fun _ => id) fun _ => id

/-- **Feedback is credited at most once.**  From a sender that has stamped and taken nothing, in
every state any order of steps reaches: serials are stamped once, the credited ones increase, every
credit is earned by a stamped packet, and pending bytes are credits not yet consumed. -/
theorem credited_at_most_once (alpha : Alpha α) (state : OrbState) (parent : α) {n : Network α}
    (hrun : Relation.ReflTransGen (Step alpha) { sender := { state, parent } } n) :
    (n.stamped.map (·.serial)).Nodup ∧ (n.credits.map (·.tag.serial)).Pairwise (· > ·) ∧
      (∀ c ∈ n.credits, n.Earned c) ∧
      n.sender.pendingShuffleBytes + n.consumed = (n.credits.map Credit.bytes).sum := by
  have hinv : InFlight n ∧ Credited n := by
    induction hrun with
    | refl =>
      refine ⟨⟨rfl, Nat.two_pow_pos 64, ?_, List.Pairwise.nil, ?_, ?_, ?_⟩,
        ⟨List.Pairwise.nil, ?_, ?_, add_zero 0⟩⟩
      all_goals exact fun _ h => absurd h List.not_mem_nil
    | tail _ hstep ih => exact ⟨ih.1.step hstep, ih.2.step ih.1 hstep⟩
  exact ⟨hinv.1.serials.imp fun h => h.ne', hinv.2.increasing, hinv.2.earned, hinv.2.ledger⟩

/-- A packet is stamped, gets feedback from the queue at node 7, arrives and is echoed twice; both
ACKs arrive. -/
theorem credited_once_for_two_acks :
    ∃ n : Network Unit, n.credits.length = 1 ∧ n.acks = [] ∧ ∀ c ∈ n.credits, n.Earned c := by
  let sent := (freshSender.stampTelemetry none).2
  let fed := nodeTag 7 90000 sent
  let data : IntDataVec := [(nodeHop 7 90000).record]
  have hsent : DataTag sent := ⟨rfl, by decide +kernel, by decide +kernel⟩
  have hcarry : (nodeHop 7 90000).carry 1448 { tag := sent } =
      .ok ⟨some (nodeHop 7 90000).record, fed⟩ := carry_nodeHop 7 90000 hsent
  obtain ⟨n, hrun, hcredits, hacks⟩ : ∃ n, Relation.ReflTransGen (Step steadyAlpha)
      { sender := { state := freshSender.state, parent := () } } n ∧
      n.credits.length = 1 ∧ n.acks = [] := by
    refine ⟨_, ((((((Relation.ReflTransGen.refl.tail (.stamp none (by decide))).tail
      (step_of_carry steadyAlpha (by decide) hsent List.mem_cons_self hcarry)).tail
      (.receive fed List.mem_cons_self)).tail (.echo fed List.mem_cons_self)).tail
      (.duplicateAck fed.echo List.mem_cons_self)).tail
      (.deliver fed.echo data List.mem_cons_self)).tail
      (.deliver fed.echo data (by decide +kernel)), ?_, ?_⟩
    · decide +kernel
    · decide +kernel
  exact ⟨n, hcredits, hacks,
    (credited_at_most_once steadyAlpha freshSender.state () hrun).2.2.1⟩

end Network

end MpOrb
