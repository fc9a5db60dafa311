import MpOrb.PacketProjection
import Mathlib.Algebra.BigOperators.Group.Finset.Basic
import Mathlib.Data.Fintype.Basic
import Mathlib.Data.Multiset.Count
import Mathlib.Tactic.Abel

/-!
# Packet conservation in the packet projection

* `Traffic.arriving`, `queued`, `returning` — the packets in flight; `sent` — all packets so far.
* `Balanced` — the books of the traffic; `Working` — no idle link has a queue.
* `launch`, `enqueue`, `serve`, `settle` — what an event does to the traffic, with one lemma each
  that keeps the books.
* `send_cases`, `startService_cases`, `acknowledge_cases` — the code does nothing else.
* `packet_conservation` — at the head of every iteration.
-/

set_option autoImplicit false

namespace MpOrb.FluidModel

open PyFloat

variable {R : Type} {n m : ℕ}

/-! ## The books -/

/-- The packet on its way to a link. -/
def EventKind.arriving : EventKind R n m → Option (Packet R n)
  | .arrival _ packet => some packet
  | _ => none

/-- The packet whose ACK is on its way back. -/
def EventKind.returning : EventKind R n m → Option (Packet R n)
  | .ack packet _ _ _ => some packet
  | _ => none

def EventKind.isFinish (j : Fin m) : EventKind R n m → Bool
  | .finish k => k = j
  | _ => false

def EventKind.isPace (i : Fin n) : EventKind R n m → Bool
  | .pace k => k = i
  | _ => false

/-- The packets of one subflow. -/
def ofSubflow (i : Fin n) (packets : Multiset (Packet R n)) : ℕ :=
  packets.countP fun packet => packet.subflow = i

/-- An array holds the bytes of these packets by subflow. -/
def Counts (bytes : Fin n → ℤ) (packets : Multiset (Packet R n)) : Prop :=
  ∀ i, bytes i = MSS * ofSubflow i packets

/-- A flag is up exactly while its event is pending, and then once. -/
def Flagged {ι : Type} (pending : ι → ℕ) (flag : ι → Bool) : Prop :=
  ∀ i, pending i = if flag i then 1 else 0

theorem ofSubflow_add (i : Fin n) (packets packets' : Multiset (Packet R n)) :
    ofSubflow i (packets + packets') = ofSubflow i packets + ofSubflow i packets' :=
  Multiset.countP_add _ _ _

theorem ofSubflow_cons (i : Fin n) (packet : Packet R n) (packets : Multiset (Packet R n)) :
    ofSubflow i (packet ::ₘ packets) =
      ofSubflow i packets + if packet.subflow = i then 1 else 0 :=
  Multiset.countP_cons _ _ _

theorem Counts.credit {bytes : Fin n → ℤ} {packets : Multiset (Packet R n)}
    (h : Counts bytes packets) (packet : Packet R n) :
    Counts (Function.update bytes packet.subflow (bytes packet.subflow + MSS))
      (packet ::ₘ packets) := by
  intro i
  rw [ofSubflow_cons, Function.update_apply]
  by_cases hi : i = packet.subflow
  · subst hi
    rw [if_pos rfl, h, if_pos rfl]
    push_cast
    ring
  · rw [if_neg hi, h, if_neg (Ne.symm hi), add_zero]

theorem Counts.debit {bytes : Fin n → ℤ} {packets : Multiset (Packet R n)} {packet : Packet R n}
    (h : Counts bytes (packet ::ₘ packets)) :
    Counts (Function.update bytes packet.subflow (bytes packet.subflow - MSS)) packets := by
  intro i
  rw [Function.update_apply]
  by_cases hi : i = packet.subflow
  · subst hi
    rw [if_pos rfl, h, ofSubflow_cons, if_pos rfl]
    push_cast
    ring
  · rw [if_neg hi, h, ofSubflow_cons, if_neg (Ne.symm hi), add_zero]

section Flags

variable {ι : Type} [DecidableEq ι] {pending pending' : ι → ℕ} {flag : ι → Bool} {i : ι}

theorem Flagged.raise (h : Flagged pending flag) (hflag : flag i = false)
    (hone : ∀ k, pending' k = pending k + if i = k then 1 else 0) :
    Flagged pending' (Function.update flag i true) := by
  intro k
  rw [hone, h k, Function.update_apply]
  by_cases hk : i = k
  · subst hk
    simp [hflag]
  · simp [hk, Ne.symm hk]

theorem Flagged.lower (h : Flagged pending' flag)
    (hone : ∀ k, pending' k = pending k + if i = k then 1 else 0) :
    Flagged pending (Function.update flag i false) := by
  intro k
  have hk := h k
  rw [hone] at hk
  rw [Function.update_apply]
  by_cases hik : i = k
  · subst hik
    rw [if_pos rfl] at hk
    split at hk <;> simp <;> omega
  · simpa [hik, Ne.symm hik] using hk

end Flags

namespace Traffic

/-- The packets in a pending `'arrival'` event. -/
def arriving (tr : Traffic R n m) : Multiset (Packet R n) :=
  tr.events.filterMap fun e => e.kind.arriving

/-- The packets in a pending `'ack'` event. -/
def returning (tr : Traffic R n m) : Multiset (Packet R n) :=
  tr.events.filterMap fun e => e.kind.returning

/-- The packets in the link queues. -/
def queued (tr : Traffic R n m) : Multiset (Packet R n) :=
  ∑ j, ((tr.queues j).map Prod.fst : List (Packet R n))

def inFlight (tr : Traffic R n m) : Multiset (Packet R n) :=
  tr.arriving + tr.queued + tr.returning

def sent (tr : Traffic R n m) : Multiset (Packet R n) :=
  tr.history.sends.map SendRecord.packet

def acknowledged (tr : Traffic R n m) : Multiset (Packet R n) := tr.history.acked

/-- The pending `'finish'` events of a link. -/
def finishes (tr : Traffic R n m) (j : Fin m) : ℕ := tr.events.countP fun e => e.kind.isFinish j

/-- The pending `'pace'` events of a subflow. -/
def paces (tr : Traffic R n m) (i : Fin n) : ℕ := tr.events.countP fun e => e.kind.isPace i

/-- The books balance. -/
structure Balanced (tr : Traffic R n m) : Prop where
  flight : Counts tr.F tr.inFlight
  delivered : Counts tr.delivered tr.acknowledged
  ledger : tr.sent = tr.inFlight + tr.acknowledged
  serials : tr.history.sends.map (·.packet.serial) =
    (List.range tr.history.sends.length).reverse
  finish : Flagged tr.finishes tr.busy
  pace : Flagged tr.paces tr.pace
  fifo : ∀ j, tr.history.arrived j = tr.history.served j ++ (tr.queues j).map Prod.fst
  window : ∀ r ∈ tr.history.sends, r.F ≤ r.W

/-- No link is idle while packets wait. -/
def Working (tr : Traffic R n m) : Prop := ∀ j, tr.queues j ≠ [] → tr.busy j = true

/-! ## Pending events -/

def push (tr : Traffic R n m) (t : R) (kind : EventKind R n m) : Traffic R n m :=
  { tr with
    events := ⟨t, tr.counter, kind⟩ :: tr.events
    counter := tr.counter + 1 }

/-- The traffic with `e` still pending. -/
def owing (tr : Traffic R n m) (e : Event R n m) : Traffic R n m :=
  { tr with events := e :: tr.events }

variable {tr : Traffic R n m}

theorem Balanced.perm {events : List (Event R n m)} (h : tr.Balanced)
    (hperm : events.Perm tr.events) : ({ tr with events } : Traffic R n m).Balanced := by
  have harriving : ({ tr with events } : Traffic R n m).arriving = tr.arriving :=
    Multiset.coe_eq_coe.2 (hperm.filterMap _)
  have hreturning : ({ tr with events } : Traffic R n m).returning = tr.returning :=
    Multiset.coe_eq_coe.2 (hperm.filterMap _)
  have hflight : ({ tr with events } : Traffic R n m).inFlight = tr.inFlight := by
    rw [inFlight, harriving, hreturning]
    rfl
  exact
    { h with
      flight := by rw [hflight]; exact h.flight
      ledger := by rw [hflight]; exact h.ledger
      finish := fun j => (hperm.countP_eq _).trans (h.finish j)
      pace := fun i => (hperm.countP_eq _).trans (h.pace i) }

/-- Events that carry no packet and free nothing leave the books alone. -/
theorem Balanced.push_neutral (h : tr.Balanced) (t : R) {kind : EventKind R n m}
    (hkind : kind = .record ∨ (∃ j, kind = .measurement j) ∨ ∃ i, kind = .react i) :
    (tr.push t kind).Balanced := by
  rcases hkind with rfl | ⟨j, rfl⟩ | ⟨i, rfl⟩ <;> exact { h with }

/-- A neutral event leaves the books when it is due. -/
theorem Balanced.drop_neutral {t : R} {counter : ℕ} {kind : EventKind R n m}
    (h : (tr.owing ⟨t, counter, kind⟩).Balanced)
    (hkind : kind = .record ∨ (∃ j, kind = .measurement j) ∨ ∃ i, kind = .react i) :
    tr.Balanced := by
  rcases hkind with rfl | ⟨j, rfl⟩ | ⟨i, rfl⟩ <;> exact { h with }

/-! ## What events do to the traffic -/

/-- `send` past its guard. -/
def launch (tr : Traffic R n m) (j : Fin m) (packet : Packet R n) (t₁ t₂ : R) (W : ℤ) :
    Traffic R n m :=
  let i := packet.subflow
  let tr := { tr with F := Function.update tr.F i (tr.F i + MSS) }.push t₁ (.arrival j packet)
  { tr with
    pace := Function.update tr.pace i true
    history := { tr.history with
      sends := ⟨packet, tr.F i, W⟩ :: tr.history.sends } }.push t₂ (.pace i)

/-- A packet joins the queue of its link. -/
def enqueue (tr : Traffic R n m) (j : Fin m) (packet : Packet R n) (t : R) : Traffic R n m :=
  { tr with
    queues := Function.update tr.queues j (tr.queues j ++ [(packet, t)])
    history := { tr.history with
      arrived := Function.update tr.history.arrived j (tr.history.arrived j ++ [packet]) } }

/-- `startService` takes a packet from the front of a queue. -/
def serve (tr : Traffic R n m) (j : Fin m) (packet : Packet R n) (queue : List (Packet R n × R))
    (t₁ t₂ u qdelay : R) (count : ℤ) : Traffic R n m :=
  let tr := { tr with
    busy := Function.update tr.busy j true
    queues := Function.update tr.queues j queue
    history := { tr.history with
      served := Function.update tr.history.served j (tr.history.served j ++ [packet]) } }
  (tr.push t₁ (.finish j)).push t₂ (.ack packet u count qdelay)

/-- An acknowledgment takes its packet out of flight. -/
def settle (tr : Traffic R n m) (packet : Packet R n) : Traffic R n m :=
  { tr with
    F := Function.update tr.F packet.subflow (tr.F packet.subflow - MSS)
    delivered := Function.update tr.delivered packet.subflow (tr.delivered packet.subflow + MSS)
    history := { tr.history with acked := packet :: tr.history.acked } }

theorem sum_update_add {ι β M : Type} [Fintype ι] [DecidableEq ι] [AddCommMonoid M] (g : β → M)
    (f : ι → β) (j : ι) (b : β) :
    ∑ k, g (Function.update f j b k) + g (f j) = ∑ k, g (f k) + g b := by
  have hothers : ∑ k ∈ Finset.univ.erase j, g (Function.update f j b k) =
      ∑ k ∈ Finset.univ.erase j, g (f k) :=
    Finset.sum_congr rfl fun k hk => by rw [Function.update_of_ne (Finset.ne_of_mem_erase hk)]
  rw [← Finset.add_sum_erase _ _ (Finset.mem_univ j), hothers, Function.update_self,
    ← Finset.add_sum_erase _ (fun k => g (f k)) (Finset.mem_univ j)]
  abel

theorem queued_update (tr : Traffic R n m) (j : Fin m) (queue : List (Packet R n × R)) :
    ({ tr with queues := Function.update tr.queues j queue } : Traffic R n m).queued +
        ((tr.queues j).map Prod.fst : List (Packet R n)) =
      tr.queued + (queue.map Prod.fst : List (Packet R n)) :=
  sum_update_add (fun queue : List (Packet R n × R) =>
    ((queue.map Prod.fst : List (Packet R n)) : Multiset (Packet R n))) tr.queues j queue

theorem queued_enqueue (tr : Traffic R n m) (j : Fin m) (packet : Packet R n) (t : R) :
    (tr.enqueue j packet t).queued = packet ::ₘ tr.queued := by
  have h := tr.queued_update j (tr.queues j ++ [(packet, t)])
  rw [List.map_append, ← Multiset.coe_add, ← add_assoc] at h
  refine add_right_cancel (h.trans ?_)
  show _ + {packet} = _
  rw [Multiset.add_comm _ {packet}, Multiset.singleton_add, Multiset.cons_add]

theorem queued_serve (tr : Traffic R n m) (j : Fin m) {packet : Packet R n} {arrived : R}
    {queue : List (Packet R n × R)} (hqueue : tr.queues j = (packet, arrived) :: queue) :
    tr.queued = packet ::ₘ
      ({ tr with queues := Function.update tr.queues j queue } : Traffic R n m).queued := by
  have h := tr.queued_update j queue
  rw [hqueue, List.map_cons, ← Multiset.cons_coe, Multiset.add_cons, ← Multiset.cons_add] at h
  exact (add_right_cancel h).symm

theorem finishes_push (tr : Traffic R n m) (t : R) (kind : EventKind R n m) (j : Fin m) :
    (tr.push t kind).finishes j = tr.finishes j + if kind.isFinish j then 1 else 0 :=
  List.countP_cons

theorem paces_push (tr : Traffic R n m) (t : R) (kind : EventKind R n m) (i : Fin n) :
    (tr.push t kind).paces i = tr.paces i + if kind.isPace i then 1 else 0 :=
  List.countP_cons

/-- A send puts its packet in flight and its subflow on pace. -/
theorem Balanced.launch (h : tr.Balanced) {packet : Packet R n} (j : Fin m)
    (hserial : packet.serial = tr.history.sends.length)
    (hpace : tr.pace packet.subflow = false) {W : ℤ} (hW : tr.F packet.subflow + MSS ≤ W)
    (t₁ t₂ : R) : (tr.launch j packet t₁ t₂ W).Balanced := by
  have hflight : (tr.launch j packet t₁ t₂ W).inFlight = packet ::ₘ tr.inFlight := by
    show (packet ::ₘ tr.arriving) + tr.queued + tr.returning = _
    rw [Multiset.cons_add, Multiset.cons_add]
    rfl
  exact
    { h with
      flight := by
        rw [hflight]
        exact h.flight.credit packet
      ledger := by
        rw [hflight]
        show packet ::ₘ tr.sent = _
        rw [h.ledger, Multiset.cons_add]
        rfl
      serials := by
        show packet.serial :: tr.history.sends.map (·.packet.serial) =
          (List.range (tr.history.sends.length + 1)).reverse
        rw [h.serials, hserial, List.range_succ, List.reverse_append]
        rfl
      pace := h.pace.raise hpace fun k => by
        unfold Traffic.launch
        rw [paces_push]
        simp only [EventKind.isPace, decide_eq_true_eq]
        rfl
      window := List.forall_mem_cons.2 ⟨by simpa [push] using hW, h.window⟩ }

/-- An arrival moves its packet from the event to the queue. -/
theorem Balanced.enqueue {t : R} {counter : ℕ} {j : Fin m} {packet : Packet R n}
    (h : (tr.owing ⟨t, counter, .arrival j packet⟩).Balanced) :
    (tr.enqueue j packet t).Balanced := by
  have hflight : (tr.enqueue j packet t).inFlight =
      (tr.owing ⟨t, counter, .arrival j packet⟩).inFlight := by
    show tr.arriving + (tr.enqueue j packet t).queued + tr.returning =
      (packet ::ₘ tr.arriving) + tr.queued + tr.returning
    rw [queued_enqueue, Multiset.cons_add, Multiset.add_cons]
  exact
    { h with
      flight := by rw [hflight]; exact h.flight
      ledger := by rw [hflight]; exact h.ledger
      fifo := by
        intro k
        show Function.update tr.history.arrived j (tr.history.arrived j ++ [packet]) k =
          tr.history.served k ++
            (Function.update tr.queues j (tr.queues j ++ [(packet, t)]) k).map Prod.fst
        by_cases hk : k = j
        · subst hk
          have hfifo : tr.history.arrived k =
              tr.history.served k ++ (tr.queues k).map Prod.fst := h.fifo k
          simp [hfifo]
        · rw [Function.update_of_ne hk, Function.update_of_ne hk]
          exact h.fifo k }

/-- A service moves the first packet of the queue to its acknowledgment. -/
theorem Balanced.serve (h : tr.Balanced) {j : Fin m} {packet : Packet R n} {arrived : R}
    {queue : List (Packet R n × R)} (hbusy : tr.busy j = false)
    (hqueue : tr.queues j = (packet, arrived) :: queue) (t₁ t₂ u qdelay : R) (count : ℤ) :
    (tr.serve j packet queue t₁ t₂ u qdelay count).Balanced := by
  have hflight : (tr.serve j packet queue t₁ t₂ u qdelay count).inFlight = tr.inFlight := by
    show tr.arriving +
        ({ tr with queues := Function.update tr.queues j queue } : Traffic R n m).queued +
        (packet ::ₘ tr.returning) = tr.arriving + tr.queued + tr.returning
    rw [tr.queued_serve j hqueue, Multiset.add_cons, Multiset.add_cons, Multiset.cons_add]
  exact
    { h with
      flight := by rw [hflight]; exact h.flight
      ledger := by rw [hflight]; exact h.ledger
      finish := h.finish.raise hbusy fun k => by
        unfold Traffic.serve
        rw [finishes_push, finishes_push]
        simp only [EventKind.isFinish, decide_eq_true_eq]
        rfl
      fifo := by
        intro k
        show tr.history.arrived k =
          Function.update tr.history.served j (tr.history.served j ++ [packet]) k ++
            (Function.update tr.queues j queue k).map Prod.fst
        by_cases hk : k = j
        · subst hk
          simp [h.fifo k, hqueue]
        · rw [Function.update_of_ne hk, Function.update_of_ne hk, h.fifo k] }

theorem Balanced.release {t : R} {counter : ℕ} {j : Fin m}
    (h : (tr.owing ⟨t, counter, .finish j⟩).Balanced) :
    ({ tr with busy := Function.update tr.busy j false } : Traffic R n m).Balanced :=
  { h with
    finish := h.finish.lower fun k => by
      rw [finishes, owing, List.countP_cons]
      simp only [EventKind.isFinish, decide_eq_true_eq]
      rfl }

theorem Balanced.unpace {t : R} {counter : ℕ} {i : Fin n}
    (h : (tr.owing ⟨t, counter, .pace i⟩).Balanced) :
    ({ tr with pace := Function.update tr.pace i false } : Traffic R n m).Balanced :=
  { h with
    pace := h.pace.lower fun k => by
      rw [paces, owing, List.countP_cons]
      simp only [EventKind.isPace, decide_eq_true_eq]
      rfl }

/-- An acknowledgment moves its packet from the event to the acknowledged ones. -/
theorem Balanced.settle {t u qdelay : R} {counter : ℕ} {count : ℤ} {packet : Packet R n}
    (h : (tr.owing ⟨t, counter, .ack packet u count qdelay⟩).Balanced) :
    (tr.settle packet).Balanced := by
  have hflight : (tr.owing ⟨t, counter, .ack packet u count qdelay⟩).inFlight =
      packet ::ₘ tr.inFlight := by
    show tr.arriving + tr.queued + (packet ::ₘ tr.returning) = _
    rw [Multiset.add_cons]
    rfl
  exact
    { h with
      flight := by
        have hbefore := h.flight
        rw [hflight] at hbefore
        exact hbefore.debit
      delivered := h.delivered.credit packet
      ledger := by
        show tr.sent = tr.inFlight + packet ::ₘ tr.acknowledged
        rw [Multiset.add_cons, ← Multiset.cons_add, ← hflight]
        exact h.ledger }

end Traffic

/-- The measurement timers at the start leave the books alone. -/
theorem measurements_inv {st : State R n m} (links : List (Fin m))
    (hinv : st.Balanced ∧ st.Working) :
    (links.foldl (fun st j => st.event (st.H j) (.measurement j)) st).Balanced ∧
      (links.foldl (fun st j => st.event (st.H j) (.measurement j)) st).Working := by
  induction links generalizing st with
  | nil => exact hinv
  | cons j rest ih => exact ih ⟨hinv.1.push_neutral _ (Or.inr (Or.inl ⟨j, rfl⟩)), hinv.2⟩

/-! ## What the code does -/

namespace Projection

variable [PyFloat R] {p : Projection R n m} {t : R} {st st' : State R n m}

/-- **A send does nothing or launches one packet.** -/
theorem send_cases {i : Fin n} (h : p.send t i st = some st') :
    st' = st ∨ ∃ packet t₁ t₂, packet.subflow = i ∧
      packet.serial = st.history.sends.length ∧ st.pace i = false ∧ st.F i + MSS ≤ st.W i ∧
      st'.toTraffic = st.toTraffic.launch (p.case.pathLink i) packet t₁ t₂ (st.W i) := by
  unfold send at h
  split at h
  · cases h
    exact Or.inl rfl
  · rename_i hguard
    obtain ⟨code, -, h⟩ := Option.bind_eq_some_iff.1 h
    cases h
    have hfree : st.pace i = false ∧ st.F i + MSS ≤ st.W i := by simpa using hguard
    exact Or.inr ⟨⟨i, t, ofInt code * lit (1 / 1000000), encodeCwndRoundtrip (st.W i),
      st.history.sends.length⟩, t + p.case.propagation i / lit 2, t + st.interval i, rfl, rfl,
      hfree.1, hfree.2, rfl⟩

theorem measureUtilization_toTraffic (j : Fin m) (waiting : ℕ) :
    (p.measureUtilization t j waiting st).toTraffic = st.toTraffic := by
  unfold measureUtilization
  cases st.last j with
  | none => rfl
  | some last =>
    simp only
    split <;> rfl

/-- **A service does nothing or takes the first packet of an idle link.** -/
theorem startService_cases {j : Fin m} (h : p.startService t j st = some st') :
    (st' = st ∧ (st.busy j = true ∨ st.queues j = [])) ∨
      ∃ packet arrived queue t₁ t₂ u qdelay count, st.busy j = false ∧
        st.queues j = (packet, arrived) :: queue ∧
        st'.toTraffic = st.toTraffic.serve j packet queue t₁ t₂ u qdelay count := by
  unfold startService at h
  split at h
  · rename_i hbusy
    cases h
    exact Or.inl ⟨rfl, Or.inl hbusy⟩
  · rename_i hbusy
    split at h
    · rename_i hqueue
      cases h
      exact Or.inl ⟨rfl, Or.inr hqueue⟩
    · rename_i packet arrived queue hqueue
      obtain ⟨st₁, hst₁⟩ : ∃ st₁, st₁ = p.measureUtilization t j queue.length
        (takeFirst j packet queue st) := ⟨_, rfl⟩
      simp only [← hst₁] at h
      obtain ⟨⟨feedback, draws⟩, -, h⟩ := Option.bind_eq_some_iff.1 h
      obtain ⟨code, -, h⟩ := Option.bind_eq_some_iff.1 h
      cases h
      have htraffic : st₁.toTraffic = (takeFirst j packet queue st).toTraffic := by
        rw [hst₁, measureUtilization_toTraffic]
      refine Or.inr ⟨packet, arrived, queue,
        t + ofInt p.case.chargedPacketBytes / p.case.capacity j,
        t + ofInt p.case.chargedPacketBytes / p.case.capacity j +
          p.case.propagation packet.subflow / lit 2,
        feedback, ofInt (min 4095 code) * lit (64 / 1000000), st₁.N j, by simpa using hbusy,
        hqueue, ?_⟩
      show (st₁.toTraffic.push _ _).push _ _ = _
      rw [htraffic]
      rfl

theorem updateRtt_toTraffic {i : Fin n} {sent qdelay : R}
    (h : updateRtt t i sent qdelay st = some st') : st'.toTraffic = st.toTraffic := by
  unfold updateRtt at h
  obtain ⟨received, -, h⟩ := Option.bind_eq_some_iff.1 h
  obtain ⟨sentMs, -, h⟩ := Option.bind_eq_some_iff.1 h
  cases h
  rfl

theorem updateWindow_toTraffic {i : Fin n} {u : R} {count : ℤ}
    (h : p.updateWindow i u count st = some st') : st'.toTraffic = st.toTraffic := by
  unfold updateWindow at h
  split at h
  · obtain ⟨⟨a, residual⟩, -, h⟩ := Option.bind_eq_some_iff.1 h
    obtain ⟨target, -, h⟩ := Option.bind_eq_some_iff.1 h
    simp only at h
    split at h <;> cases h <;> rfl
  · cases h
    rfl

theorem measure_toTraffic (t : R) (j : Fin m) (st : State R n m) :
    ∃ due, (measure t j st).toTraffic = st.toTraffic.push due (.measurement j) := by
  unfold measure
  simp only
  split <;> exact ⟨_, rfl⟩

/-- **An acknowledgment settles its packet, may send, and may start the reaction timer.** -/
theorem acknowledge_cases {packet : Packet R n} {u qdelay : R} {count : ℤ}
    (h : p.acknowledge t packet u count qdelay st = some st') :
    ∃ st₁ st₂, st₁.toTraffic = st.toTraffic.settle packet ∧
      p.send t packet.subflow st₁ = some st₂ ∧
      (st'.toTraffic = st₂.toTraffic ∨
        ∃ due, st'.toTraffic = st₂.toTraffic.push due (.react packet.subflow)) := by
  unfold acknowledge at h
  obtain ⟨settled, hsettled, h⟩ := Option.bind_eq_some_iff.1 h
  obtain ⟨windowed, hwindowed, h⟩ := Option.bind_eq_some_iff.1 h
  obtain ⟨sent, hsent, h⟩ := Option.bind_eq_some_iff.1 h
  refine ⟨_, sent, ?_, hsent, ?_⟩
  · exact (updateWindow_toTraffic hwindowed).trans (updateRtt_toTraffic hsettled)
  split at h <;> cases h
  · exact Or.inl rfl
  · exact Or.inr ⟨_, rfl⟩

/-! ## One iteration -/

theorem send_inv {i : Fin n} (h : p.send t i st = some st') (hbal : st.Balanced)
    (hwork : st.Working) : st'.Balanced ∧ st'.Working := by
  rcases send_cases h with rfl | ⟨packet, t₁, t₂, rfl, hserial, hpace, hW, htraffic⟩
  · exact ⟨hbal, hwork⟩
  · rw [htraffic]
    exact ⟨hbal.launch _ hserial hpace hW t₁ t₂, hwork⟩

/-- A service also repairs the one link that may be idle with a queue. -/
theorem startService_inv {j : Fin m} (hbal : st.Balanced)
    (hothers : ∀ k, k ≠ j → st.queues k ≠ [] → st.busy k = true)
    (h : p.startService t j st = some st') : st'.Balanced ∧ st'.Working := by
  rcases startService_cases h with ⟨rfl, hidle⟩ |
    ⟨packet, arrived, queue, t₁, t₂, u, qdelay, count, hbusy, hqueue, htraffic⟩
  · refine ⟨hbal, fun k hk => ?_⟩
    by_cases hkj : k = j
    · subst hkj
      exact hidle.resolve_right hk
    · exact hothers k hkj hk
  · rw [htraffic]
    refine ⟨hbal.serve hbusy hqueue t₁ t₂ u qdelay count, fun k hk => ?_⟩
    change Function.update st.queues j queue k ≠ [] at hk
    show Function.update st.busy j true k = true
    by_cases hkj : k = j
    · subst hkj
      exact Function.update_self ..
    · rw [Function.update_of_ne hkj] at hk ⊢
      exact hothers k hkj hk

/-- **One event keeps the books, whichever event is due.** -/
theorem handle_inv {counter : ℕ} {kind : EventKind R n m}
    (hbal : (st.toTraffic.owing ⟨t, counter, kind⟩).Balanced) (hwork : st.Working)
    (h : p.handle t kind st = some st') : st'.Balanced ∧ st'.Working := by
  cases kind with
  | arrival j packet =>
    refine startService_inv hbal.enqueue (fun k hk hqueue => ?_) h
    change Function.update st.queues j _ k ≠ [] at hqueue
    rw [Function.update_of_ne hk] at hqueue
    exact hwork k hqueue
  | finish j =>
    refine startService_inv hbal.release (fun k hk hqueue => ?_) h
    show Function.update st.busy j false k = true
    rw [Function.update_of_ne hk]
    exact hwork k hqueue
  | pace i =>
    have hsend : p.send t i { st with pace := Function.update st.pace i false } = some st' := h
    exact send_inv hsend hbal.unpace hwork
  | measurement j =>
    cases h
    obtain ⟨due, htraffic⟩ := measure_toTraffic t j st
    have hbal' : st.Balanced := hbal.drop_neutral (Or.inr (Or.inl ⟨j, rfl⟩))
    rw [htraffic]
    exact ⟨hbal'.push_neutral due (Or.inr (Or.inl ⟨j, rfl⟩)), hwork⟩
  | react i =>
    cases h
    have hbal' : st.Balanced := hbal.drop_neutral (Or.inr (Or.inr ⟨i, rfl⟩))
    exact ⟨hbal'.push_neutral _ (Or.inr (Or.inr ⟨i, rfl⟩)), hwork⟩
  | ack packet u count qdelay =>
    obtain ⟨st₁, st₂, hsettled, hsend, hrest⟩ := acknowledge_cases h
    have hbal₁ : st₁.Balanced := hsettled ▸ hbal.settle
    have hwork₁ : st₁.Working := hsettled ▸ hwork
    obtain ⟨hbal₂, hwork₂⟩ := send_inv hsend hbal₁ hwork₁
    rcases hrest with hsame | ⟨due, hreact⟩
    · rw [hsame]
      exact ⟨hbal₂, hwork₂⟩
    · rw [hreact]
      exact ⟨hbal₂.push_neutral due (Or.inr (Or.inr ⟨_, rfl⟩)), hwork₂⟩
  | record =>
    cases h
    have hbal' : st.Balanced := hbal.drop_neutral (Or.inl rfl)
    exact ⟨hbal'.push_neutral _ (Or.inl rfl), hwork⟩

/-! ## Every iteration -/

theorem initial_inv (p : Projection R n m) : p.initial.Balanced ∧ p.initial.Working := by
  have hempty : p.initial.inFlight = 0 := by
    show 0 + ∑ _, ((([] : List (Packet R n × R)).map Prod.fst : List (Packet R n)) :
      Multiset (Packet R n)) + 0 = 0
    simp
  refine ⟨⟨?_, fun _ => rfl, ?_, rfl, fun _ => rfl, fun _ => rfl, fun _ => rfl, ?_⟩, ?_⟩
  · rw [hempty]
    exact fun _ => rfl
  · rw [hempty]
    rfl
  · exact fun r hr => absurd hr List.not_mem_nil
  · exact fun j hj => absurd rfl hj

theorem sends_inv (subflows : List (Fin n)) (hinv : st.Balanced ∧ st.Working)
    (h : subflows.foldlM (fun st i => p.send t i st) st = some st') :
    st'.Balanced ∧ st'.Working := by
  induction subflows generalizing st with
  | nil =>
    cases h
    exact hinv
  | cons i rest ih =>
    rw [List.foldlM_cons] at h
    obtain ⟨st₁, hsend, hrest⟩ := Option.bind_eq_some_iff.1 h
    exact ih (send_inv hsend hinv.1 hinv.2) hrest

theorem start_inv (h : p.start = some st) : st.Balanced ∧ st.Working := by
  unfold start at h
  obtain ⟨sent, hsent, h⟩ := Option.bind_eq_some_iff.1 h
  cases h
  obtain ⟨hbal, hwork⟩ := sends_inv _ (measurements_inv _ p.initial_inv) hsent
  exact ⟨hbal.push_neutral _ (Or.inl rfl), hwork⟩

theorem iteration_inv (hinv : st.Balanced ∧ st.Working) (h : p.iteration st = some st') :
    st'.Balanced ∧ st'.Working := by
  unfold iteration at h
  split at h
  · cases h
  · rename_i e events hpop
    split at h
    · cases h
    · have hperm := EventLoop.pop_perm hpop
      have howing : (({ st with events } : State R n m).toTraffic.owing e).Balanced :=
        hinv.1.perm hperm
      have hwork : ({ st with events } : State R n m).Working := hinv.2
      exact handle_inv howing hwork h

theorem head_inv (p : Projection R n m) :
    ∀ k st, p.head k = some st → st.Balanced ∧ st.Working :=
  EventLoop.heads_inv (fun st : State R n m => st.Balanced ∧ st.Working) (fun _ => start_inv)
    fun _ _ => iteration_inv

end Projection

/-- What packet conservation says of the traffic. -/
structure Traffic.Conserved (tr : Traffic R n m) : Prop where
  inFlight : ∀ i, tr.F i =
    MSS * (ofSubflow i tr.arriving + ofSubflow i tr.queued + ofSubflow i tr.returning)
  sends : ∀ i, tr.delivered i + tr.F i = MSS * ofSubflow i tr.sent
  nonneg : ∀ i, 0 ≤ tr.F i
  /-- Every packet sent is in one place. -/
  ledger : tr.sent = tr.arriving + tr.queued + tr.returning + tr.acknowledged
  distinct : tr.sent.Nodup
  finish : ∀ j, tr.busy j = true ↔ tr.finishes j = 1
  working : ∀ j, tr.queues j ≠ [] → tr.busy j = true
  pace : ∀ i, tr.pace i = true ↔ tr.paces i = 1
  fifo : ∀ j, tr.history.arrived j = tr.history.served j ++ (tr.queues j).map Prod.fst
  window : ∀ r ∈ tr.history.sends, r.F ≤ r.W

theorem Flagged.iff {ι : Type} {pending : ι → ℕ} {flag : ι → Bool} (h : Flagged pending flag)
    (i : ι) : flag i = true ↔ pending i = 1 := by
  rw [h i]
  split <;> simp_all

theorem Traffic.Balanced.conserved {tr : Traffic R n m} (h : tr.Balanced) (hwork : tr.Working) :
    tr.Conserved where
  inFlight i := by
    rw [h.flight i, Traffic.inFlight, ofSubflow_add, ofSubflow_add]
    push_cast
    rfl
  sends i := by
    rw [h.delivered i, h.flight i, h.ledger, ofSubflow_add]
    push_cast
    ring
  nonneg i := by
    rw [h.flight i]
    exact mul_nonneg (by decide) (Int.natCast_nonneg _)
  ledger := h.ledger
  distinct := by
    have hserials : ((tr.history.sends.map SendRecord.packet).map Packet.serial).Nodup := by
      rw [List.map_map]
      exact h.serials ▸ List.nodup_reverse.2 List.nodup_range
    exact Multiset.coe_nodup.2 (.of_map _ hserials)
  finish := h.finish.iff
  working := hwork
  pace := h.pace.iff
  fifo := h.fifo
  window := h.window

/-- **Packet conservation.** -/
theorem packet_conservation [PyFloat R] (p : Projection R n m) (k : ℕ) (st : State R n m)
    (h : p.head k = some st) : st.toTraffic.Conserved :=
  (p.head_inv k st h).1.conserved (p.head_inv k st h).2

/-- One subflow that starts with half the segments its link can hold in flight. -/
def onePath : Projection ℚ 1 1 :=
  { case := {
      capacity := fun _ => 1448000
      pathLink := fun _ => ⟨0, Nat.one_pos⟩
      connection := fun _ => 0
      propagation := fun _ => 1 / 100
      initialFraction := fun _ => 1 / 2 }
    duration := 1
    rng := fun _ => 0 }

theorem packet_conservation_one_path :
    ∃ st, onePath.head 16 = some st ∧ st.toTraffic.Conserved := by
  have hsome : (onePath.head 16).isSome = true := by decide +kernel
  obtain ⟨st, hst⟩ := Option.isSome_iff_exists.1 hsome
  exact ⟨st, hst, packet_conservation onePath 16 st hst⟩

end MpOrb.FluidModel
