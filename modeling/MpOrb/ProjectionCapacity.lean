import MpOrb.ProjectionRanges

/-!
# Links never exceed their capacity

The busy time of a link is the service time of the packets it took, less what the packet in service
still needs.

* `remaining`, `Traffic.busyTime` — the busy time; no handler changes it (`busyTime_handle`).
* `busyTime_advance` — it runs with the clock while the link is busy and stands still otherwise.
* `Departed` — the packets a link took are on their way back or acknowledged.
* `link_capacity` — services and delivered bytes stay within the capacity.
-/

set_option autoImplicit false

namespace MpOrb.FluidModel

variable {n m : ℕ}

/-- What the packet in service at a link still needs. -/
def remaining (now : ℚ) (j : Fin m) (events : List (Event ℚ n m)) : ℚ :=
  (events.map fun e => if e.kind.isFinish j then e.t - now else 0).sum

theorem remaining_cons (now : ℚ) (j : Fin m) (e : Event ℚ n m) (events : List (Event ℚ n m)) :
    remaining now j (e :: events) =
      (if e.kind.isFinish j then e.t - now else 0) + remaining now j events :=
  List.sum_cons

theorem remaining_perm {now : ℚ} {j : Fin m} {events events' : List (Event ℚ n m)}
    (h : events.Perm events') : remaining now j events = remaining now j events' :=
  (h.map _).sum_eq

/-- The clock takes its share from every packet in service. -/
theorem remaining_advance (now now' : ℚ) (j : Fin m) (events : List (Event ℚ n m)) :
    remaining now j events =
      remaining now' j events + (events.countP fun e => e.kind.isFinish j) * (now' - now) := by
  induction events with
  | nil => simp [remaining]
  | cons e rest ih =>
    rw [remaining_cons, remaining_cons, ih, List.countP_cons]
    split <;> push_cast <;> ring

theorem remaining_bounds {now σ : ℚ} {j : Fin m} {events : List (Event ℚ n m)}
    (h : ∀ e ∈ events, e.kind.isFinish j = true → now ≤ e.t ∧ e.t ≤ now + σ) :
    0 ≤ remaining now j events ∧
      remaining now j events ≤ (events.countP fun e => e.kind.isFinish j) * σ := by
  induction events with
  | nil => simp [remaining]
  | cons e rest ih =>
    obtain ⟨hhead, hrest⟩ := List.forall_mem_cons.1 h
    obtain ⟨hnonneg, hle⟩ := ih hrest
    rw [remaining_cons, List.countP_cons]
    split
    · rename_i hfinish
      obtain ⟨hpending, hdeadline⟩ := hhead hfinish
      push_cast
      constructor <;> linarith
    · push_cast
      constructor <;> linarith

namespace Traffic

variable {p : Projection ℚ n m} {tr : Traffic ℚ n m}

/-- How long a link has been busy. -/
def busyTime (tr : Traffic ℚ n m) (p : Projection ℚ n m) (now : ℚ) (j : Fin m) : ℚ :=
  (tr.history.served j).length * p.serviceTime j - remaining now j tr.events

theorem busyTime_push {kind : EventKind ℚ n m} (hkind : ∀ j, kind.isFinish j = false)
    (now due : ℚ) (j : Fin m) : (tr.push due kind).busyTime p now j = tr.busyTime p now j := by
  show _ - remaining now j (_ :: tr.events) = _
  rw [remaining_cons, if_neg (by simp [hkind]), zero_add]
  rfl

theorem busyTime_launch (now : ℚ) (link : Fin m) (packet : Packet ℚ n) (t₁ t₂ : ℚ) (W : ℤ)
    (j : Fin m) : (tr.launch link packet t₁ t₂ W).busyTime p now j = tr.busyTime p now j := by
  unfold launch
  rw [busyTime_push fun _ => rfl]
  exact busyTime_push (fun _ => rfl) now t₁ j

/-- A packet taken adds its service time and still needs all of it. -/
theorem busyTime_serve (now : ℚ) (link : Fin m) (packet : Packet ℚ n)
    (queue : List (Packet ℚ n × ℚ)) (t₂ u qdelay : ℚ) (count : ℤ) (j : Fin m) :
    (tr.serve link packet queue (now + p.serviceTime link) t₂ u qdelay count).busyTime p now j =
      tr.busyTime p now j := by
  unfold serve
  rw [busyTime_push fun _ => rfl]
  show ((Function.update tr.history.served link (tr.history.served link ++ [packet]) j).length :
      ℚ) * p.serviceTime j - remaining now j (_ :: tr.events) = _
  rw [remaining_cons]
  by_cases hj : j = link
  · subst hj
    rw [Function.update_self, if_pos (by simp [EventKind.isFinish]), List.length_append]
    unfold busyTime
    push_cast
    simp only [List.length_singleton]
    push_cast
    ring
  · rw [Function.update_of_ne hj, if_neg (by simpa [EventKind.isFinish] using Ne.symm hj), zero_add]
    rfl

end Traffic

namespace Projection

variable {p : Projection ℚ n m} {t : ℚ} {st st' : State ℚ n m}

/-- No event but the end of a service moves it. -/
theorem busyTime_event {kind : EventKind ℚ n m} (hkind : ∀ j : Fin m, kind.isFinish j = false)
    (due : ℚ) (j : Fin m) : (st.event due kind).busyTime p t j = st.busyTime p t j :=
  Traffic.busyTime_push hkind t due j

theorem busyTime_send {i : Fin n} (h : p.send t i st = some st') (j : Fin m) :
    st'.busyTime p t j = st.busyTime p t j := by
  rcases send_exact h with ⟨rfl, -⟩ | ⟨-, -, rfl⟩
  · rfl
  · exact Traffic.busyTime_launch ..

theorem busyTime_startService {link : Fin m} (h : p.startService t link st = some st')
    (j : Fin m) : st'.busyTime p t j = st.busyTime p t j := by
  rcases startService_exact h with ⟨rfl, -⟩ | ⟨packet, arrived, queue, qdelay, -, -, rfl⟩
  · rfl
  · exact Traffic.busyTime_serve ..

/-- **No handler changes the busy time of a link.** -/
theorem busyTime_handle {kind : EventKind ℚ n m} (h : p.handle t kind st = some st') (j : Fin m) :
    st'.busyTime p t j = st.busyTime p t j := by
  cases kind with
  | arrival link packet => exact busyTime_startService h j
  | finish link => exact busyTime_startService h j
  | pace i =>
    have hsend : p.send t i { st with pace := Function.update st.pace i false } = some st' := h
    exact busyTime_send hsend j
  | measurement link =>
    cases h
    obtain ⟨due, htraffic⟩ := measure_toTraffic t link st
    rw [htraffic]
    exact Traffic.busyTime_push (fun _ => rfl) t due j
  | react i =>
    cases h
    exact busyTime_event (fun _ => rfl) _ j
  | ack packet u count qdelay =>
    obtain ⟨st₁, st₂, hsettled, hsend, hrest⟩ := acknowledge_cases h
    have hsent : st₂.busyTime p t j = st.busyTime p t j := by
      rw [busyTime_send hsend, hsettled]
      rfl
    rcases hrest with hsame | ⟨due, hreact⟩
    · rw [hsame, hsent]
    · rw [hreact, Traffic.busyTime_push fun _ => rfl, hsent]
  | record =>
    cases h
    exact busyTime_event (fun _ => rfl) _ j

/-- **The busy time runs while the link is busy.** -/
theorem busyTime_advance {now : ℚ} {e : Event ℚ n m} {events : List (Event ℚ n m)}
    (hbal : st.Balanced) (hpop : EventLoop.pop Event.before st.events = some (e, events))
    (j : Fin m) : ({ st with events } : State ℚ n m).busyTime p e.t j =
      st.busyTime p now j + if st.busy j then e.t - now else 0 := by
  have hperm := EventLoop.pop_perm hpop
  have hrest : remaining e.t j st.events = remaining e.t j events := by
    rw [← remaining_perm hperm, remaining_cons, sub_self]
    simp
  have hcount : (st.events.countP fun e => e.kind.isFinish j) = if st.busy j then 1 else 0 :=
    hbal.finish j
  show _ - remaining e.t j events = _ - remaining now j st.events + _
  rw [remaining_advance now e.t, hrest, hcount]
  split <;> push_cast <;> ring

theorem busyTime_start (h : p.start = some st) (j : Fin m) : st.busyTime p 0 j = 0 := by
  refine start_induct (P := fun st => st.busyTime p 0 j = 0) ?_ (fun st k hst => ?_)
    (fun st st' i hst hsend => ?_) (fun st hst => ?_) h
  · show ((0 : ℕ) : ℚ) * p.serviceTime j - 0 = 0
    simp
  · exact (busyTime_event (fun _ => rfl) _ j).trans hst
  · exact (busyTime_send hsend j).trans hst
  · exact (busyTime_event (fun _ => rfl) _ j).trans hst

/-! ## Packets that a link took -/

/-- They are on their way back or acknowledged. -/
def Departed (p : Projection ℚ n m) (tr : Traffic ℚ n m) : Prop :=
  ∀ j, (tr.history.served j : Multiset (Packet ℚ n)) =
    (tr.returning + tr.acknowledged).filter fun packet => p.case.pathLink packet.subflow = j

theorem Departed.serve {tr : Traffic ℚ n m} {j : Fin m} {packet : Packet ℚ n}
    (h : p.Departed tr) (hlink : p.case.pathLink packet.subflow = j)
    (queue : List (Packet ℚ n × ℚ)) (t₁ t₂ u qdelay : ℚ) (count : ℤ) :
    p.Departed (tr.serve j packet queue t₁ t₂ u qdelay count) := by
  intro k
  show (Function.update tr.history.served j (tr.history.served j ++ [packet]) k :
      Multiset (Packet ℚ n)) = ((packet ::ₘ tr.returning) + tr.acknowledged).filter _
  rw [Multiset.cons_add, Multiset.filter_cons, ← h k]
  by_cases hk : k = j
  · subst hk
    rw [Function.update_self, if_pos hlink, ← Multiset.coe_add, add_comm]
    rfl
  · rw [Function.update_of_ne hk, if_neg (by rw [hlink]; exact Ne.symm hk), zero_add]

theorem Departed.settle {tr : Traffic ℚ n m} {t : ℚ} {counter : ℕ} {packet : Packet ℚ n}
    {u qdelay : ℚ} {count : ℤ}
    (h : p.Departed (tr.owing ⟨t, counter, .ack packet u count qdelay⟩)) :
    p.Departed (tr.settle packet) := by
  intro k
  have hmove : (tr.settle packet).returning + (tr.settle packet).acknowledged =
      (tr.owing ⟨t, counter, .ack packet u count qdelay⟩).returning + tr.acknowledged := by
    show tr.returning + packet ::ₘ tr.acknowledged = (packet ::ₘ tr.returning) + tr.acknowledged
    rw [Multiset.add_cons, Multiset.cons_add]
  rw [hmove]
  exact h k

theorem Departed.perm {tr : Traffic ℚ n m} {events : List (Event ℚ n m)} (h : p.Departed tr)
    (hperm : events.Perm tr.events) : p.Departed { tr with events } := by
  have hreturning : ({ tr with events } : Traffic ℚ n m).returning = tr.returning :=
    Multiset.coe_eq_coe.2 (hperm.filterMap _)
  intro j
  rw [hreturning]
  exact h j

theorem Departed.send {i : Fin n} (h : p.Departed st.toTraffic)
    (hsend : p.send t i st = some st') : p.Departed st'.toTraffic := by
  rcases send_exact hsend with ⟨rfl, -⟩ | ⟨-, -, rfl⟩ <;> exact h

theorem Departed.startService {j : Fin m} (h : p.Departed st.toTraffic) (hsane : p.Sane t st)
    (hstart : p.startService t j st = some st') : p.Departed st'.toTraffic := by
  rcases startService_exact hstart with ⟨rfl, -⟩ |
    ⟨packet, arrived, queue, qdelay, -, hqueue, rfl⟩
  · exact h
  · have hfirst := hsane.queues j (packet, arrived) (hqueue ▸ List.mem_cons_self)
    exact h.serve hfirst.link _ _ _ _ _ _

theorem Departed.handle {counter : ℕ} {kind : EventKind ℚ n m}
    (h : p.Departed (st.toTraffic.owing ⟨t, counter, kind⟩)) (hsane : p.Sane t st)
    (hdue : p.Due t t kind) (hhandle : p.handle t kind st = some st') :
    p.Departed st'.toTraffic := by
  cases kind with
  | arrival j packet =>
    have harrive : p.Departed (p.arrive t j packet st).toTraffic := h
    exact harrive.startService (hsane.arrive hdue) hhandle
  | finish j =>
    have hfree : p.Departed { st with busy := Function.update st.busy j false }.toTraffic := h
    exact hfree.startService ⟨{ hsane.values with }, hsane.events, hsane.queues⟩ hhandle
  | pace i =>
    have hfree : p.Departed { st with pace := Function.update st.pace i false }.toTraffic := h
    exact hfree.send hhandle
  | measurement j =>
    cases hhandle
    obtain ⟨due, htraffic⟩ := measure_toTraffic t j st
    rw [htraffic]
    exact h
  | react i =>
    cases hhandle
    exact h
  | ack packet u count qdelay =>
    obtain ⟨st₁, st₂, hsettled, hsend, hrest⟩ := acknowledge_cases hhandle
    have hdeparted : p.Departed st₁.toTraffic := hsettled ▸ h.settle
    rcases hrest with hsame | ⟨due, hreact⟩
    · rw [hsame]
      exact hdeparted.send hsend
    · rw [hreact]
      exact hdeparted.send hsend
  | record =>
    cases hhandle
    exact h

/-! ## Every head -/

/-- What holds at every head, with the time of the event before it. -/
structure Run (p : Projection ℚ n m) (head : ℚ × State ℚ n m) : Prop where
  sane : p.Sane head.1 head.2
  balanced : head.2.Balanced
  working : head.2.Working
  departed : p.Departed head.2.toTraffic
  /-- A link is not busy longer than the clock has run. -/
  busy : ∀ j, head.2.busyTime p head.1 j ≤ head.1

theorem Valid.run_start (hp : p.Valid) {head : ℚ × State ℚ n m}
    (h : (p.start.map fun st => (0, st)) = some head) : p.Run head := by
  obtain ⟨st, hst, rfl⟩ := Option.map_eq_some_iff.1 h
  obtain ⟨hbal, hwork⟩ := start_inv hst
  refine ⟨hp.start_sane hst, hbal, hwork, ?_, fun j => (busyTime_start hst j).le⟩
  exact start_induct (P := fun st => p.Departed st.toTraffic) (fun _ => rfl) (fun _ _ h => h)
    (fun _ _ _ h hsend => h.send hsend) (fun _ h => h) hst

/-- **One iteration, with its event.** -/
theorem Run.step (hp : p.Valid) {head head' : ℚ × State ℚ n m} (h : p.Run head)
    (hiter : EventLoop.clocked nextTime p.iteration head = some head') :
    head.1 ≤ head'.1 ∧ p.Run head' ∧ ∀ j, head'.2.busyTime p head'.1 j =
      head.2.busyTime p head.1 j + if head.2.busy j then head'.1 - head.1 else 0 := by
  obtain ⟨now, st⟩ := head
  obtain ⟨now', st'⟩ := head'
  obtain ⟨hnow, hsane'⟩ := h.sane.clocked hp hiter
  obtain ⟨e, events, hpop, rfl, -, hhandle⟩ := clocked_exact hiter
  obtain ⟨-, hdue, hsane⟩ := h.sane.advance hpop
  have hperm := EventLoop.pop_perm hpop
  have howing : (({ st with events } : State ℚ n m).toTraffic.owing e).Balanced :=
    h.balanced.perm hperm
  obtain ⟨hbal', hwork'⟩ := handle_inv howing h.working hhandle
  have hdeparted : p.Departed (({ st with events } : State ℚ n m).toTraffic.owing e) :=
    h.departed.perm hperm
  have hbusy : ∀ j, st'.busyTime p e.t j =
      st.busyTime p now j + if st.busy j then e.t - now else 0 := by
    intro j
    rw [busyTime_handle hhandle j]
    exact busyTime_advance h.balanced hpop j
  refine ⟨hnow, ⟨hsane', hbal', hwork', hdeparted.handle hsane hdue hhandle, fun j => ?_⟩, hbusy⟩
  have hbefore : st.busyTime p now j ≤ now := h.busy j
  show st'.busyTime p e.t j ≤ e.t
  rw [hbusy j]
  split <;> linarith

theorem Valid.run (hp : p.Valid) {k : ℕ} {head : ℚ × State ℚ n m}
    (h : p.clockedHead k = some head) : p.Run head :=
  EventLoop.heads_inv p.Run (fun _ => hp.run_start) (fun _ _ hrun hiter => (hrun.step hp hiter).2.1)
    k head h

theorem busyTime_between (hp : p.Valid) {k l : ℕ} (hkl : k ≤ l) {head head' : ℚ × State ℚ n m}
    (hk : p.clockedHead k = some head) (hl : p.clockedHead l = some head') (j : Fin m) :
    head.2.busyTime p head.1 j ≤ head'.2.busyTime p head'.1 j ∧
      head'.2.busyTime p head'.1 j - head.2.busyTime p head.1 j ≤ head'.1 - head.1 ∧
      ((∀ i, k ≤ i → i < l → ∀ h, p.clockedHead i = some h → h.2.busy j = true) →
        head'.2.busyTime p head'.1 j - head.2.busyTime p head.1 j = head'.1 - head.1) := by
  induction l, hkl using Nat.le_induction generalizing head' with
  | base =>
    rw [hk] at hl
    cases hl
    simp
  | succ l hkl ih =>
    obtain ⟨mid, hmid, hiter⟩ := Option.bind_eq_some_iff.1 hl
    obtain ⟨hle, hlip, hbusy⟩ := ih hmid
    obtain ⟨hnow, -, hstep⟩ := (hp.run hmid).step hp hiter
    rw [hstep j]
    refine ⟨?_, ?_, fun hall => ?_⟩
    · split <;> linarith
    · split <;> linarith
    · have hbefore := hbusy fun i hi hil => hall i hi (Nat.lt_succ_of_lt hil)
      rw [if_pos (hall l hkl (Nat.lt_succ_self l) mid hmid)]
      linarith

/-- What the packet in service still needs is at most one service time. -/
theorem Run.remaining_bounds (hp : p.Valid) {head : ℚ × State ℚ n m} (h : p.Run head) (j : Fin m) :
    0 ≤ remaining head.1 j head.2.events ∧
      remaining head.1 j head.2.events ≤ p.serviceTime j := by
  have hevents : ∀ e ∈ head.2.events, e.kind.isFinish j = true →
      head.1 ≤ e.t ∧ e.t ≤ head.1 + p.serviceTime j := by
    rintro ⟨due, counter, kind⟩ he hfinish
    have hdue := h.sane.events _ he
    cases kind with
    | finish link =>
      obtain rfl : link = j := by simpa [EventKind.isFinish] using hfinish
      exact hdue
    | _ => cases hfinish
  obtain ⟨hnonneg, hle⟩ := FluidModel.remaining_bounds hevents
  refine ⟨hnonneg, hle.trans ?_⟩
  have hcount : (head.2.events.countP fun e => e.kind.isFinish j) =
      if head.2.busy j then 1 else 0 := h.balanced.finish j
  have hservice := hp.serviceTime_pos j
  rw [hcount]
  split <;> simp [hservice.le]

/-! ## Capacity -/

theorem sum_ofSubflow (p : Projection ℚ n m) (j : Fin m) (packets : Multiset (Packet ℚ n)) :
    ∑ i with p.case.pathLink i = j, ofSubflow i packets =
      (packets.filter fun packet => p.case.pathLink packet.subflow = j).card := by
  induction packets using Multiset.induction_on with
  | empty => simp [ofSubflow]
  | cons packet packets ih =>
    simp only [ofSubflow_cons, Finset.sum_add_distrib, ih, Multiset.filter_cons]
    rw [Multiset.card_add, add_comm, Finset.sum_ite_eq]
    simp only [Finset.mem_filter, Finset.mem_univ, true_and]
    split <;> rfl

theorem Run.delivered_le {head : ℚ × State ℚ n m} (h : p.Run head) (j : Fin m) :
    ∑ i with p.case.pathLink i = j, head.2.delivered i ≤
      MSS * (head.2.history.served j).length := by
  have hserved := congrArg Multiset.card (h.departed j)
  rw [Multiset.coe_card, Multiset.filter_add, Multiset.card_add, ← sum_ofSubflow,
    ← sum_ofSubflow] at hserved
  have hdelivered : ∑ i with p.case.pathLink i = j, head.2.delivered i =
      MSS * ((∑ i with p.case.pathLink i = j, ofSubflow i head.2.acknowledged : ℕ) : ℤ) := by
    rw [Nat.cast_sum, Finset.mul_sum]
    exact Finset.sum_congr rfl fun i _ => h.balanced.delivered i
  rw [hdelivered]
  refine mul_le_mul_of_nonneg_left ?_ mss_pos.le
  exact_mod_cast (by omega : ∑ i with p.case.pathLink i = j, ofSubflow i head.2.acknowledged ≤
    (head.2.history.served j).length)

theorem Run.served_le (hp : p.Valid) {head : ℚ × State ℚ n m} (h : p.Run head) (j : Fin m) :
    ((head.2.history.served j).length : ℚ) ≤ head.1 / p.serviceTime j + 1 := by
  have hservice := hp.serviceTime_pos j
  have hbusy := h.busy j
  obtain ⟨-, hleft⟩ := h.remaining_bounds hp j
  unfold Traffic.busyTime at hbusy
  rw [div_add_one hservice.ne', le_div_iff₀ hservice]
  linarith

theorem Run.delivered_bound (hp : p.Valid) {head : ℚ × State ℚ n m} (h : p.Run head) (j : Fin m) :
    ((∑ i with p.case.pathLink i = j, head.2.delivered i : ℤ) : ℚ) ≤
      MSS * (head.1 / p.serviceTime j + 1) := by
  have hdelivered : ((∑ i with p.case.pathLink i = j, head.2.delivered i : ℤ) : ℚ) ≤
      MSS * (head.2.history.served j).length := by
    exact_mod_cast h.delivered_le j
  exact hdelivered.trans
    (mul_le_mul_of_nonneg_left (h.served_le hp j) (Int.cast_nonneg mss_pos.le))

end Projection

/-- A link between two heads of the loop. -/
structure WithinCapacity (p : Projection ℚ n m) (j : Fin m) (now now' : ℚ)
    (st st' : State ℚ n m) : Prop where
  clock : now ≤ now'
  /-- The link is busy at most all the time. -/
  busy : st'.busyTime p now' j - st.busyTime p now j ≤ now' - now
  services : ((st'.history.served j).length - (st.history.served j).length) * p.serviceTime j ≤
    now' - now + p.serviceTime j
  /-- Payload bytes acknowledged since the start. -/
  delivered : ((∑ i with p.case.pathLink i = j, st'.delivered i : ℤ) : ℚ) ≤
    MSS * (now' / p.serviceTime j + 1)

open Projection in
/-- **No link exceeds its capacity.**  Between any two heads a link is busy at most as long as the
clock runs, and exactly as long if it is busy at all of them; it takes at most one packet more than
its capacity serves in that time; and since the start its subflows have had no more acknowledged. -/
theorem link_capacity (p : Projection ℚ n m) (hp : p.Valid) {k l : ℕ} (hkl : k ≤ l) {now now' : ℚ}
    {st st' : State ℚ n m} (hk : p.clockedHead k = some (now, st))
    (hl : p.clockedHead l = some (now', st')) (j : Fin m) :
    WithinCapacity p j now now' st st' ∧
      ((∀ i, k ≤ i → i < l → ∀ head, p.clockedHead i = some head → head.2.busy j = true) →
        st'.busyTime p now' j - st.busyTime p now j = now' - now) := by
  have hservice := hp.serviceTime_pos j
  obtain ⟨hle, hlip, hbusy⟩ := busyTime_between hp hkl hk hl j
  have hrun := hp.run hk
  have hrun' := hp.run hl
  obtain ⟨hnonneg, -⟩ := hrun.remaining_bounds hp j
  obtain ⟨-, hleft⟩ := hrun'.remaining_bounds hp j
  refine ⟨⟨by linarith, hlip, ?_, ?_⟩, hbusy⟩
  · unfold Traffic.busyTime at hlip
    simp only at hlip hnonneg hleft
    linarith
  · exact hrun'.delivered_bound hp j

theorem link_capacity_one_path :
    ∃ now now' st st', onePath.clockedHead 3 = some (now, st) ∧
      onePath.clockedHead 24 = some (now', st') ∧
      WithinCapacity onePath ⟨0, Nat.one_pos⟩ now now' st st' := by
  have hsome : (onePath.clockedHead 24).isSome = true := by decide +kernel
  obtain ⟨⟨now', st'⟩, h'⟩ := Option.isSome_iff_exists.1 hsome
  have hle : 3 ≤ 24 := by decide
  obtain ⟨⟨now, st⟩, h⟩ := EventLoop.heads_of_le hle h'
  exact ⟨now, now', st, st', h, h', (link_capacity onePath onePath_valid hle h h' _).1⟩

end MpOrb.FluidModel
