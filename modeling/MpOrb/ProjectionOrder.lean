import MpOrb.ProjectionCapacity

/-!
# Delivery in order

Every subflow has its packets acknowledged in the order it sent them, without gaps.

* `Precedes` — sent before, by the same subflow.
* `InOrder` — packets further on were sent before; `launch`, `enqueue`, `serve` and `settle` keep
  it, since the heap hands out events by time and links are first in, first out.
* `in_order_delivery` — at the head of every iteration.
-/

set_option autoImplicit false

namespace MpOrb.FluidModel

variable {n m : ℕ}

/-- Of packets of one subflow the first was sent before. -/
def Precedes (a b : Packet ℚ n) : Prop := a.subflow = b.subflow → a.serial < b.serial

/-- The heap has the packets of a subflow at a stage in the order they were sent. -/
def Agree (stage : EventKind ℚ n m → Option (Packet ℚ n)) (e f : Event ℚ n m) : Prop :=
  ∀ a ∈ stage e.kind, ∀ b ∈ stage f.kind, a.subflow = b.subflow →
    (a.serial < b.serial ∧ e.key < f.key) ∨ (b.serial < a.serial ∧ f.key < e.key)

theorem Agree.symm {stage : EventKind ℚ n m → Option (Packet ℚ n)} {e f : Event ℚ n m}
    (h : Agree stage e f) : Agree stage f e :=
  fun b hb a ha hsame => (h a ha b hb hsame.symm).symm

/-- The packet of the first event precedes those behind it. -/
theorem Agree.precedes {stage : EventKind ℚ n m → Option (Packet ℚ n)} {e f : Event ℚ n m}
    (h : Agree stage e f) (hkey : e.key ≤ f.key) {a b : Packet ℚ n} (ha : a ∈ stage e.kind)
    (hb : b ∈ stage f.kind) : Precedes a b := by
  intro hsame
  rcases h a ha b hb hsame with ⟨hserial, -⟩ | ⟨-, hlater⟩
  · exact hserial
  · exact absurd hlater (not_lt.2 hkey)

theorem Agree.of_later {stage : EventKind ℚ n m → Option (Packet ℚ n)} {e f : Event ℚ n m}
    (h : ∀ a ∈ stage e.kind, ∀ b ∈ stage f.kind, a.subflow = b.subflow →
      b.serial < a.serial ∧ f.t ≤ e.t) (hcounter : f.counter < e.counter) : Agree stage e f := by
  intro a ha b hb hsame
  obtain ⟨hserial, htime⟩ := h a ha b hb hsame
  exact Or.inr ⟨hserial,
    Prod.Lex.toLex_lt_toLex.2 (htime.lt_or_eq.imp id fun heq => ⟨heq, hcounter⟩)⟩

theorem Agree.of_none {stage : EventKind ℚ n m → Option (Packet ℚ n)} {e : Event ℚ n m}
    (h : stage e.kind = none) (f : Event ℚ n m) : Agree stage e f := by
  intro a ha
  rw [h] at ha
  cases ha

namespace Traffic

variable {tr : Traffic ℚ n m}

/-- Packets further on were sent before. -/
structure InOrder (tr : Traffic ℚ n m) : Prop where
  counter : ∀ e ∈ tr.events, e.counter < tr.counter
  arrivals : tr.events.Pairwise (Agree EventKind.arriving)
  returns : tr.events.Pairwise (Agree EventKind.returning)
  queue : ∀ j, ((tr.queues j).map Prod.fst).Pairwise Precedes
  queued : ∀ a ∈ tr.queued, ∀ b ∈ tr.arriving, Precedes a b
  returning : ∀ a ∈ tr.returning, ∀ b ∈ tr.queued + tr.arriving, Precedes a b
  acknowledged : ∀ a ∈ tr.acknowledged, ∀ b ∈ tr.inFlight, Precedes a b
  acked : tr.history.acked.Pairwise fun newer older => Precedes older newer

theorem mem_arriving {packet : Packet ℚ n} :
    packet ∈ tr.arriving ↔ ∃ e ∈ tr.events, packet ∈ e.kind.arriving :=
  Multiset.mem_coe.trans List.mem_filterMap

theorem mem_returning {packet : Packet ℚ n} :
    packet ∈ tr.returning ↔ ∃ e ∈ tr.events, packet ∈ e.kind.returning :=
  Multiset.mem_coe.trans List.mem_filterMap

theorem mem_queued {packet : Packet ℚ n} :
    packet ∈ tr.queued ↔ ∃ j, packet ∈ (tr.queues j).map Prod.fst := by
  unfold Traffic.queued
  simp only [Multiset.mem_sum, Finset.mem_univ, true_and, Multiset.mem_coe]

theorem mem_inFlight {packet : Packet ℚ n} :
    packet ∈ tr.inFlight ↔ packet ∈ tr.returning ∨ packet ∈ tr.queued + tr.arriving := by
  unfold Traffic.inFlight
  simp only [Multiset.mem_add]
  tauto

theorem mem_arriving_push {packet : Packet ℚ n} {t : ℚ} {kind : EventKind ℚ n m} :
    packet ∈ (tr.push t kind).arriving ↔ packet ∈ kind.arriving ∨ packet ∈ tr.arriving := by
  simp only [mem_arriving, Traffic.push, List.mem_cons, exists_eq_or_imp]

theorem mem_returning_push {packet : Packet ℚ n} {t : ℚ} {kind : EventKind ℚ n m} :
    packet ∈ (tr.push t kind).returning ↔ packet ∈ kind.returning ∨ packet ∈ tr.returning := by
  simp only [mem_returning, Traffic.push, List.mem_cons, exists_eq_or_imp]

theorem Balanced.serial_lt (h : tr.Balanced) {packet : Packet ℚ n}
    (hmem : packet ∈ tr.inFlight + tr.acknowledged) :
    packet.serial < tr.history.sends.length := by
  rw [← h.ledger] at hmem
  obtain ⟨r, hr, rfl⟩ := List.mem_map.1 (Multiset.mem_coe.1 hmem)
  have hserial : r.packet.serial ∈ tr.history.sends.map (·.packet.serial) :=
    List.mem_map_of_mem hr
  rw [h.serials] at hserial
  simpa using hserial

/-! ## Events -/

theorem InOrder.perm {events : List (Event ℚ n m)} (h : tr.InOrder)
    (hperm : events.Perm tr.events) : ({ tr with events } : Traffic ℚ n m).InOrder := by
  have harriving : ({ tr with events } : Traffic ℚ n m).arriving = tr.arriving :=
    Multiset.coe_eq_coe.2 (hperm.filterMap _)
  have hreturning : ({ tr with events } : Traffic ℚ n m).returning = tr.returning :=
    Multiset.coe_eq_coe.2 (hperm.filterMap _)
  exact
    { counter := fun e he => h.counter e (hperm.subset he)
      arrivals := (hperm.pairwise_iff fun hab => hab.symm).2 h.arrivals
      returns := (hperm.pairwise_iff fun hab => hab.symm).2 h.returns
      queue := h.queue
      queued := by rw [harriving]; exact h.queued
      returning := by rw [harriving, hreturning]; exact h.returning
      acknowledged := by
        rw [inFlight, harriving, hreturning]
        exact h.acknowledged
      acked := h.acked }

theorem InOrder.of_owing {e : Event ℚ n m} (h : (tr.owing e).InOrder) : tr.InOrder := by
  have harriving : ∀ b ∈ tr.arriving, b ∈ (tr.owing e).arriving := by
    intro b hb
    obtain ⟨f, hf, hb⟩ := mem_arriving.1 hb
    exact mem_arriving.2 ⟨f, List.mem_cons_of_mem _ hf, hb⟩
  have hreturning : ∀ b ∈ tr.returning, b ∈ (tr.owing e).returning := by
    intro b hb
    obtain ⟨f, hf, hb⟩ := mem_returning.1 hb
    exact mem_returning.2 ⟨f, List.mem_cons_of_mem _ hf, hb⟩
  have hlater : ∀ b ∈ tr.queued + tr.arriving, b ∈ (tr.owing e).queued + (tr.owing e).arriving := by
    intro b hb
    exact Multiset.mem_add.2 ((Multiset.mem_add.1 hb).imp id (harriving b))
  exact
    { h with
      counter := fun f hf => h.counter f (List.mem_cons_of_mem _ hf)
      arrivals := (List.pairwise_cons.1 h.arrivals).2
      returns := (List.pairwise_cons.1 h.returns).2
      queued := fun a ha b hb => h.queued a ha b (harriving b hb)
      returning := fun a ha b hb => h.returning a (hreturning a ha) b (hlater b hb)
      acknowledged := fun a ha b hb => h.acknowledged a ha b
        (mem_inFlight.2 ((mem_inFlight.1 hb).imp (hreturning b) (hlater b))) }

theorem InOrder.push (h : tr.InOrder) {t : ℚ} {kind : EventKind ℚ n m}
    (harrival : ∀ f ∈ tr.events, Agree EventKind.arriving ⟨t, tr.counter, kind⟩ f)
    (hreturn : ∀ f ∈ tr.events, Agree EventKind.returning ⟨t, tr.counter, kind⟩ f)
    (hnew : ∀ b ∈ kind.arriving, kind.returning = none ∧
      ∀ a ∈ tr.inFlight + tr.acknowledged, Precedes a b)
    (hback : ∀ a ∈ kind.returning, (∀ b ∈ tr.queued + tr.arriving, Precedes a b) ∧
      ∀ b ∈ tr.acknowledged, Precedes b a) : (tr.push t kind).InOrder := by
  refine ⟨?_, List.pairwise_cons.2 ⟨harrival, h.arrivals⟩,
    List.pairwise_cons.2 ⟨hreturn, h.returns⟩, h.queue, fun a ha b hb => ?_,
    fun a ha b hb => ?_, fun a ha b hb => ?_, h.acked⟩
  · refine List.forall_mem_cons.2 ⟨Nat.lt_succ_self _, fun f hf => ?_⟩
    exact (h.counter f hf).trans (Nat.lt_succ_self _)
  · rcases mem_arriving_push.1 hb with hb | hb
    · refine (hnew b hb).2 a (Multiset.mem_add.2 (Or.inl (mem_inFlight.2 (Or.inr ?_))))
      exact Multiset.mem_add.2 (Or.inl ha)
    · exact h.queued a ha b hb
  · rcases mem_returning_push.1 ha with ha | ha
    · rcases Multiset.mem_add.1 hb with hb | hb
      · exact (hback a ha).1 b (Multiset.mem_add.2 (Or.inl hb))
      · rcases mem_arriving_push.1 hb with hb | hb
        · rw [(hnew b hb).1] at ha
          cases ha
        · exact (hback a ha).1 b (Multiset.mem_add.2 (Or.inr hb))
    · rcases Multiset.mem_add.1 hb with hb | hb
      · exact h.returning a ha b (Multiset.mem_add.2 (Or.inl hb))
      · rcases mem_arriving_push.1 hb with hb | hb
        · exact (hnew b hb).2 a (Multiset.mem_add.2 (Or.inl (mem_inFlight.2 (Or.inl ha))))
        · exact h.returning a ha b (Multiset.mem_add.2 (Or.inr hb))
  · rcases mem_inFlight.1 hb with hb | hb
    · rcases mem_returning_push.1 hb with hb | hb
      · exact (hback b hb).2 a ha
      · exact h.acknowledged a ha b (mem_inFlight.2 (Or.inl hb))
    · rcases Multiset.mem_add.1 hb with hb | hb
      · exact h.acknowledged a ha b (mem_inFlight.2 (Or.inr (Multiset.mem_add.2 (Or.inl hb))))
      · rcases mem_arriving_push.1 hb with hb | hb
        · exact (hnew b hb).2 a (Multiset.mem_add.2 (Or.inr ha))
        · exact h.acknowledged a ha b (mem_inFlight.2 (Or.inr (Multiset.mem_add.2 (Or.inr hb))))

theorem InOrder.push_neutral (h : tr.InOrder) (t : ℚ) {kind : EventKind ℚ n m}
    (harriving : kind.arriving = none) (hreturning : kind.returning = none) :
    (tr.push t kind).InOrder := by
  refine h.push (fun f _ => Agree.of_none harriving f) (fun f _ => Agree.of_none hreturning f)
    (fun b hb => ?_) fun a ha => ?_
  · rw [harriving] at hb
    cases hb
  · rw [hreturning] at ha
    cases ha

/-! ## What events do to the order -/

/-- A new packet is behind all others, if its arrival is. -/
theorem InOrder.launch (h : tr.InOrder) (hbal : tr.Balanced) {packet : Packet ℚ n}
    (hserial : packet.serial = tr.history.sends.length) {t₁ : ℚ}
    (htime : ∀ f ∈ tr.events, ∀ a ∈ f.kind.arriving, a.subflow = packet.subflow → f.t ≤ t₁)
    (j : Fin m) (t₂ : ℚ) (W : ℤ) : (tr.launch j packet t₁ t₂ W).InOrder := by
  have hlast : ∀ a ∈ tr.inFlight + tr.acknowledged, Precedes a packet := by
    intro a ha _
    rw [hserial]
    exact hbal.serial_lt ha
  have hlaunched : (tr.push t₁ (.arrival j packet)).InOrder := by
    refine h.push (fun f hf => ?_) (fun f _ => Agree.of_none rfl f) (fun b hb => ?_) fun a ha => ?_
    · refine Agree.of_later (fun a ha b hb hsame => ?_) (h.counter f hf)
      cases ha
      refine ⟨hlast b ?_ hsame.symm, htime f hf b hb hsame.symm⟩
      have hb' : b ∈ tr.arriving := mem_arriving.2 ⟨f, hf, hb⟩
      exact Multiset.mem_add.2 (Or.inl (mem_inFlight.2 (Or.inr (Multiset.mem_add.2 (Or.inr hb')))))
    · cases hb
      exact ⟨rfl, hlast⟩
    · cases ha
  have hpaced : ({ tr.push t₁ (.arrival j packet) with
      F := Function.update tr.F packet.subflow (tr.F packet.subflow + MSS)
      pace := Function.update tr.pace packet.subflow true
      history := { tr.history with
        sends := ⟨packet, Function.update tr.F packet.subflow (tr.F packet.subflow + MSS)
          packet.subflow, W⟩ :: tr.history.sends } } : Traffic ℚ n m).InOrder := { hlaunched with }
  show (Traffic.push _ t₂ (.pace packet.subflow)).InOrder
  exact hpaced.push_neutral t₂ rfl rfl

/-- The first arrival of a subflow joins the queue behind all that arrived before. -/
theorem InOrder.enqueue {t : ℚ} {counter : ℕ} {j : Fin m} {packet : Packet ℚ n}
    (h : (tr.owing ⟨t, counter, .arrival j packet⟩).InOrder)
    (hfirst : ∀ f ∈ tr.events, toLex (t, counter) ≤ f.key) :
    (tr.enqueue j packet t).InOrder := by
  have hrest := h.of_owing
  have hqueued : ∀ a, a ∈ (tr.enqueue j packet t).queued ↔ a = packet ∨ a ∈ tr.queued := by
    intro a
    rw [queued_enqueue]
    exact Multiset.mem_cons
  have harrived : packet ∈ (tr.owing ⟨t, counter, .arrival j packet⟩).arriving :=
    mem_arriving.2 ⟨_, List.mem_cons_self, rfl⟩
  have hahead : ∀ b ∈ tr.arriving, Precedes packet b := by
    intro b hb
    obtain ⟨f, hf, hb⟩ := mem_arriving.1 hb
    exact ((List.pairwise_cons.1 h.arrivals).1 f hf).precedes (hfirst f hf) rfl hb
  have hlater : ∀ b ∈ (tr.enqueue j packet t).queued + tr.arriving,
      b ∈ tr.queued + (tr.owing ⟨t, counter, .arrival j packet⟩).arriving := by
    intro b hb
    rcases Multiset.mem_add.1 hb with hb | hb
    · rcases (hqueued b).1 hb with rfl | hb
      · exact Multiset.mem_add.2 (Or.inr harrived)
      · exact Multiset.mem_add.2 (Or.inl hb)
    · exact Multiset.mem_add.2 (Or.inr (Multiset.mem_cons_of_mem hb))
  exact
    { hrest with
      queue := by
        intro k
        show ((Function.update tr.queues j (tr.queues j ++ [(packet, t)]) k).map
          Prod.fst).Pairwise Precedes
        by_cases hk : k = j
        · subst hk
          rw [Function.update_self, List.map_append]
          refine List.pairwise_append.2 ⟨hrest.queue k, List.pairwise_singleton _ _, ?_⟩
          intro a ha b hb
          cases List.mem_singleton.1 hb
          exact h.queued a (mem_queued.2 ⟨k, ha⟩) packet harrived
        · rw [Function.update_of_ne hk]
          exact hrest.queue k
      queued := fun a ha b hb => by
        rcases (hqueued a).1 ha with rfl | ha
        · exact hahead b hb
        · exact hrest.queued a ha b hb
      returning := fun a ha b hb => h.returning a ha b (hlater b hb)
      acknowledged := fun a ha b hb =>
        h.acknowledged a ha b (mem_inFlight.2 ((mem_inFlight.1 hb).imp id (hlater b))) }

/-- A link has taken a packet that is not yet on its way back. -/
def taken (tr : Traffic ℚ n m) (j : Fin m) (packet : Packet ℚ n) (queue : List (Packet ℚ n × ℚ)) :
    Traffic ℚ n m :=
  { tr with
    busy := Function.update tr.busy j true
    queues := Function.update tr.queues j queue
    history := { tr.history with
      served := Function.update tr.history.served j (tr.history.served j ++ [packet]) } }

theorem InOrder.taken (h : tr.InOrder) {j : Fin m} {packet : Packet ℚ n} {arrived : ℚ}
    {queue : List (Packet ℚ n × ℚ)} (hqueue : tr.queues j = (packet, arrived) :: queue) :
    (tr.taken j packet queue).InOrder := by
  have hqueued : ∀ b ∈ (tr.taken j packet queue).queued, b ∈ tr.queued := by
    intro b hb
    rw [tr.queued_serve j hqueue]
    exact Multiset.mem_cons_of_mem hb
  have hlater : ∀ b ∈ (tr.taken j packet queue).queued + tr.arriving, b ∈ tr.queued + tr.arriving :=
    fun b hb => Multiset.mem_add.2 ((Multiset.mem_add.1 hb).imp (hqueued b) id)
  exact
    { h with
      queue := by
        have htail := h.queue j
        rw [hqueue, List.map_cons, List.pairwise_cons] at htail
        exact update_range (f := tr.queues)
          (P := fun _ (queue : List (Packet ℚ n × ℚ)) => (queue.map Prod.fst).Pairwise Precedes)
          h.queue htail.2
      queued := fun a ha b hb => h.queued a (hqueued a ha) b hb
      returning := fun a ha b hb => h.returning a ha b (hlater b hb)
      acknowledged := fun a ha b hb =>
        h.acknowledged a ha b (mem_inFlight.2 ((mem_inFlight.1 hb).imp id (hlater b))) }

/-- The first packet of a queue goes back behind all that were served before. -/
theorem InOrder.serve (h : tr.InOrder) {j : Fin m} {packet : Packet ℚ n} {arrived : ℚ}
    {queue : List (Packet ℚ n × ℚ)} (hqueue : tr.queues j = (packet, arrived) :: queue)
    (hlinks : ∀ k, ∀ b ∈ (tr.queues k).map Prod.fst, packet.subflow = b.subflow → k = j)
    {t₂ : ℚ} (htime : ∀ f ∈ tr.events, ∀ a ∈ f.kind.returning, a.subflow = packet.subflow →
      f.t ≤ t₂) (t₁ u qdelay : ℚ) (count : ℤ) :
    (tr.serve j packet queue t₁ t₂ u qdelay count).InOrder := by
  have hfront : packet ∈ tr.queued := mem_queued.2 ⟨j, by rw [hqueue]; exact List.mem_cons_self⟩
  have hbehind : ∀ b ∈ (tr.taken j packet queue).queued + tr.arriving, Precedes packet b := by
    intro b hb
    rcases Multiset.mem_add.1 hb with hb | hb
    · intro hsame
      obtain ⟨k, hb⟩ := mem_queued.1 hb
      change b ∈ (Function.update tr.queues j queue k).map Prod.fst at hb
      by_cases hk : k = j
      · subst hk
        rw [Function.update_self] at hb
        have hpairs := h.queue k
        rw [hqueue, List.map_cons, List.pairwise_cons] at hpairs
        exact hpairs.1 b hb hsame
      · rw [Function.update_of_ne hk] at hb
        exact absurd (hlinks k b hb hsame) hk
    · exact h.queued packet hfront b hb
  have hahead : ∀ b ∈ tr.returning, Precedes b packet := fun b hb =>
    h.returning b hb packet (Multiset.mem_add.2 (Or.inl hfront))
  have hacked : ∀ b ∈ tr.acknowledged, Precedes b packet := fun b hb =>
    h.acknowledged b hb packet (mem_inFlight.2 (Or.inr (Multiset.mem_add.2 (Or.inl hfront))))
  have hfinish : ((tr.taken j packet queue).push t₁ (.finish j)).InOrder :=
    (h.taken hqueue).push_neutral t₁ rfl rfl
  show (Traffic.push _ t₂ (.ack packet u count qdelay)).InOrder
  refine hfinish.push (fun f _ => Agree.of_none rfl f) (fun f hf => ?_) (fun b hb => ?_)
    fun a ha => ?_
  · refine Agree.of_later (fun a ha b hb hsame => ?_) (hfinish.counter f hf)
    cases ha
    rcases List.mem_cons.1 hf with rfl | hf
    · cases hb
    · exact ⟨hahead b (mem_returning.2 ⟨f, hf, hb⟩) hsame.symm, htime f hf b hb hsame.symm⟩
  · cases hb
  · cases ha
    exact ⟨hbehind, hacked⟩

/-- The first acknowledgment of a subflow is for the packet sent first. -/
theorem InOrder.settle {t u qdelay : ℚ} {counter : ℕ} {count : ℤ} {packet : Packet ℚ n}
    (h : (tr.owing ⟨t, counter, .ack packet u count qdelay⟩).InOrder)
    (hfirst : ∀ f ∈ tr.events, toLex (t, counter) ≤ f.key) : (tr.settle packet).InOrder := by
  have hrest := h.of_owing
  have hreturned : packet ∈ (tr.owing ⟨t, counter, .ack packet u count qdelay⟩).returning :=
    mem_returning.2 ⟨_, List.mem_cons_self, rfl⟩
  have hahead : ∀ b ∈ tr.inFlight, Precedes packet b := by
    intro b hb
    rcases mem_inFlight.1 hb with hb | hb
    · obtain ⟨f, hf, hb⟩ := mem_returning.1 hb
      exact ((List.pairwise_cons.1 h.returns).1 f hf).precedes (hfirst f hf) rfl hb
    · exact h.returning packet hreturned b hb
  exact
    { hrest with
      acknowledged := fun a ha b hb => by
        change a ∈ packet ::ₘ tr.acknowledged at ha
        rcases Multiset.mem_cons.1 ha with rfl | ha
        · exact hahead b hb
        · exact hrest.acknowledged a ha b hb
      acked := List.pairwise_cons.2 ⟨fun older holder =>
        h.acknowledged older holder packet (mem_inFlight.2 (Or.inl hreturned)), hrest.acked⟩ }

end Traffic

/-! ## Handlers -/

namespace Projection

variable {p : Projection ℚ n m} {t : ℚ} {st st' : State ℚ n m}

theorem InOrder.send {i : Fin n} (h : st.InOrder) (hsane : p.Sane t st) (hbal : st.Balanced)
    (hsend : p.send t i st = some st') : st'.InOrder := by
  rcases send_exact hsend with ⟨rfl, -⟩ | ⟨-, -, rfl⟩
  · exact h
  · refine h.launch hbal rfl (fun f hf a ha hsame => ?_) _ _ _
    have hdue := hsane.events f hf
    obtain ⟨due, counter, kind⟩ := f
    cases kind with
    | arrival link packet =>
      cases ha
      obtain ⟨-, -, -, hsent, htime⟩ := hdue
      show due ≤ t + p.case.propagation i / 2
      have hsame' : a.subflow = i := hsame
      change due = _ at htime
      rw [htime, hsame']
      linarith
    | _ => cases ha

theorem InOrder.startService {j : Fin m} (h : st.InOrder) (hsane : p.Sane t st)
    (hstart : p.startService t j st = some st') : st'.InOrder := by
  rcases startService_exact hstart with ⟨rfl, -⟩ |
    ⟨packet, arrived, queue, qdelay, -, hqueue, rfl⟩
  · exact h
  · have hlink : p.case.pathLink packet.subflow = j :=
      (hsane.queues j (packet, arrived) (hqueue ▸ List.mem_cons_self)).link
    refine h.serve hqueue (fun k b hb hsame => ?_) (fun f hf a ha hsame => ?_) _ _ _ _
    · obtain ⟨x, hx, rfl⟩ := List.mem_map.1 hb
      rw [← (hsane.queues k x hx).link, ← hsame, hlink]
    · have hdue := hsane.events f hf
      obtain ⟨due, counter, kind⟩ := f
      cases kind with
      | ack packet' u count qdelay' =>
        cases ha
        obtain ⟨-, -, hlate, -⟩ := hdue
        rw [hsame, hlink] at hlate
        exact hlate
      | _ => cases ha

/-- **One event keeps the order, if the heap hands out the first one.** -/
theorem InOrder.handle {counter : ℕ} {kind : EventKind ℚ n m} (hp : p.Valid)
    (h : (st.toTraffic.owing ⟨t, counter, kind⟩).InOrder)
    (hbal : (st.toTraffic.owing ⟨t, counter, kind⟩).Balanced) (hsane : p.Sane t st)
    (hdue : p.Due t t kind)
    (hfirst : ∀ f ∈ st.events, toLex (t, counter) ≤ f.key)
    (hhandle : p.handle t kind st = some st') : st'.InOrder := by
  cases kind with
  | arrival j packet =>
    have harrive : (p.arrive t j packet st).InOrder := h.enqueue hfirst
    exact InOrder.startService harrive (hsane.arrive hdue) hhandle
  | finish j =>
    have hfree : ({ st with busy := Function.update st.busy j false } : State ℚ n m).InOrder :=
      { h.of_owing with }
    exact InOrder.startService hfree ⟨{ hsane.values with }, hsane.events, hsane.queues⟩ hhandle
  | pace i =>
    have hfree : ({ st with pace := Function.update st.pace i false } : State ℚ n m).InOrder :=
      { h.of_owing with }
    exact InOrder.send hfree ⟨{ hsane.values with }, hsane.events, hsane.queues⟩ hbal.unpace hhandle
  | measurement j =>
    cases hhandle
    obtain ⟨due, htraffic⟩ := measure_toTraffic t j st
    rw [htraffic]
    exact h.of_owing.push_neutral due rfl rfl
  | react i =>
    cases hhandle
    exact h.of_owing.push_neutral _ rfl rfl
  | ack packet u count qdelay =>
    obtain ⟨st₂, st₃, hsane₂, htraffic, hsend, hlast⟩ := hsane.acknowledge_send hp hdue hhandle
    have horder₂ : st₂.InOrder := htraffic ▸ h.settle hfirst
    have hbal₂ : st₂.Balanced := htraffic ▸ hbal.settle
    have horder₃ : st₃.InOrder := InOrder.send horder₂ hsane₂ hbal₂ hsend
    rcases hlast with ⟨rfl, -⟩ | ⟨rfl, -⟩
    · exact horder₃
    · exact horder₃.push_neutral _ rfl rfl
  | record =>
    cases hhandle
    exact h.of_owing.push_neutral _ rfl rfl

/-! ## Every head -/

theorem Valid.order_start (hp : p.Valid) (h : p.start = some st) : st.InOrder := by
  have hboth : (p.Sane 0 st ∧ st.Balanced ∧ st.Working) ∧ st.InOrder := by
    refine start_induct (P := fun st => (p.Sane 0 st ∧ st.Balanced ∧ st.Working) ∧ st.InOrder)
      ?_ (fun st j hst => ?_) (fun st st' i hst hsend => ?_) (fun st hst => ?_) h
    · refine ⟨⟨⟨hp.initial_values, ?_, ?_⟩, p.initial_inv⟩, ?_⟩
      · exact fun e he => absurd he List.not_mem_nil
      · exact fun j x hx => absurd hx List.not_mem_nil
      · have hempty : ∀ b, b ∉ p.initial.queued := by
          intro b hb
          obtain ⟨j, hb⟩ := Traffic.mem_queued.1 hb
          exact absurd hb List.not_mem_nil
        refine ⟨?_, List.Pairwise.nil, List.Pairwise.nil, fun j => List.Pairwise.nil, ?_, ?_, ?_,
          List.Pairwise.nil⟩
        · exact fun e he => absurd he List.not_mem_nil
        · exact fun a ha => absurd ha (hempty a)
        · exact fun a ha => absurd ha (Multiset.notMem_zero a)
        · exact fun a ha => absurd ha (Multiset.notMem_zero a)
    · obtain ⟨⟨hsane, hbal, hwork⟩, horder⟩ := hst
      have hH := (hp.leastHorizon_pos j).trans_le (hsane.values.horizon j)
      exact ⟨⟨hsane.event ⟨hH.le, trivial⟩, hbal.push_neutral _ (Or.inr (Or.inl ⟨j, rfl⟩)), hwork⟩,
        horder.push_neutral _ rfl rfl⟩
    · obtain ⟨⟨hsane, hbal, hwork⟩, horder⟩ := hst
      exact ⟨⟨hsane.send hp hsend, send_inv hsend hbal hwork⟩, InOrder.send horder hsane hbal hsend⟩
    · obtain ⟨⟨hsane, hbal, hwork⟩, horder⟩ := hst
      exact ⟨⟨hsane.event ⟨le_rfl, trivial⟩, hbal.push_neutral _ (Or.inl rfl), hwork⟩,
        horder.push_neutral _ rfl rfl⟩
  exact hboth.2

theorem Valid.order (hp : p.Valid) {k : ℕ} {head : ℚ × State ℚ n m}
    (h : p.clockedHead k = some head) : head.2.InOrder := by
  have hboth : p.Run head ∧ head.2.InOrder := by
    refine EventLoop.heads_inv (fun head : ℚ × State ℚ n m => p.Run head ∧ head.2.InOrder)
      (fun head hstart => ?_) (fun head head' hinv hiter => ?_) k head h
    · obtain ⟨st, hst, rfl⟩ := Option.map_eq_some_iff.1 hstart
      exact ⟨hp.run_start hstart, hp.order_start hst⟩
    · obtain ⟨hrun, horder⟩ := hinv
      refine ⟨(hrun.step hp hiter).2.1, ?_⟩
      obtain ⟨e, events, hpop, -, -, hhandle⟩ := clocked_exact hiter
      obtain ⟨-, hdue, hsane⟩ := hrun.sane.advance hpop
      have hperm := EventLoop.pop_perm hpop
      have howing : (({ head.2 with events } : State ℚ n m).toTraffic.owing e).InOrder :=
        horder.perm hperm
      have hbal : (({ head.2 with events } : State ℚ n m).toTraffic.owing e).Balanced :=
        hrun.balanced.perm hperm
      exact InOrder.handle hp howing hbal hsane hdue (Event.pop_key hpop) hhandle
  exact hboth.2

end Projection

/-- Packets acknowledged, newest first, among those sent. -/
structure DeliveredInOrder (tr : Traffic ℚ n m) : Prop where
  order : tr.history.acked.Pairwise fun newer older => Precedes older newer
  /-- What was sent before an acknowledged packet is acknowledged. -/
  gapless : ∀ a ∈ tr.acknowledged, ∀ b ∈ tr.sent, b.subflow = a.subflow → b.serial ≤ a.serial →
    b ∈ tr.acknowledged
  /-- What is further on was sent before. -/
  pipeline : ∀ a ∈ tr.returning, ∀ b ∈ tr.queued + tr.arriving, Precedes a b

open Projection in
/-- **Every subflow is served in order.**  At the head of every iteration the packets acknowledged
are, for every subflow, the first it sent, in the order it sent them. -/
theorem in_order_delivery (p : Projection ℚ n m) (hp : p.Valid) (k : ℕ) (st : State ℚ n m)
    (h : p.head k = some st) : DeliveredInOrder st.toTraffic := by
  rw [← p.clockedHead_head k] at h
  obtain ⟨head, hhead, rfl⟩ := Option.map_eq_some_iff.1 h
  have horder := hp.order hhead
  have hbal := (hp.run hhead).balanced
  refine ⟨horder.acked, fun a ha b hb hsame hserial => ?_, horder.returning⟩
  rw [hbal.ledger] at hb
  refine (Multiset.mem_add.1 hb).resolve_left fun hflight => ?_
  exact absurd (horder.acknowledged a ha b hflight hsame.symm) (not_lt.2 hserial)

theorem in_order_delivery_one_path :
    ∃ st, onePath.head 24 = some st ∧ st.history.acked ≠ [] ∧ DeliveredInOrder st.toTraffic := by
  have hsome : ∃ st, onePath.head 24 = some st ∧ st.history.acked ≠ [] := by
    have hacked : (onePath.head 24).any fun st => !st.history.acked.isEmpty := by decide +kernel
    cases hst : onePath.head 24 with
    | none =>
      rw [hst] at hacked
      cases hacked
    | some st =>
      rw [hst] at hacked
      exact ⟨st, rfl, by simpa using hacked⟩
  obtain ⟨st, hst, hacked⟩ := hsome
  exact ⟨st, hst, hacked, in_order_delivery onePath onePath_valid 24 st hst⟩

end MpOrb.FluidModel
