import MpOrb.PacketConservation
import Mathlib.Algebra.BigOperators.Field
import Mathlib.Algebra.Order.Floor.Ring
import Mathlib.Data.Prod.Lex
import Mathlib.Tactic.FieldSimp
import Mathlib.Tactic.Positivity

/-!
# The clock of the packet projection

The packet projection in exact arithmetic, for cases with positive parameters.

* `Projection.Valid` — the parameters; `send_exact`, `startService_exact`, `acknowledge_split` —
  what a handler computes.
* `start_induct` — what the initial measurements, packets and row keep holds at the first head.
* `clockedHead` — the heads of the loop with the time of the event before them.
* `Event.key` — the heap hands out the events in the order of time and counter (`Event.pop_key`).
-/

set_option autoImplicit false

namespace MpOrb.FluidModel

open PyFloat

variable {n m : ℕ}

/-- Positive links and delays, a subflow on every link, and windows that start with a segment. -/
structure Projection.Valid (p : Projection ℚ n m) : Prop where
  capacity : ∀ j, 0 < p.case.capacity j
  propagation : ∀ i, 0 < p.case.propagation i
  charged : 0 < p.case.chargedPacketBytes
  used : ∀ j, ∃ i, p.case.pathLink i = j
  window : ∀ i, MSS ≤ p.initial.W i

namespace Projection

variable {p : Projection ℚ n m} {t : ℚ} {st st' : State ℚ n m}

/-! ## Exact arithmetic -/

/-- The time a link takes for a packet. -/
def serviceTime (p : Projection ℚ n m) (j : Fin m) : ℚ :=
  p.case.chargedPacketBytes / p.case.capacity j

theorem Valid.serviceTime_pos (hp : p.Valid) (j : Fin m) : 0 < p.serviceTime j :=
  div_pos (Int.cast_pos.2 hp.charged) (hp.capacity j)

/-- The packet that a send puts on the wire. -/
def stampedPacket (t : ℚ) (i : Fin n) (st : State ℚ n m) : Packet ℚ n where
  subflow := i
  sent := t
  taggedBase := (⌊st.baseR i * 1000000 + 1 / 2⌋ : ℤ) * (1 / 1000000)
  taggedW := encodeCwndRoundtrip (st.W i)
  serial := st.history.sends.length

/-- **A send changes the traffic only.** -/
theorem send_exact {i : Fin n} (h : p.send t i st = some st') :
    (st' = st ∧ (st.pace i = true ∨ st.W i < st.F i + MSS)) ∨
      (st.pace i = false ∧ st.F i + MSS ≤ st.W i ∧ st' = { st with
        toTraffic := st.toTraffic.launch (p.case.pathLink i) (stampedPacket t i st)
          (t + p.case.propagation i / 2) (t + st.interval i) (st.W i) }) := by
  unfold send at h
  split at h
  · rename_i hguard
    cases h
    exact Or.inl ⟨rfl, by simpa using hguard⟩
  · rename_i hguard
    cases h
    have hfree : st.pace i = false ∧ st.F i + MSS ≤ st.W i := by simpa using hguard
    exact Or.inr ⟨hfree.1, hfree.2, rfl⟩

/-- The utilization filter changes the filter of its link only. -/
theorem measureUtilization_exact (t : ℚ) (j : Fin m) (waiting : ℕ) (st : State ℚ n m) :
    ∃ u sampleSum samples, p.measureUtilization t j waiting st = { st with
      U := Function.update st.U j u
      last := Function.update st.last j (some t)
      sampleSum
      samples } := by
  unfold measureUtilization
  cases st.last j with
  | none => exact ⟨_, st.sampleSum, st.samples, rfl⟩
  | some last =>
    simp only
    split <;> exact ⟨_, _, _, rfl⟩

/-- Without logarithms there is no quantized feedback. -/
theorem quantizedFeedback_exact {u u' : ℚ} {draws draws' : ℕ}
    (h : p.quantizedFeedback u draws = some (u', draws')) : u' = u ∧ draws' = draws := by
  unfold quantizedFeedback at h
  split at h
  · cases h
  · cases h
    exact ⟨rfl, rfl⟩

/-- **A service changes the traffic and the filter of its link.** -/
theorem startService_exact {j : Fin m} (h : p.startService t j st = some st') :
    (st' = st ∧ (st.busy j = true ∨ st.queues j = [])) ∨
      ∃ packet arrived queue qdelay, st.busy j = false ∧
        st.queues j = (packet, arrived) :: queue ∧
        st' = { p.measureUtilization t j queue.length st with
          toTraffic := st.toTraffic.serve j packet queue (t + p.serviceTime j)
            (t + p.serviceTime j + p.case.propagation packet.subflow / 2)
            ((p.measureUtilization t j queue.length st).U j) qdelay (st.N j) } := by
  unfold startService at h
  split at h
  · rename_i hbusy
    cases h
    exact Or.inl ⟨rfl, Or.inl hbusy⟩
  · rename_i hbusy
    split at h
    · rename_i hqueue
      cases h
      exact Or.inl ⟨rfl, Or.inr hqueue⟩
    · rename_i packet arrived queue hqueue
      obtain ⟨⟨feedback, draws⟩, hfeedback, h⟩ := Option.bind_eq_some_iff.1 h
      obtain ⟨rfl, rfl⟩ := quantizedFeedback_exact hfeedback
      cases h
      refine Or.inr ⟨packet, arrived, queue,
        (min 4095 ⌊(t - arrived) / (64 / 1000000) + 1 / 2⌋ : ℤ) * (64 / 1000000),
        by simpa using hbusy, hqueue, ?_⟩
      unfold measureUtilization
      show State.event (State.event _ _ _) _ _ = _
      cases hlast : st.last j with
      | none =>
        have : (takeFirst j packet queue st).last j = none := hlast
        simp only [this]
        rfl
      | some last =>
        have : (takeFirst j packet queue st).last j = some last := hlast
        simp only [this]
        split <;> rfl

/-- The pacing interval after an acknowledgment. -/
def paced (i : Fin n) (st : State ℚ n m) : State ℚ n m :=
  { st with
    interval := Function.update st.interval i
      (MSS * st.s i / (12 / 10 * (max (st.W i) (st.F i) : ℤ))) }

/-- The first acknowledgment of a subflow starts its reaction timer. -/
def startReaction (t : ℚ) (i : Fin n) (st : State ℚ n m) : State ℚ n m :=
  { st with reactScheduled := Function.update st.reactScheduled i true }.event
    (t + st.s i) (.react i)

/-- **An acknowledgment goes through four stages.** -/
theorem acknowledge_split {packet : Packet ℚ n} {u qdelay : ℚ} {count : ℤ}
    (h : p.acknowledge t packet u count qdelay st = some st') :
    ∃ st₁ st₂ st₃, updateRtt t packet.subflow packet.sent qdelay
        { st with toTraffic := st.toTraffic.settle packet } = some st₁ ∧
      p.updateWindow packet.subflow u count st₁ = some st₂ ∧
      p.send t packet.subflow (paced packet.subflow st₂) = some st₃ ∧
      ((st' = st₃ ∧ st₃.reactScheduled packet.subflow = true) ∨
        (st' = startReaction t packet.subflow st₃ ∧
          st₃.reactScheduled packet.subflow = false)) := by
  unfold acknowledge at h
  obtain ⟨st₁, h₁, h⟩ := Option.bind_eq_some_iff.1 h
  obtain ⟨st₂, h₂, h⟩ := Option.bind_eq_some_iff.1 h
  obtain ⟨st₃, h₃, h⟩ := Option.bind_eq_some_iff.1 h
  refine ⟨st₁, st₂, st₃, h₁, h₂, h₃, ?_⟩
  split at h
  · rename_i hreact
    cases h
    exact Or.inl ⟨rfl, hreact⟩
  · rename_i hreact
    cases h
    exact Or.inr ⟨rfl, by simpa using hreact⟩

theorem measure_exact (t : ℚ) (j : Fin m) (st : State ℚ n m) :
    ∃ N H ids moments, measure t j st =
      { st with N, H, ids, moments }.event (t + H j) (.measurement j) := by
  unfold measure
  simp only
  split <;> exact ⟨_, _, _, _, rfl⟩

/-- **What the arrays before the first event have, and every stage of the start keeps.** -/
theorem start_induct {P : State ℚ n m → Prop} (hinitial : P p.initial)
    (hmeasurement : ∀ st j, P st → P (st.event (st.H j) (.measurement j)))
    (hsend : ∀ st st' i, P st → p.send 0 i st = some st' → P st')
    (hrecord : ∀ st, P st → P (st.event 0 .record)) (h : p.start = some st) : P st := by
  have hmeasurements : ∀ (links : List (Fin m)) (st : State ℚ n m), P st →
      P (links.foldl (fun st j => st.event (st.H j) (.measurement j)) st) := by
    intro links
    induction links with
    | nil => exact fun st hst => hst
    | cons j rest ih => exact fun st hst => ih _ (hmeasurement st j hst)
  have hsends : ∀ (subflows : List (Fin n)) (st st' : State ℚ n m), P st →
      subflows.foldlM (fun st i => p.send 0 i st) st = some st' → P st' := by
    intro subflows
    induction subflows with
    | nil =>
      intro st st' hst h
      cases h
      exact hst
    | cons i rest ih =>
      intro st st' hst h
      rw [List.foldlM_cons] at h
      obtain ⟨st₁, h₁, hrest⟩ := Option.bind_eq_some_iff.1 h
      exact ih st₁ st' (hsend st st₁ i hst h₁) hrest
  unfold start at h
  obtain ⟨sent, hsent, h⟩ := Option.bind_eq_some_iff.1 h
  cases h
  exact hrecord sent (hsends _ _ _ (hmeasurements _ _ hinitial) hsent)

/-! ## The clock -/

/-- The time of the next event. -/
def nextTime (st : State ℚ n m) : Option ℚ :=
  (EventLoop.pop Event.before st.events).map fun next => next.1.t

/-- The state at the head of every iteration, with the time of the event before it. -/
def clockedHead (p : Projection ℚ n m) : ℕ → Option (ℚ × State ℚ n m) :=
  EventLoop.heads (EventLoop.clocked nextTime p.iteration) (p.start.map fun st => (0, st))

theorem iteration_exact (h : p.iteration st = some st') :
    ∃ e events, EventLoop.pop Event.before st.events = some (e, events) ∧ e.t ≤ p.duration ∧
      p.handle e.t e.kind { st with events } = some st' := by
  unfold iteration at h
  split at h
  · cases h
  · rename_i e events hpop
    split at h
    · cases h
    · rename_i hduration
      exact ⟨e, events, hpop, by simpa using hduration, h⟩

theorem clockedHead_head (p : Projection ℚ n m) (k : ℕ) :
    (p.clockedHead k).map Prod.snd = p.head k := by
  apply EventLoop.heads_clocked
  intro st st' h
  obtain ⟨e, events, hpop, -⟩ := iteration_exact h
  exact ⟨e.t, by rw [nextTime, hpop]; rfl⟩

theorem clocked_exact {now now' : ℚ}
    (h : EventLoop.clocked nextTime p.iteration (now, st) = some (now', st')) :
    ∃ e events, EventLoop.pop Event.before st.events = some (e, events) ∧ now' = e.t ∧
      e.t ≤ p.duration ∧ p.handle e.t e.kind { st with events } = some st' := by
  obtain ⟨t, ht, h⟩ := Option.bind_eq_some_iff.1 h
  obtain ⟨st₁, hiter, h⟩ := Option.map_eq_some_iff.1 h
  obtain ⟨e, events, hpop, hduration, hhandle⟩ := iteration_exact hiter
  rw [nextTime, hpop] at ht
  cases ht
  cases h
  exact ⟨e, events, hpop, rfl, hduration, hhandle⟩

end Projection

/-- The order of the heap: by time, then by counter. -/
def Event.key (e : Event ℚ n m) : ℚ ×ₗ ℕ := toLex (e.t, e.counter)

theorem Event.before_iff (e f : Event ℚ n m) : e.before f = true ↔ e.key < f.key := by
  unfold Event.before Event.key
  rw [Prod.Lex.toLex_lt_toLex]
  show (if decide (e.t = f.t) = true then _ else _) = true ↔ _
  by_cases ht : e.t = f.t
  · simp [ht]
  · simp [ht]

/-- **The next event has the least key.** -/
theorem Event.pop_key {events others : List (Event ℚ n m)} {e : Event ℚ n m}
    (h : EventLoop.pop Event.before events = some (e, others)) : ∀ f ∈ others, e.key ≤ f.key := by
  refine EventLoop.pop_le (fun e f hlt => ((e.before_iff f).1 hlt).le) (fun e f hge => ?_) h
  refine not_lt.1 fun hlt => ?_
  rw [(e.before_iff f).2 hlt] at hge
  cases hge

theorem Event.time_le_of_key_le {e f : Event ℚ n m} (h : e.key ≤ f.key) : e.t ≤ f.t := by
  rcases Prod.Lex.toLex_le_toLex.1 h with hlt | heq
  · exact hlt.le
  · exact heq.1.le

end MpOrb.FluidModel
