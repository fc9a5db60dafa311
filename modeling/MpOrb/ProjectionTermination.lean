import MpOrb.ProjectionCapacity

/-!
# The packet projection returns

The loop ends for every case with positive parameters.  An iteration decreases, in this order, the
packets the links can still take before the end, the acknowledgments under way, the segments the
windows have room for, and the weight of the other pending events, in which a timer counts how often
it can still go off.

* `servicesLeft`, `room`, `agenda` — the parts of the measure; `rank` — the measure.
* `rank_handle` — every event decreases it.
* `Valid.terminates` — the loop ends.
-/

set_option autoImplicit false

namespace MpOrb.FluidModel

variable {n m : ℕ}

namespace Projection

variable {p : Projection ℚ n m} {t : ℚ} {st st' : State ℚ n m}

/-! ## The measure -/

/-- How many packets a link can take until the end. -/
def serviceLimit (p : Projection ℚ n m) (j : Fin m) : ℕ := ⌊p.duration / p.serviceTime j⌋₊ + 1

def servicesLeft (p : Projection ℚ n m) (tr : Traffic ℚ n m) : ℕ :=
  ∑ j, (p.serviceLimit j - (tr.history.served j).length)

/-- The segments that fit into the windows. -/
def room (st : State ℚ n m) : ℕ := ∑ i, ((st.W i - st.F i) / MSS).toNat

/-- How often a timer can still go off. -/
def ticks (p : Projection ℚ n m) (period t : ℚ) : ℕ := (⌊(p.duration - t) / period⌋ + 1).toNat

def eventWeight (p : Projection ℚ n m) (s : Fin n → ℚ) (e : Event ℚ n m) : ℕ :=
  match e.kind with
  | .measurement j => p.ticks (p.leastHorizon j) e.t
  | .react i => p.ticks (s i) e.t
  | .record => p.ticks (1 / 100) e.t
  | _ => 1

def agenda (p : Projection ℚ n m) (st : State ℚ n m) : ℕ :=
  (st.events.map (p.eventWeight st.s)).sum

/-- What every iteration makes smaller, lexicographically. -/
def rank (p : Projection ℚ n m) (st : State ℚ n m) : ℕ ×ₗ ℕ ×ₗ ℕ ×ₗ ℕ :=
  toLex (p.servicesLeft st.toTraffic,
    toLex (st.returning.card, toLex (room st, p.agenda st)))

/-- A timer that goes off before the end and starts again has less left. -/
theorem ticks_lt {period t t' : ℚ} (hperiod : 0 < period) (ht : t ≤ p.duration)
    (hnext : t + period ≤ t') : p.ticks period t' < p.ticks period t := by
  have hnow : 0 ≤ ⌊(p.duration - t) / period⌋ :=
    Int.floor_nonneg.2 (div_nonneg (by linarith) hperiod.le)
  have hlater : (p.duration - t') / period ≤ (p.duration - t) / period - 1 := by
    rw [div_sub_one hperiod.ne', div_le_div_iff_of_pos_right hperiod]
    linarith
  have hfloor : ⌊(p.duration - t') / period⌋ ≤ ⌊(p.duration - t) / period⌋ - 1 := by
    rw [← Int.floor_sub_one]
    exact Int.floor_mono hlater
  unfold ticks
  omega

theorem rank_lt_iff : p.rank st' < p.rank st ↔
    p.servicesLeft st'.toTraffic < p.servicesLeft st.toTraffic ∨
      p.servicesLeft st'.toTraffic = p.servicesLeft st.toTraffic ∧
        (st'.returning.card < st.returning.card ∨ st'.returning.card = st.returning.card ∧
          (room st' < room st ∨ room st' = room st ∧ p.agenda st' < p.agenda st)) := by
  unfold rank
  simp only [Prod.Lex.toLex_lt_toLex]

/-! ## What handlers do to the measure -/

theorem servicesLeft_startService {j : Fin m} (h : p.startService t j st = some st')
    (hlimit : ∀ j, (st'.history.served j).length ≤ p.serviceLimit j) :
    st' = st ∨ p.servicesLeft st'.toTraffic < p.servicesLeft st.toTraffic := by
  rcases startService_exact h with ⟨rfl, -⟩ | ⟨packet, arrived, queue, qdelay, -, -, rfl⟩
  · exact Or.inl rfl
  · refine Or.inr (Finset.sum_lt_sum (fun k _ => Nat.sub_le_sub_left ?_ _)
      ⟨j, Finset.mem_univ j, ?_⟩)
    · show _ ≤ (Function.update st.history.served j (st.history.served j ++ [packet]) k).length
      by_cases hk : k = j
      · subst hk
        simp
      · rw [Function.update_of_ne hk]
    · have hone : (Function.update st.history.served j (st.history.served j ++ [packet]) j).length =
          (st.history.served j).length + 1 := by simp
      have hle := hlimit j
      change (Function.update st.history.served j (st.history.served j ++ [packet]) j).length ≤ _
        at hle
      show p.serviceLimit j - (Function.update st.history.served j
        (st.history.served j ++ [packet]) j).length < _
      omega

theorem room_send {i : Fin n} (h : p.send t i st = some st') :
    st' = st ∨ (p.servicesLeft st'.toTraffic = p.servicesLeft st.toTraffic ∧
      st'.returning = st.returning ∧ room st' < room st) := by
  rcases send_exact h with ⟨rfl, -⟩ | ⟨-, hroom, rfl⟩
  · exact Or.inl rfl
  · refine Or.inr ⟨rfl, rfl, Finset.sum_lt_sum (fun k _ => ?_) ⟨i, Finset.mem_univ i, ?_⟩⟩
    · show ((st.W k - Function.update st.F i (st.F i + MSS) k) / MSS).toNat ≤ _
      by_cases hk : k = i
      · subst hk
        rw [Function.update_self]
        unfold MSS
        omega
      · rw [Function.update_of_ne hk]
    · show ((st.W i - Function.update st.F i (st.F i + MSS) i) / MSS).toNat < _
      rw [Function.update_self]
      unfold MSS at hroom ⊢
      omega

theorem agenda_owing (p : Projection ℚ n m) (st : State ℚ n m) (e : Event ℚ n m) :
    p.agenda { st with events := e :: st.events } = p.eventWeight st.s e + p.agenda st :=
  List.sum_cons

theorem returning_owing (st : State ℚ n m) {e : Event ℚ n m} (he : e.kind.returning = none) :
    (st.toTraffic.owing e).returning = st.returning :=
  congrArg (fun l : List (Packet ℚ n) => (l : Multiset (Packet ℚ n))) (List.filterMap_cons_none he)

theorem rank_perm {events : List (Event ℚ n m)} (hperm : events.Perm st.events) :
    p.rank { st with events } = p.rank st := by
  have hreturning : ({ st with events } : State ℚ n m).returning = st.returning :=
    Multiset.coe_eq_coe.2 (hperm.filterMap _)
  have hagenda : p.agenda { st with events } = p.agenda st := (hperm.map _).sum_eq
  unfold rank
  rw [hreturning, hagenda]
  rfl

/-- An event that only leaves the agenda lighter. -/
theorem rank_lt_of_agenda {e : Event ℚ n m} (he : e.kind.returning = none)
    (hservices : p.servicesLeft st'.toTraffic = p.servicesLeft st.toTraffic)
    (hreturning : st'.returning = st.returning) (hroom : room st' = room st)
    (hagenda : p.agenda st' < p.eventWeight st.s e + p.agenda st) :
    p.rank st' < p.rank { st with events := e :: st.events } := by
  rw [rank_lt_iff, agenda_owing]
  have hback : ({ st with events := e :: st.events } : State ℚ n m).returning = st.returning :=
    returning_owing st he
  rw [hback, hreturning]
  exact Or.inr ⟨hservices, Or.inr ⟨rfl, Or.inr ⟨hroom, hagenda⟩⟩⟩

/-- **Every event decreases the measure.** -/
theorem rank_handle (hp : p.Valid) {e : Event ℚ n m} (hsane : p.Sane e.t st)
    (hdue : p.Due e.t e.t e.kind) (hend : e.t ≤ p.duration)
    (hlimit : ∀ j, (st'.history.served j).length ≤ p.serviceLimit j)
    (hhandle : p.handle e.t e.kind st = some st') :
    p.rank st' < p.rank { st with events := e :: st.events } := by
  obtain ⟨t, counter, kind⟩ := e
  change p.Sane t st at hsane
  change p.Due t t kind at hdue
  change t ≤ p.duration at hend
  change p.handle t kind st = some st' at hhandle
  cases kind with
  | arrival j packet =>
    rcases servicesLeft_startService hhandle hlimit with rfl | hless
    · exact rank_lt_of_agenda rfl rfl rfl rfl (Nat.lt_add_of_pos_left Nat.one_pos)
    · exact rank_lt_iff.2 (Or.inl hless)
  | finish j =>
    rcases servicesLeft_startService hhandle hlimit with rfl | hless
    · exact rank_lt_of_agenda rfl rfl rfl rfl (Nat.lt_add_of_pos_left Nat.one_pos)
    · exact rank_lt_iff.2 (Or.inl hless)
  | pace i =>
    have hsend : p.send t i { st with pace := Function.update st.pace i false } = some st' :=
      hhandle
    rcases room_send hsend with rfl | ⟨hservices, hreturning, hroom⟩
    · exact rank_lt_of_agenda rfl rfl rfl rfl (Nat.lt_add_of_pos_left Nat.one_pos)
    · refine rank_lt_iff.2 (Or.inr ⟨hservices, Or.inr ⟨?_, Or.inl hroom⟩⟩)
      rw [hreturning]
      rfl
  | measurement j =>
    cases hhandle
    have hvalues := hsane.values.measure (t := t) hp j
    obtain ⟨N, H, ids, moments, hmeasure⟩ := measure_exact t j st
    rw [hmeasure] at hvalues ⊢
    have hnext := ticks_lt (hp.leastHorizon_pos j) hend
      (add_le_add_right (hvalues.horizon j) t)
    exact rank_lt_of_agenda rfl rfl rfl rfl (Nat.add_lt_add_right hnext _)
  | react i =>
    cases hhandle
    have hnext := ticks_lt (hsane.values.srtt i) hend (le_refl (t + st.s i))
    exact rank_lt_of_agenda rfl rfl rfl rfl (Nat.add_lt_add_right hnext _)
  | ack packet u count qdelay =>
    obtain ⟨st₁, st₂, hsettled, hsend, hrest⟩ := acknowledge_cases hhandle
    have hsent : p.servicesLeft st₂.toTraffic = p.servicesLeft st.toTraffic ∧
        st₂.returning = st.returning := by
      rcases send_cases hsend with rfl | ⟨packet', t₁, t₂, -, -, -, -, htraffic⟩
      · rw [hsettled]
        exact ⟨rfl, rfl⟩
      · rw [htraffic, hsettled]
        exact ⟨rfl, rfl⟩
    have hdone : p.servicesLeft st'.toTraffic = p.servicesLeft st.toTraffic ∧
        st'.returning = st.returning := by
      rcases hrest with hsame | ⟨due, hreact⟩
      · rw [hsame]
        exact hsent
      · rw [hreact]
        exact hsent
    refine rank_lt_iff.2 (Or.inr ⟨hdone.1, Or.inl ?_⟩)
    rw [hdone.2]
    show st.returning.card < (packet ::ₘ st.returning).card
    rw [Multiset.card_cons]
    exact Nat.lt_succ_self _
  | record =>
    cases hhandle
    have hnext : p.ticks (1 / 100) (t + 1 / 100) < p.ticks (1 / 100) t :=
      ticks_lt (by norm_num) hend le_rfl
    exact rank_lt_of_agenda rfl rfl rfl rfl (Nat.add_lt_add_right hnext _)

/-! ## The loop -/

/-- The links cannot have taken more packets by the end. -/
theorem Run.served_le_limit (hp : p.Valid) {head : ℚ × State ℚ n m} (h : p.Run head)
    (hend : head.1 ≤ p.duration) (j : Fin m) :
    (head.2.history.served j).length ≤ p.serviceLimit j := by
  have hservice := hp.serviceTime_pos j
  have hserved := h.served_le hp j
  have hle : head.1 / p.serviceTime j ≤ p.duration / p.serviceTime j :=
    div_le_div_of_nonneg_right hend hservice.le
  have hfloor := Nat.lt_floor_add_one (p.duration / p.serviceTime j)
  have hcast : ((head.2.history.served j).length : ℚ) <
      (⌊p.duration / p.serviceTime j⌋₊ + 1 + 1 : ℕ) := by
    push_cast
    linarith
  exact Nat.lt_succ_iff.1 (Nat.cast_lt.1 hcast)

/-- **Every iteration decreases the measure.** -/
theorem Run.rank_lt (hp : p.Valid) {head head' : ℚ × State ℚ n m} (h : p.Run head)
    (hiter : EventLoop.clocked nextTime p.iteration head = some head') :
    head'.1 ≤ p.duration ∧ p.rank head'.2 < p.rank head.2 := by
  obtain ⟨-, hrun', -⟩ := h.step hp hiter
  obtain ⟨e, events, hpop, hnow, hend, hhandle⟩ := clocked_exact hiter
  rw [← hnow] at hend
  obtain ⟨-, hdue, hsane⟩ := h.sane.advance hpop
  have hless := rank_handle hp hsane hdue (hnow ▸ hend) (hrun'.served_le_limit hp hend) hhandle
  exact ⟨hend, hless.trans_eq (rank_perm (EventLoop.pop_perm hpop))⟩

/-- **The loop ends.** -/
theorem Valid.terminates (hp : p.Valid) : ∃ k, p.clockedHead k = none := by
  have hwf : WellFounded fun head' head : ℚ × State ℚ n m => p.rank head'.2 < p.rank head.2 :=
    InvImage.wf (fun head : ℚ × State ℚ n m => p.rank head.2) wellFounded_lt
  exact EventLoop.heads_terminate p.Run hwf (fun _ => hp.run_start)
    (fun _ _ hrun hiter => (hrun.step hp hiter).2.1)
    fun _ _ hrun hiter => (hrun.rank_lt hp hiter).2

end Projection

end MpOrb.FluidModel
