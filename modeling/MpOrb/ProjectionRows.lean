import MpOrb.ProjectionTermination

/-!
# What the packet projection returns

* `Timer`, `alarms` — the pending timers with their times.
* `Ticking` — the running timers and the rows so far; `Ticking.handle` — every event keeps it.
* `handle_total` — no handler raises.
* `projection_returns` — the loop ends after `duration`, with a row for every 10 ms.
-/

set_option autoImplicit false

namespace MpOrb.FluidModel

variable {n m : ℕ}

/-! ## Timers -/

/-- What goes off again and again. -/
inductive Timer (n m : ℕ) where
  | measurement (link : Fin m)
  | react (subflow : Fin n)
  | record
  deriving DecidableEq

def EventKind.timer : EventKind ℚ n m → Option (Timer n m)
  | .measurement j => some (.measurement j)
  | .react i => some (.react i)
  | .record => some .record
  | _ => none

/-- Measurements and records always run, a reaction timer from the first acknowledgment on. -/
def State.running (st : State ℚ n m) : Timer n m → Bool
  | .react i => st.reactScheduled i
  | _ => true

/-- The pending timers with their times. -/
def alarms (events : List (Event ℚ n m)) : List (ℚ × Timer n m) :=
  events.filterMap fun e => e.kind.timer.map fun τ => (e.t, τ)

theorem alarms_cons_none {e : Event ℚ n m} (he : e.kind.timer = none)
    (events : List (Event ℚ n m)) : alarms (e :: events) = alarms events :=
  List.filterMap_cons_none (by rw [he]; rfl)

theorem alarms_cons_some {e : Event ℚ n m} {τ : Timer n m} (he : e.kind.timer = some τ)
    (events : List (Event ℚ n m)) : alarms (e :: events) = (e.t, τ) :: alarms events :=
  List.filterMap_cons_some (by rw [he]; rfl)

namespace Projection

variable {p : Projection ℚ n m} {t : ℚ} {st st' : State ℚ n m}

/-- Timers and rows are as they were. -/
structure SameTimers (st st' : State ℚ n m) : Prop where
  alarms : alarms st'.events = alarms st.events
  reactScheduled : st'.reactScheduled = st.reactScheduled
  rows : st'.rows = st.rows

theorem SameTimers.refl (st : State ℚ n m) : SameTimers st st := ⟨rfl, rfl, rfl⟩

theorem sameTimers_send {i : Fin n} (h : p.send t i st = some st') : SameTimers st st' := by
  rcases send_exact h with ⟨rfl, -⟩ | ⟨-, -, rfl⟩
  · exact .refl _
  · exact ⟨rfl, rfl, rfl⟩

theorem sameTimers_startService {j : Fin m} (h : p.startService t j st = some st') :
    SameTimers st st' := by
  rcases startService_exact h with ⟨rfl, -⟩ | ⟨packet, arrived, queue, qdelay, -, -, rfl⟩
  · exact .refl _
  · obtain ⟨u, sampleSum, samples, hmeasure⟩ := p.measureUtilization_exact t j queue.length st
    rw [hmeasure]
    exact ⟨rfl, rfl, rfl⟩

theorem updateWindow_timers {i : Fin n} {u : ℚ} {count : ℤ}
    (h : p.updateWindow i u count st = some st') :
    st'.reactScheduled = st.reactScheduled ∧ st'.rows = st.rows := by
  unfold updateWindow at h
  split at h
  · obtain ⟨⟨a, residual⟩, -, h⟩ := Option.bind_eq_some_iff.1 h
    obtain ⟨target, -, h⟩ := Option.bind_eq_some_iff.1 h
    simp only at h
    split at h <;> cases h <;> exact ⟨rfl, rfl⟩
  · cases h
    exact ⟨rfl, rfl⟩

/-- An acknowledgment starts at most the reaction timer of its subflow. -/
theorem timers_acknowledge {packet : Packet ℚ n} {u qdelay : ℚ} {count : ℤ}
    (h : p.acknowledge t packet u count qdelay st = some st') :
    SameTimers st st' ∨ ∃ due, st.reactScheduled packet.subflow = false ∧
      alarms st'.events = (due, .react packet.subflow) :: alarms st.events ∧
      st'.reactScheduled = Function.update st.reactScheduled packet.subflow true ∧
      st'.rows = st.rows := by
  obtain ⟨st₁, st₂, st₃, h₁, h₂, h₃, hlast⟩ := acknowledge_split h
  have hrtt : st₁.reactScheduled = st.reactScheduled ∧ st₁.rows = st.rows := by
    obtain ⟨rawR, s, baseR, -, -, -, rfl⟩ := updateRtt_exact h₁
    exact ⟨rfl, rfl⟩
  obtain ⟨hreact₂, hrows₂⟩ := updateWindow_timers h₂
  have htraffic : st₂.toTraffic = st.toTraffic.settle packet :=
    (updateWindow_toTraffic h₂).trans (updateRtt_toTraffic h₁)
  have hsent := sameTimers_send h₃
  have hsame : SameTimers st st₃ := by
    refine ⟨hsent.alarms.trans ?_, hsent.reactScheduled.trans (hreact₂.trans hrtt.1),
      hsent.rows.trans (hrows₂.trans hrtt.2)⟩
    show FluidModel.alarms st₂.events = _
    rw [htraffic]
    rfl
  rcases hlast with ⟨rfl, -⟩ | ⟨rfl, hidle⟩
  · exact Or.inl hsame
  · refine Or.inr ⟨t + st₃.s packet.subflow, by rw [← hsame.reactScheduled, hidle], ?_, ?_,
      hsame.rows⟩
    · show _ :: FluidModel.alarms st₃.events = _
      rw [hsame.alarms]
    · show Function.update st₃.reactScheduled _ _ = _
      rw [hsame.reactScheduled]

/-! ## Timers and rows -/

/-- A row stays within the capacity of every link. -/
def RowBound (p : Projection ℚ n m) (row : Row ℚ n m) : Prop :=
  ∀ j, ((∑ i with p.case.pathLink i = j, row.delivered i : ℤ) : ℚ) ≤
    MSS * (row.t / p.serviceTime j + 1)

/-- Every timer runs once, and there is a row for every 10 ms. -/
structure Ticking (p : Projection ℚ n m) (now : ℚ) (st : State ℚ n m) : Prop where
  timers : Flagged (fun τ => (alarms st.events).countP fun x => x.2 = τ) st.running
  record : ∀ x ∈ alarms st.events, x.2 = .record → x.1 = st.rows.length / 100
  rows : ∀ (i : ℕ) (row : Row ℚ n m), st.rows[i]? = some row → row.t = i / 100 ∧ p.RowBound row
  last : (st.rows.length - 1 : ℚ) / 100 ≤ now

theorem running_congr (h : st'.reactScheduled = st.reactScheduled) : st'.running = st.running := by
  funext τ
  cases τ with
  | react i => exact congrFun h i
  | _ => rfl

theorem Ticking.of_same {now : ℚ} (h : p.Ticking now st) (hsame : SameTimers st st') :
    p.Ticking now st' := by
  refine ⟨?_, ?_, ?_, ?_⟩
  · rw [running_congr hsame.reactScheduled]
    simp only [hsame.alarms]
    exact h.timers
  · rw [hsame.alarms, hsame.rows]
    exact h.record
  · rw [hsame.rows]
    exact h.rows
  · rw [hsame.rows]
    exact h.last

theorem Ticking.of_owing {now : ℚ} {e : Event ℚ n m} (he : e.kind.timer = none)
    (h : p.Ticking now { st with events := e :: st.events }) : p.Ticking now st := by
  have halarms : alarms ({ st with events := e :: st.events } : State ℚ n m).events =
      alarms st.events := alarms_cons_none he st.events
  exact h.of_same ⟨halarms.symm, rfl, rfl⟩

theorem Ticking.restart {now t t' : ℚ} {counter : ℕ} {kind : EventKind ℚ n m} {τ : Timer n m}
    (hτ : kind.timer = some τ) (hrecord : τ ≠ .record)
    (h : p.Ticking now { st with events := ⟨t, counter, kind⟩ :: st.events })
    (halarms : alarms st'.events = (t', τ) :: alarms st.events)
    (hreact : st'.reactScheduled = st.reactScheduled) (hrows : st'.rows = st.rows) :
    p.Ticking now st' := by
  have hbefore : alarms ({ st with events := ⟨t, counter, kind⟩ :: st.events } :
      State ℚ n m).events = (t, τ) :: alarms st.events := alarms_cons_some hτ st.events
  obtain ⟨htimers, hrecords, hrowsBefore, hlast⟩ := h
  simp only [hbefore, List.countP_cons] at htimers
  rw [hbefore] at hrecords
  refine ⟨?_, ?_, ?_, ?_⟩
  · simp only [halarms, List.countP_cons]
    rw [running_congr hreact]
    exact htimers
  · rw [halarms, hrows]
    exact List.forall_mem_cons.2 ⟨fun hsame => absurd hsame hrecord,
      (List.forall_mem_cons.1 hrecords).2⟩
  · rw [hrows]
    exact hrowsBefore
  · rw [hrows]
    exact hlast

/-- The first acknowledgment of a subflow starts its timer. -/
theorem Ticking.react {now due : ℚ} {i : Fin n} (h : p.Ticking now st)
    (hidle : st.reactScheduled i = false) (halarms : alarms st'.events = (due, .react i) ::
      alarms st.events)
    (hreact : st'.reactScheduled = Function.update st.reactScheduled i true)
    (hrows : st'.rows = st.rows) : p.Ticking now st' := by
  have hrunning : st'.running = Function.update st.running (.react i) true := by
    funext τ
    cases τ with
    | react k =>
      show st'.reactScheduled k = _
      rw [hreact]
      by_cases hk : k = i
      · subst hk
        rw [Function.update_self, Function.update_self]
      · rw [Function.update_of_ne hk, Function.update_of_ne fun heq => hk (Timer.react.inj heq)]
        rfl
    | measurement j => rfl
    | record => rfl
  refine ⟨?_, ?_, ?_, ?_⟩
  · rw [hrunning]
    refine h.timers.raise hidle fun τ => ?_
    rw [halarms, List.countP_cons]
    simp only [decide_eq_true_eq]
  · rw [halarms, hrows]
    exact List.forall_mem_cons.2 ⟨nofun, h.record⟩
  · rw [hrows]
    exact h.rows
  · rw [hrows]
    exact h.last

theorem Ticking.recorded {counter : ℕ}
    (h : p.Ticking t { st with events := ⟨t, counter, .record⟩ :: st.events })
    (hbound : ∀ j, ((∑ i with p.case.pathLink i = j, st.delivered i : ℤ) : ℚ) ≤
      MSS * (t / p.serviceTime j + 1)) : p.Ticking t (p.recordRow t st) := by
  have hbefore : alarms ({ st with events := ⟨t, counter, .record⟩ :: st.events } :
      State ℚ n m).events = (t, .record) :: alarms st.events := alarms_cons_some rfl st.events
  obtain ⟨htimers, hrecords, hrows, -⟩ := h
  simp only [hbefore, List.countP_cons] at htimers
  rw [hbefore] at hrecords
  have ht : t = st.rows.length / 100 := (List.forall_mem_cons.1 hrecords).1 rfl
  have hothers : ∀ x ∈ alarms st.events, x.2 ≠ .record := by
    have hone := htimers .record
    have hzero : (alarms st.events).countP (fun x => x.2 = Timer.record) = 0 := by
      simpa [State.running] using hone
    intro x hx hrecord
    have hpos := List.countP_pos_iff (p := fun x => x.2 = Timer.record).2
      ⟨x, hx, decide_eq_true hrecord⟩
    omega
  refine ⟨?_, ?_, ?_, ?_⟩
  · show Flagged (fun τ => ((t + 1 / 100, Timer.record) :: alarms st.events).countP
      fun x => x.2 = τ) st.running
    simp only [List.countP_cons]
    exact htimers
  · refine List.forall_mem_cons.2 ⟨fun _ => ?_, fun x hx hrecord => absurd hrecord (hothers x hx)⟩
    show t + 1 / 100 = ((st.rows ++ [_]).length : ℚ) / 100
    rw [List.length_append, List.length_singleton, ht]
    push_cast
    ring
  · intro i row hrow
    change (st.rows ++ [_])[i]? = some row at hrow
    rw [List.getElem?_append] at hrow
    split at hrow
    · exact hrows i row hrow
    · rename_i hlength
      obtain ⟨hi, rfl⟩ := List.getElem?_eq_some_iff.1 hrow
      have hlast : i = st.rows.length := by
        rw [List.length_singleton] at hi
        omega
      subst hlast
      simp only [Nat.sub_self, List.getElem_singleton]
      exact ⟨ht, hbound⟩
  · show (((st.rows ++ [_]).length : ℚ) - 1) / 100 ≤ t
    rw [List.length_append, List.length_singleton, ht]
    push_cast
    linarith

/-- The order of the heap does not matter, and the clock runs on. -/
theorem Ticking.perm {now : ℚ} {events : List (Event ℚ n m)} (h : p.Ticking now st)
    (hperm : events.Perm st.events) (hnow : now ≤ t) : p.Ticking t { st with events } := by
  have halarms : (alarms events).Perm (alarms st.events) := hperm.filterMap _
  refine ⟨fun τ => ?_, fun x hx => h.record x (halarms.subset hx), h.rows, h.last.trans hnow⟩
  exact (halarms.countP_eq _).trans (h.timers τ)

/-- **Every event keeps the timers and the rows.** -/
theorem Ticking.handle {counter : ℕ} {kind : EventKind ℚ n m}
    (h : p.Ticking t { st with events := ⟨t, counter, kind⟩ :: st.events })
    (hbound : ∀ j, ((∑ i with p.case.pathLink i = j, st.delivered i : ℤ) : ℚ) ≤
      MSS * (t / p.serviceTime j + 1))
    (hhandle : p.handle t kind st = some st') : p.Ticking t st' := by
  cases kind with
  | arrival j packet =>
    have harrived : p.Ticking t (p.arrive t j packet st) := (h.of_owing rfl).of_same ⟨rfl, rfl, rfl⟩
    exact harrived.of_same (sameTimers_startService hhandle)
  | finish j =>
    have hfree : p.Ticking t { st with busy := Function.update st.busy j false } :=
      (h.of_owing rfl).of_same ⟨rfl, rfl, rfl⟩
    exact hfree.of_same (sameTimers_startService hhandle)
  | pace i =>
    have hfree : p.Ticking t { st with pace := Function.update st.pace i false } :=
      (h.of_owing rfl).of_same ⟨rfl, rfl, rfl⟩
    exact hfree.of_same (sameTimers_send hhandle)
  | measurement j =>
    cases hhandle
    obtain ⟨N, H, ids, moments, hmeasure⟩ := measure_exact t j st
    have hother : (Timer.measurement j : Timer n m) ≠ .record := nofun
    rw [hmeasure]
    exact h.restart rfl hother rfl rfl rfl
  | react i =>
    cases hhandle
    have hother : (Timer.react i : Timer n m) ≠ .record := nofun
    exact h.restart rfl hother rfl rfl rfl
  | ack packet u count qdelay =>
    have hdone := h.of_owing rfl
    rcases timers_acknowledge hhandle with hsame | ⟨due, hidle, halarms, hreact, hrows⟩
    · exact hdone.of_same hsame
    · exact hdone.react hidle halarms hreact hrows
  | record =>
    cases hhandle
    exact h.recorded hbound

/-! ## The start -/

theorem measurements_timers (links : List (Fin m)) (st : State ℚ n m) :
    let st' := links.foldl (fun st j => st.event (st.H j) (.measurement j)) st
    alarms st'.events = (links.map fun j => (st.H j, Timer.measurement j)).reverse ++
        alarms st.events ∧
      st'.reactScheduled = st.reactScheduled ∧ st'.rows = st.rows := by
  induction links generalizing st with
  | nil => exact ⟨rfl, rfl, rfl⟩
  | cons j rest ih =>
    obtain ⟨halarms, hreact, hrows⟩ := ih (st.event (st.H j) (.measurement j))
    refine ⟨halarms.trans ?_, hreact, hrows⟩
    rw [List.map_cons, List.reverse_cons, List.append_assoc]
    rfl

theorem sameTimers_sends (subflows : List (Fin n)) {st st' : State ℚ n m}
    (h : subflows.foldlM (fun st i => p.send 0 i st) st = some st') : SameTimers st st' := by
  induction subflows generalizing st with
  | nil =>
    cases h
    exact .refl _
  | cons i rest ih =>
    rw [List.foldlM_cons] at h
    obtain ⟨st₁, h₁, hrest⟩ := Option.bind_eq_some_iff.1 h
    have hsent := sameTimers_send h₁
    have hothers := ih hrest
    exact ⟨hothers.alarms.trans hsent.alarms, hothers.reactScheduled.trans hsent.reactScheduled,
      hothers.rows.trans hsent.rows⟩

/-- At first there is one timer for every link and one for the rows. -/
theorem start_ticking (h : p.start = some st) : p.Ticking 0 st := by
  unfold start at h
  obtain ⟨sent, hsent, h⟩ := Option.bind_eq_some_iff.1 h
  cases h
  show p.Ticking 0 (sent.event 0 .record)
  have hsame := sameTimers_sends _ hsent
  obtain ⟨hmeasuring, hidle, hrows⟩ := measurements_timers (List.finRange m) p.initial
  have halarms : alarms (sent.event 0 .record).events = (0, .record) ::
      ((List.finRange m).map fun j => (p.initial.H j, Timer.measurement j)).reverse := by
    show _ :: FluidModel.alarms sent.events = _
    rw [hsame.alarms, hmeasuring]
    exact congrArg _ (List.append_nil _)
  replace hidle : sent.reactScheduled = fun _ => false := hsame.reactScheduled.trans hidle
  replace hrows : sent.rows = [] := hsame.rows.trans hrows
  refine ⟨fun τ => ?_, ?_, ?_, ?_⟩
  · show (alarms (sent.event 0 .record).events).countP (fun x => x.2 = τ) = _
    rw [halarms, List.countP_cons, List.countP_reverse, List.countP_map]
    cases τ with
    | measurement j =>
      show List.countP (fun k => decide (Timer.measurement k = Timer.measurement j)) _ + _ = 1
      simp only [Timer.measurement.injEq]
      exact List.count_eq_one_of_mem (List.nodup_finRange m) (List.mem_finRange j)
    | react i =>
      show _ = if sent.reactScheduled i = true then 1 else 0
      rw [hidle]
      simp
    | record => simp [State.running]
  · rw [halarms]
    refine List.forall_mem_cons.2 ⟨fun _ => ?_, fun x hx hrecord => ?_⟩
    · show (0 : ℚ) = (sent.rows.length : ℚ) / 100
      rw [hrows]
      simp
    · obtain ⟨j, -, rfl⟩ := List.mem_map.1 (List.mem_reverse.1 hx)
      cases hrecord
  · intro i row hrow
    change sent.rows[i]? = some row at hrow
    rw [hrows] at hrow
    cases hrow
  · show ((sent.rows.length : ℚ) - 1) / 100 ≤ 0
    rw [hrows]
    norm_num

/-! ## No handler raises -/

theorem send_total (p : Projection ℚ n m) (t : ℚ) (i : Fin n) (st : State ℚ n m) :
    ∃ st', p.send t i st = some st' := by
  unfold send
  split <;> exact ⟨_, rfl⟩

theorem startService_total (hfeedback : p.quantizedU = false) (t : ℚ) (j : Fin m)
    (st : State ℚ n m) : ∃ st', p.startService t j st = some st' := by
  have hquantized : ∀ (u : ℚ) (draws : ℕ), p.quantizedFeedback u draws = some (u, draws) := by
    intro u draws
    unfold quantizedFeedback
    rw [hfeedback]
    rfl
  unfold startService
  split
  · exact ⟨_, rfl⟩
  · split
    · exact ⟨_, rfl⟩
    · simp only [hquantized]
      exact ⟨_, rfl⟩

theorem updateWindow_total (p : Projection ℚ n m) (i : Fin n) (u : ℚ) (count : ℤ)
    (st : State ℚ n m) : ∃ st', p.updateWindow i u count st = some st' := by
  have hincrease : ∃ x, p.additiveIncrease i count st = some x := by
    unfold additiveIncrease
    simp only [PyFloat.int_rat, Option.bind_eq_bind, Option.bind_some]
    split <;> exact ⟨_, rfl⟩
  have htarget : ∀ V a : ℤ, ∃ target, targetWindow V a u = some target := by
    intro V a
    unfold targetWindow
    split <;> exact ⟨_, rfl⟩
  unfold updateWindow
  obtain ⟨⟨a, residual⟩, ha⟩ := hincrease
  obtain ⟨target, htarget⟩ := htarget (st.V i) a
  simp only [ha, htarget, Option.bind_eq_bind, Option.bind_some]
  split
  · split <;> exact ⟨_, rfl⟩
  · exact ⟨_, rfl⟩

theorem acknowledge_total (p : Projection ℚ n m) (t : ℚ) (packet : Packet ℚ n) (u qdelay : ℚ)
    (count : ℤ) (st : State ℚ n m) :
    ∃ st', p.acknowledge t packet u count qdelay st = some st' := by
  have hrtt : ∀ st : State ℚ n m,
      ∃ st', updateRtt t packet.subflow packet.sent qdelay st = some st' := fun st => ⟨_, rfl⟩
  obtain ⟨st₁, h₁⟩ := hrtt { st with toTraffic := st.toTraffic.settle packet }
  obtain ⟨st₂, h₂⟩ := updateWindow_total p packet.subflow u count st₁
  obtain ⟨st₃, h₃⟩ := send_total p t packet.subflow (paced packet.subflow st₂)
  have hlast : ∃ st', (if st₃.reactScheduled packet.subflow then some st₃
      else some (startReaction t packet.subflow st₃)) = some st' := by
    split <;> exact ⟨_, rfl⟩
  obtain ⟨st', hst'⟩ := hlast
  refine ⟨st', ?_⟩
  unfold acknowledge
  refine Option.bind_eq_some_iff.2 ⟨st₁, h₁, ?_⟩
  refine Option.bind_eq_some_iff.2 ⟨st₂, h₂, ?_⟩
  exact Option.bind_eq_some_iff.2 ⟨st₃, h₃, hst'⟩

/-- **No handler raises** where feedback is not quantized. -/
theorem handle_total (hfeedback : p.quantizedU = false) (t : ℚ) (kind : EventKind ℚ n m)
    (st : State ℚ n m) : ∃ st', p.handle t kind st = some st' := by
  cases kind with
  | arrival j packet => exact startService_total hfeedback t j _
  | finish j => exact startService_total hfeedback t j _
  | pace i => exact send_total p t i _
  | ack packet u count qdelay => exact acknowledge_total p t packet u qdelay count st
  | _ => exact ⟨_, rfl⟩

theorem start_total (p : Projection ℚ n m) : ∃ st, p.start = some st := by
  have hsends : ∀ (subflows : List (Fin n)) (st : State ℚ n m),
      ∃ st', subflows.foldlM (fun st i => p.send 0 i st) st = some st' := by
    intro subflows
    induction subflows with
    | nil => exact fun st => ⟨st, rfl⟩
    | cons i rest ih =>
      intro st
      obtain ⟨st₁, h₁⟩ := send_total p 0 i st
      obtain ⟨st', hrest⟩ := ih st₁
      exact ⟨st', by rw [List.foldlM_cons, h₁]; exact hrest⟩
  obtain ⟨sent, hsent⟩ := hsends (List.finRange n)
    ((List.finRange m).foldl (fun st j => st.event (st.H j) (.measurement j)) p.initial)
  refine ⟨sent.event 0 .record, ?_⟩
  unfold start
  exact Option.bind_eq_some_iff.2 ⟨sent, hsent, rfl⟩

/-! ## The last head -/

theorem Ticking.clocked (hp : p.Valid) {head head' : ℚ × State ℚ n m} (hrun : p.Run head)
    (h : p.Ticking head.1 head.2)
    (hiter : EventLoop.clocked nextTime p.iteration head = some head') :
    p.Ticking head'.1 head'.2 ∧ head'.1 ≤ p.duration := by
  obtain ⟨now, st⟩ := head
  obtain ⟨now', st'⟩ := head'
  obtain ⟨e, events, hpop, rfl, hend, hhandle⟩ := clocked_exact hiter
  obtain ⟨hnow, -, -⟩ := hrun.sane.advance hpop
  have hpending := h.perm (EventLoop.pop_perm hpop) hnow
  refine ⟨Ticking.handle hpending (fun j => ?_) hhandle, hend⟩
  refine (hrun.delivered_bound hp j).trans ?_
  have hservice := hp.serviceTime_pos j
  have hle : now / p.serviceTime j ≤ e.t / p.serviceTime j :=
    div_le_div_of_nonneg_right hnow hservice.le
  exact mul_le_mul_of_nonneg_left (by linarith) (Int.cast_nonneg mss_pos.le)

theorem Valid.ticking (hp : p.Valid) (hduration : 0 ≤ p.duration) {k : ℕ} {head : ℚ × State ℚ n m}
    (h : p.clockedHead k = some head) :
    p.Run head ∧ p.Ticking head.1 head.2 ∧ head.1 ≤ p.duration := by
  refine EventLoop.heads_inv
    (fun head => p.Run head ∧ p.Ticking head.1 head.2 ∧ head.1 ≤ p.duration) ?_ ?_ k head h
  · intro head hstart
    refine ⟨hp.run_start hstart, ?_⟩
    obtain ⟨st, hst, rfl⟩ := Option.map_eq_some_iff.1 hstart
    exact ⟨start_ticking hst, hduration⟩
  · rintro head head' ⟨hrun, hticking, -⟩ hiter
    exact ⟨(hrun.step hp hiter).2.1, hticking.clocked hp hrun hiter⟩

/-- The loop only stops at an event after the end. -/
theorem iteration_stops (hfeedback : p.quantizedU = false) (h : p.iteration st = none) :
    ∀ e ∈ st.events, p.duration < e.t := by
  unfold iteration at h
  split at h
  · rename_i hpop
    rw [EventLoop.pop_eq_none hpop]
    exact fun e he => absurd he List.not_mem_nil
  · rename_i first events hpop
    split at h
    · rename_i hlate
      have hend : p.duration < first.t := by simpa using hlate
      intro e he
      rcases List.mem_cons.1 ((EventLoop.pop_perm hpop).mem_iff.2 he) with rfl | hothers
      · exact hend
      · exact hend.trans_le (Event.time_le_of_key_le (Event.pop_key hpop e hothers))
    · obtain ⟨st', hst'⟩ := handle_total hfeedback first.t first.kind { st with events }
      rw [hst'] at h
      cases h

end Projection

/-- What `packet_projection` returns: a row for every 10 ms up to `duration`, in order, and every
row within the capacity of the links. -/
structure Returned (p : Projection ℚ n m) (st : State ℚ n m) : Prop where
  pending : ∀ e ∈ st.events, p.duration < e.t
  length : (Projection.result st).1.length = ⌊100 * p.duration⌋₊ + 1
  rows : ∀ (i : ℕ) (row : Row ℚ n m), (Projection.result st).1[i]? = some row →
    row.t = i / 100 ∧ p.RowBound row

open Projection in
/-- **The projection returns.**  Where feedback is not quantized the loop ends after finitely many
events, because the next one is after `duration` and not because a handler raises, and the rows are
there. -/
theorem projection_returns (p : Projection ℚ n m) (hp : p.Valid)
    (hfeedback : p.quantizedU = false) (hduration : 0 ≤ p.duration) :
    ∃ k st, p.head k = some st ∧ p.head (k + 1) = none ∧ Returned p st := by
  have hends : ∃ k, p.head k = none := by
    obtain ⟨k, hk⟩ := hp.terminates
    exact ⟨k, by rw [← clockedHead_head, hk]; rfl⟩
  obtain ⟨st₀, hstart⟩ := start_total p
  obtain ⟨k, st, hk, hlast⟩ := EventLoop.heads_last hstart hends
  have hpending := iteration_stops hfeedback hlast
  have hclocked := p.clockedHead_head k
  rw [show p.head k = some st from hk] at hclocked
  obtain ⟨⟨now, st'⟩, hnow, rfl⟩ := Option.map_eq_some_iff.1 hclocked
  obtain ⟨-, hticking, hend⟩ := hp.ticking hduration hnow
  refine ⟨k, st', hk, ?_, hpending, ?_, hticking.rows⟩
  · rw [head, EventLoop.heads, hk]
    exact hlast
  · obtain ⟨x, hx, hrecord⟩ : ∃ x ∈ alarms st'.events, x.2 = .record := by
      have hone : (alarms st'.events).countP (fun x => x.2 = Timer.record) = 1 :=
        hticking.timers .record
      obtain ⟨x, hx, hrecord⟩ := List.countP_pos_iff.1 (hone ▸ Nat.one_pos)
      exact ⟨x, hx, by simpa using hrecord⟩
    obtain ⟨e, he, hτ⟩ := List.mem_filterMap.1 hx
    obtain ⟨τ, -, rfl⟩ := Option.map_eq_some_iff.1 hτ
    have hnext : e.t = st'.rows.length / 100 := hticking.record _ hx hrecord
    have hlate := hpending e he
    have hbefore := hticking.last
    have hafter : 100 * p.duration < st'.rows.length := by linarith
    have hpos : 0 < st'.rows.length := Nat.cast_pos.1 (lt_of_le_of_lt (by positivity) hafter)
    have hfloor : ⌊100 * p.duration⌋₊ = st'.rows.length - 1 := by
      rw [Nat.floor_eq_iff (by positivity), Nat.cast_pred hpos]
      exact ⟨by linarith, by linarith⟩
    show st'.rows.length = _
    omega

theorem projection_returns_one_path :
    ∃ k st, onePath.head k = some st ∧ onePath.head (k + 1) = none ∧ Returned onePath st :=
  projection_returns onePath onePath_valid rfl (by decide +kernel)

end MpOrb.FluidModel
