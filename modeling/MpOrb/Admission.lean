import MpOrb.Ranking
import MpOrb.Lib.Machine
import Mathlib.Data.PNat.Basic

/-!
# Scheduler admission is never bypassed

A run interleaves selections, each followed by the assignment of the requested bytes to the
returned subflow, with transmissions, acknowledgements, window changes, activity changes and new
telemetry.  The base class behaves as documented (`PacketScheduler.Documented`).

* `select_admits` — whichever way a subflow was selected (cached burst, ranking, overdue turn), it
  is active and has room for the request at that moment.
* `select_within_burst` — the burst it is left with covers the request, so the remaining burst
  never wraps below zero.
* `admission_never_bypassed` — after every assignment of every run the unsent bytes fit the window
  and the queued bytes fit the write limit, and a subflow without room gets nothing.
-/

set_option autoImplicit false

namespace MpOrb

/-! ## What a selection guarantees -/

theorem cachedBurst_some {base : PacketScheduler} {view : SocketId → Subflow} {burst : Burst}
    {bytes : ℕ} {s : SocketId} (h : cachedBurst base view burst bytes = some s) :
    burst.lastSubflow = some s ∧ bytes ≤ burst.remainingBurstBytes ∧
      (view s).isActiveForDefaultScheduler = true ∧
      bytes ≤ base.getBoundedAssignmentSpace (view s) bytes := by
  unfold cachedBurst at h
  split at h
  · cases h
  · rename_i last hlast
    split at h
    · rename_i hroom
      cases h
      exact ⟨hlast, hroom⟩
    · cases h

theorem isEligible_iff (r : Request) (s : SocketId) :
    r.isEligible s = true ↔ (r.view s).isActiveForDefaultScheduler = true ∧
      r.bytes ≤ (r.estimate s).space ∧ (r.estimate s).hasRate = true := by
  simp [Request.isEligible, and_assoc]

theorem Selected.space {r : Request} {connection : MpTcpConnection} {st st' : SchedulerState}
    {s : SocketId} (h : Selected r connection st s st') :
    (r.view s).isActiveForDefaultScheduler = true ∧ r.bytes ≤ (r.estimate s).space := by
  obtain ⟨-, hel⟩ := mem_eligibleSubflows.1 h.mem
  obtain ⟨hact, hspace, -⟩ := (isEligible_iff r s).1 hel
  exact ⟨hact, hspace⟩

section Select

variable {base : PacketScheduler} {connection : MpTcpConnection} {view : SocketId → Subflow}
  {st st' : SchedulerState} {bytes : ℕ} {s : SocketId}

/-- **Every path to a returned subflow passes an admission test taken now.** -/
theorem select_admits (hdoc : base.Documented)
    (h : selectDefaultSubflow base connection view st bytes = (some s, st')) :
    (view s).isActiveForDefaultScheduler = true ∧ bytes ≤ sharedUnsentAllowance (view s) := by
  rcases select_cases base connection view st bytes with
    ⟨last, hc, hsel⟩ | ⟨-, st₁, hsel, -⟩ | ⟨-, winner, st₁, hsel, hwin⟩
  · rw [hsel] at h
    cases h
    obtain ⟨-, -, hact, hroom⟩ := cachedBurst_some hc
    exact ⟨hact, hdoc.space (view s) bytes ▸ hroom⟩
  · rw [hsel] at h
    cases h
  · rw [hsel] at h
    cases h
    obtain ⟨hact, hroom⟩ := hwin.space
    refine ⟨hact, ?_⟩
    rw [← hdoc.space (view s) base.DEFAULT_SEND_BURST_SIZE]
    exact evaluatePath_space base st.avgPacingRates s (view s) base.DEFAULT_SEND_BURST_SIZE ▸ hroom

theorem burstLimit_ge {space : ℕ} (hroom : bytes ≤ space) (overdue : Bool) :
    bytes ≤ burstLimit base bytes space overdue := by
  unfold burstLimit
  simp only
  split
  · exact le_rfl
  · have hlimit : bytes ≤ min (max base.DEFAULT_SEND_BURST_SIZE bytes) space := by omega
    generalize min (max base.DEFAULT_SEND_BURST_SIZE bytes) space = limit at hlimit
    rcases Nat.eq_zero_or_pos bytes with rfl | hpos
    · omega
    · have hdiv : 1 ≤ limit / bytes := Nat.div_pos hlimit hpos
      calc bytes = bytes * 1 := (Nat.mul_one _).symm
        _ ≤ bytes * (limit / bytes) := Nat.mul_le_mul_left _ hdiv
        _ = limit - limit % bytes := by have := Nat.div_add_mod limit bytes; omega

/-- The burst in force after a selection is the winner's and covers the request. -/
theorem select_within_burst (hdoc : base.Documented)
    (h : selectDefaultSubflow base connection view st bytes = (some s, st')) :
    st'.lastSubflow = some s ∧ bytes ≤ st'.remainingBurstBytes := by
  rcases select_cases base connection view st bytes with
    ⟨last, hc, hsel⟩ | ⟨-, st₁, hsel, -⟩ | ⟨-, winner, st₁, hsel, hwin⟩
  · rw [hsel] at h
    cases h
    obtain ⟨hlast, hrem, -, -⟩ := cachedBurst_some hc
    exact ⟨hlast, hrem⟩
  · rw [hsel] at h
    cases h
  · rw [hsel] at h
    cases h
    rw [hwin.burst]
    exact ⟨hdoc.lastSubflow .., (hdoc.remainingBurstBytes ..).symm ▸ burstLimit_ge hwin.space.2 _⟩

end Select

/-! ## Runs -/

/-- The subflows and the scheduler. -/
structure AdmissionState where
  view : SocketId → Subflow
  scheduler : SchedulerState

/-- What happens between two selections, and the selection itself. -/
inductive AdmissionEvent where
  | assign (bytes : ℕ+)
  | transmit (s : SocketId) (bytes : ℕ)
  | acknowledge (s : SocketId) (bytes : ℕ)
  | setCwnd (s : SocketId) (cwnd : ℕ)
  | setActive (s : SocketId) (active : Bool)
  | setWriteLimit (s : SocketId) (limit : ℕ)
  | measure (s : SocketId) (pacingRate windowRate : Double) (forwardDelay : Option SimTime)
      (schedulingRtt : SimTime)
  | setAverage (s : SocketId) (rate : Option Double)

/-- An assignment: the subflow as it was when selected and right after. -/
structure Assignment where
  bytes : ℕ
  subflow : SocketId
  before : Subflow
  after : Subflow
  remainingBurst : ℕ

/-- The chunk joins the send queue of the subflow. -/
def Subflow.enqueue (subflow : Subflow) (bytes : ℕ) : Subflow :=
  { subflow with
    unsentBytes := subflow.unsentBytes + bytes
    queuedBytes := subflow.queuedBytes + bytes }

/-- A subflow changes. -/
def AdmissionState.modify (σ : AdmissionState) (s : SocketId) (f : Subflow → Subflow) :
    AdmissionState :=
  { σ with view := Function.update σ.view s (f (σ.view s)) }

/-- `selectDefaultSubflow(bytes)`, then `bytes` go to the returned subflow. -/
def AdmissionState.assign (base : PacketScheduler) (connection : MpTcpConnection)
    (σ : AdmissionState) (bytes : ℕ) : AdmissionState × List Assignment :=
  match selectDefaultSubflow base connection σ.view σ.scheduler bytes with
  | (none, scheduler) => ({ σ with scheduler }, [])
  | (some s, scheduler) =>
    let after := (σ.view s).enqueue bytes
    let remaining := scheduler.remainingBurstBytes - bytes
    ({ view := Function.update σ.view s after
       scheduler := { scheduler with remainingBurstBytes := remaining } },
     [⟨bytes, s, σ.view s, after, scheduler.remainingBurstBytes⟩])

/-- One event, with the assignment it makes. -/
def admissionStep (base : PacketScheduler) (connection : MpTcpConnection) (σ : AdmissionState) :
    AdmissionEvent → AdmissionState × List Assignment
  | .assign bytes => σ.assign base connection bytes
  | .transmit s bytes =>
    (σ.modify s fun f => { f with unsentBytes := f.unsentBytes - bytes }, [])
  | .acknowledge s bytes =>
    (σ.modify s fun f => { f with queuedBytes := f.queuedBytes - bytes }, [])
  | .setCwnd s cwnd => (σ.modify s fun f => { f with cwnd }, [])
  | .setActive s active =>
    (σ.modify s fun f => { f with isActiveForDefaultScheduler := active }, [])
  | .setWriteLimit s limit => (σ.modify s fun f => { f with writeLimit := limit }, [])
  | .measure s pacingRate windowRate forwardDelay schedulingRtt =>
    (σ.modify s fun f => { f with pacingRate, windowRate, forwardDelay, schedulingRtt }, [])
  | .setAverage s rate =>
    ({ σ with scheduler := { σ.scheduler with
        avgPacingRates := Function.update σ.scheduler.avgPacingRates s rate } }, [])

/-- The assignment respects the window, the write limit, the activity and the burst. -/
structure Assignment.Admitted (a : Assignment) : Prop where
  active : a.before.isActiveForDefaultScheduler = true
  enqueued : a.after = a.before.enqueue a.bytes
  unsent : a.after.unsentBytes ≤ max a.after.cwnd a.after.sndMss
  queued : a.after.queuedBytes ≤ a.after.writeLimit
  burst : a.bytes ≤ a.remainingBurst

theorem assign_admitted {base : PacketScheduler} (hdoc : base.Documented)
    (connection : MpTcpConnection) (σ : AdmissionState) (bytes : ℕ+) :
    ∀ a ∈ (σ.assign base connection bytes).2, a.Admitted := by
  intro a ha
  unfold AdmissionState.assign at ha
  split at ha
  · exact absurd ha List.not_mem_nil
  · rename_i s scheduler hsel
    rw [List.mem_singleton.1 ha]
    obtain ⟨hact, hroom⟩ := select_admits hdoc hsel
    have hpos := bytes.pos
    unfold sharedUnsentAllowance at hroom
    refine ⟨hact, rfl, ?_, ?_, (select_within_burst hdoc hsel).2⟩
    · show (σ.view s).unsentBytes + (bytes : ℕ) ≤ max (σ.view s).cwnd (σ.view s).sndMss
      omega
    · show (σ.view s).queuedBytes + (bytes : ℕ) ≤ (σ.view s).writeLimit
      omega

/-- **Admission is never bypassed.**  In every run every assignment is admitted; and in every state
a run reaches, a subflow whose backlog leaves no room for the request in its window is not
returned, whatever burst is in force. -/
theorem admission_never_bypassed (base : PacketScheduler) (hdoc : base.Documented)
    (connection : MpTcpConnection) (σ : AdmissionState) (events : List AdmissionEvent) :
    (∀ a ∈ (Machine.run (admissionStep base connection) σ events).2, a.Admitted) ∧
      ∀ (s : SocketId) (bytes : ℕ+),
        let now := (Machine.run (admissionStep base connection) σ events).1
        max (now.view s).cwnd (now.view s).sndMss < (now.view s).unsentBytes + bytes →
        (selectDefaultSubflow base connection now.view now.scheduler bytes).1 ≠ some s := by
  constructor
  · refine Machine.run_out (fun _ => True) (fun _ _ _ => trivial) ?_ trivial events
    intro τ e _ a ha
    cases e with
    | assign bytes => exact assign_admitted hdoc connection τ bytes a ha
    | _ => exact absurd ha List.not_mem_nil
  · intro s bytes now hfull hsel
    have hroom := (select_admits hdoc (Prod.ext hsel rfl)).2
    have hpos := bytes.pos
    unfold sharedUnsentAllowance at hroom
    omega

/-- Two segments of a burst are assigned, then the window shrinks below the backlog: the rest of
the burst does not reach the path. -/
theorem admission_after_reduction :
    let base := documentedScheduler 8 (by decide)
    let now := (Machine.run (admissionStep base twoPaths) ⟨idleView, ⟨.idle, .empty⟩⟩
      [.assign 1448, .assign 1448, .setCwnd 1 1000]).1
    1448 ≤ now.scheduler.remainingBurstBytes ∧
      (selectDefaultSubflow base twoPaths now.view now.scheduler (1448 : ℕ+)).1 ≠ some 1 :=
  ⟨by decide +kernel,
    (admission_never_bypassed (documentedScheduler 8 (by decide))
      (documentedScheduler_documented 8 (by decide)) twoPaths ⟨idleView, ⟨.idle, .empty⟩⟩
      [.assign 1448, .assign 1448, .setCwnd 1 1000]).2 1 1448 (by decide +kernel)⟩

end MpOrb
