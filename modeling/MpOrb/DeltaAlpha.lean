import MpOrb.DeltaLedger
import MpOrb.DeltaPath

/-!
# Delta conservatively extends Alpha

Delta and Alpha run side by side in the same environment, which chooses every event from the whole
trajectory so far.  While no feedback earns a correction, the trajectories are the same.

* `Snapshot` — what an event returned, with the variables of the connection after it.
* `deltaStep`, `alphaStep` — one event through Delta and through Alpha alone.
* `Neutral` — feedback that earns nothing: missing, not an echo, without a hop, of another hop than
  the INT record, taken before, or without a previous mean.
* `deltaStep_neutral` — one neutral event; `delta_extends_alpha` — every closed loop.
-/

set_option autoImplicit false

namespace MpOrb

variable {α : Type}

/-- The value that a call returned. -/
inductive Returned where
  | inflight (u : Double)
  | window (window : UInt32)
  | nothing

/-- `state` holds `snd_cwnd`, `prevWnd` and `additiveIncrease`, `parent` Alpha's own variables, the
residual of its additive increase among them. -/
structure Snapshot (α : Type) where
  returned : Returned
  state : OrbState
  parent : α

/-- One event through Delta. -/
def deltaStep (alpha : Alpha α) (d : MpOrbDelta α) :
    SenderEvent α → MpOrbDelta α × List (Snapshot α)
  | .feedback current data =>
    let result := d.measureInflight alpha current data
    (result.2, [⟨.inflight result.1, result.2.state, result.2.parent⟩])
  | .compute u updateWc =>
    let result := d.computeWnd alpha u updateWc
    (result.2, [⟨.window result.1, result.2.state, result.2.parent⟩])
  | .other change =>
    let moved := change (d.state, d.parent)
    ({ d with state := moved.1, parent := moved.2 }, [⟨.nothing, moved.1, moved.2⟩])

/-- Alpha does not look at the Delta tag. -/
def alphaStep (alpha : Alpha α) (a : OrbState × α) :
    SenderEvent α → (OrbState × α) × List (Snapshot α)
  | .feedback _ data =>
    let result := alpha.measureInflight a.1 a.2 data
    (result.2, [⟨.inflight result.1, result.2.1, result.2.2⟩])
  | .compute u updateWc =>
    let result := alpha.computeWnd a.1 a.2 u updateWc
    (result.2, [⟨.window result.1, result.2.1, result.2.2⟩])
  | .other change =>
    let moved := change a
    (moved, [⟨.nothing, moved.1, moved.2⟩])

/-- A commit of Alpha returns a window of at least one segment and stores it. -/
def Alpha.CommitsWindow (alpha : Alpha α) : Prop :=
  ∀ state parent u,
    (alpha.computeWnd state parent u true).2.1.snd_mss.toNat ≤
        (alpha.computeWnd state parent u true).1.toNat ∧
      (alpha.computeWnd state parent u true).2.1.prevWnd =
        (alpha.computeWnd state parent u true).1

/-- The feedback earns no correction at this sender. -/
def NeutralTag (d : MpOrbDelta α) (tag : DeltaShuffleTag) (data : IntDataVec) : Prop :=
  tag.echoed = false ∨ tag.hops = 0 ∨ (∀ front ∈ data.head?, tag.bottleneckId ≠ front.hopId) ∨
    tag.serial ≤ d.lastShuffleSerial ∨ tag.meanConnectionRate = 0

/-- The event earns no correction. -/
def Neutral (d : MpOrbDelta α) : SenderEvent α → Prop
  | .feedback current data => ∀ tag ∈ current, NeutralTag d tag data
  | _ => True

/-! ## One event -/

theorem credit_eq_zero (d : MpOrbDelta α) {tag : DeltaShuffleTag}
    (h : tag.meanConnectionRate = 0) : d.credit tag = 0 := by
  have hzero : tag.correction = 0 := by
    unfold DeltaShuffleTag.correction rateCorrection
    rw [h, if_neg (lt_irrefl 0)]
  unfold MpOrbDelta.credit
  rw [hzero, zero_mul, ite_self]

/-- Neutral feedback moves at most the last serial. -/
theorem creditShuffle_neutral {d : MpOrbDelta α} {current : Option DeltaShuffleTag}
    {data : IntDataVec} (h : ∀ tag ∈ current, NeutralTag d tag data) :
    (d.creditShuffle current data).pendingShuffleBytes = d.pendingShuffleBytes ∧
      (d.creditShuffle current data).state = d.state ∧
      (d.creditShuffle current data).parent = d.parent := by
  cases current with
  | none => exact ⟨rfl, rfl, rfl⟩
  | some tag =>
    by_cases hacc : d.accepts tag data = true
    · rw [MpOrbDelta.creditShuffle_accepted hacc]
      refine ⟨?_, rfl, rfl⟩
      obtain ⟨front, rest, rfl, hecho, hhops, hid, hnew⟩ := MpOrbDelta.accepts_iff.1 hacc
      rcases h tag rfl with hnot | hnot | hnot | hnot | hmean
      · rw [hecho] at hnot; cases hnot
      · omega
      · exact absurd hid (hnot front rfl)
      · omega
      · rw [credit_eq_zero d hmean, add_zero]
    · rw [MpOrbDelta.creditShuffle_rejected hacc]
      exact ⟨rfl, rfl, rfl⟩

theorem computeWnd_settled {alpha : Alpha α} (hcommit : alpha.CommitsWindow) {d : MpOrbDelta α}
    (hpending : d.pendingShuffleBytes = 0) (u : Double) :
    (d.computeWnd alpha u true).1 = (alpha.computeWnd d.state d.parent u true).1 := by
  have hwindow := MpOrbDelta.computeWnd_commit_window alpha d u
  have hmss := (hcommit d.state d.parent u).1
  have hlt := (alpha.computeWnd d.state d.parent u true).1.toNat_lt
  have hmax : UINT32_MAX = 2 ^ 32 - 1 := rfl
  have hsame : (d.computeWnd alpha u true).2.state.snd_mss =
      (alpha.computeWnd d.state d.parent u true).2.1.snd_mss := rfl
  rw [hpending, Truncation.truncate_zero, hsame] at hwindow
  exact UInt32.toNat_inj.1 (by omega)

/-- Delta and Alpha are in the same state, and nothing is pending. -/
structure Settled (d : MpOrbDelta α) (a : OrbState × α) : Prop where
  state : d.state = a.1
  parent : d.parent = a.2
  pending : d.pendingShuffleBytes = 0

/-- **A neutral event does the same to both.** -/
theorem deltaStep_neutral {alpha : Alpha α} (hcommit : alpha.CommitsWindow) (d : MpOrbDelta α)
    (a : OrbState × α) (e : SenderEvent α) (h : Settled d a) (hneutral : Neutral d e) :
    Settled (deltaStep alpha d e).1 (alphaStep alpha a e).1 ∧
      (deltaStep alpha d e).2 = (alphaStep alpha a e).2 := by
  obtain ⟨state, parent⟩ := a
  obtain ⟨rfl, rfl, hpending⟩ := h
  cases e with
  | other change => exact ⟨⟨rfl, rfl, hpending⟩, rfl⟩
  | feedback current data =>
    obtain ⟨hsame, hstate, hparent⟩ := creditShuffle_neutral hneutral
    have hresult : d.measureInflight alpha current data =
        ((alpha.measureInflight d.state d.parent data).1,
          { d.creditShuffle current data with
            state := (alpha.measureInflight d.state d.parent data).2.1
            parent := (alpha.measureInflight d.state d.parent data).2.2 }) := by
      rw [← hstate, ← hparent]
      rfl
    simp only [deltaStep, alphaStep, hresult, and_true]
    exact ⟨rfl, rfl, hsame.trans hpending⟩
  | compute u updateWc =>
    cases updateWc with
    | false => exact ⟨⟨rfl, rfl, hpending⟩, rfl⟩
    | true =>
      have hwindow := computeWnd_settled hcommit hpending u
      have hstate : (d.computeWnd alpha u true).2.state =
          (alpha.computeWnd d.state d.parent u true).2.1 := by
        show { (alpha.computeWnd d.state d.parent u true).2.1 with
          prevWnd := (d.computeWnd alpha u true).1 } = _
        rw [hwindow, ← (hcommit d.state d.parent u).2]
      refine ⟨⟨hstate, rfl, ?_⟩, ?_⟩
      · show (d.computeWnd alpha u true).2.pendingShuffleBytes = 0
        rw [MpOrbDelta.computeWnd_commit_pending, hpending]
        simp [Truncation.remainder]
      · simp only [deltaStep, alphaStep, hwindow, hstate]
        rfl

/-! ## Closed loops -/

/-- **Delta conservatively extends Alpha.**  In every environment whose feedback stays neutral the
trajectories are the same; and feedback from a path without an enabled Delta queue has no hop. -/
theorem delta_extends_alpha {alpha : Alpha α} (hcommit : alpha.CommitsWindow)
    (env : List (Snapshot α) → SenderEvent α) {d : MpOrbDelta α}
    (hpending : d.pendingShuffleBytes = 0)
    (hneutral : ∀ n, Neutral (Machine.drive (deltaStep alpha) env d n).1
      (env (Machine.drive (deltaStep alpha) env d n).2)) :
    (∀ n, (Machine.drive (deltaStep alpha) env d n).2 =
      (Machine.drive (alphaStep alpha) env (d.state, d.parent) n).2) ∧
      ∀ (sender : MpOrbDelta α) (subflows : Option (List Sibling)) (path : List Hop)
        (tcpPayloadBytes : ℕ) (c : Carried), tcpPayloadBytes ≠ 0 →
        (∀ hop ∈ path, ¬ hop.IsEnabledDelta) →
        carryPath tcpPayloadBytes { tag := (sender.stampTelemetry subflows).2 } path = .ok c →
        c.tag.echo.hops = 0 := by
  constructor
  · intro n
    exact (Machine.drive_sim Settled Neutral (deltaStep_neutral hcommit) ⟨rfl, rfl, hpending⟩
      hneutral n).2
  · intro sender subflows path tcpPayloadBytes c hbytes hoff hcarry
    exact (carryPath_disabled hbytes (stampTelemetry_dataTag sender subflows) rfl hoff hcarry).2

/-- Feedback of a first round, without a previous mean, before every commit. -/
def firstRoundFeedback (past : List (Snapshot Unit)) : SenderEvent Unit :=
  if past.length % 2 = 0 then
    .feedback (some { serial := past.length + 1, hops := 1, bottleneckId := 7, echoed := true })
      [⟨7, 125000, .fin (9 / 10), 1 / 100, 0, 3, 3, false⟩]
  else .compute (.fin (9 / 10)) true

theorem steadyAlpha_commitsWindow : steadyAlpha.CommitsWindow := by
  intro state parent u
  refine ⟨?_, rfl⟩
  show state.snd_mss.toNat ≤
    (if state.snd_cwnd < state.snd_mss then state.snd_mss else state.snd_cwnd).toNat
  split
  · exact le_rfl
  · rename_i h
    exact not_lt.1 h

theorem delta_extends_alpha_first_round :
    (Machine.drive (deltaStep steadyAlpha) firstRoundFeedback freshSender 4).2 =
      (Machine.drive (alphaStep steadyAlpha) firstRoundFeedback (freshSender.state, ()) 4).2 := by
  refine (delta_extends_alpha steadyAlpha_commitsWindow firstRoundFeedback rfl fun n => ?_).1 4
  unfold firstRoundFeedback
  split
  · rintro tag ⟨⟩
    exact Or.inr (Or.inr (Or.inr (Or.inr rfl)))
  · trivial

end MpOrb
