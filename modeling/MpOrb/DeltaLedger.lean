import MpOrb.DeltaSender
import MpOrb.Lib.Machine
import Mathlib.Algebra.BigOperators.Group.List.Basic
import Mathlib.Tactic.Linarith

/-!
# The ledger of pending corrections

A run of one sender mixes feedback, window computations and changes that the rest of the connection
makes to the shared state.  The run writes down every accepted correction and every window
computation.

* `senderStep` — one event, through the code of the sender, with what it writes down.
* `WindowCall.Sound` — a fast call is the parent's; a commit returns and stores the parent's window
  with the whole pending bytes, clamped, and keeps less than a byte.
* `delta_ledger` — at every point pending bytes and consumed bytes balance the credited bytes.
-/

set_option autoImplicit false

namespace MpOrb

variable {α : Type}

/-- What happens to a sender. -/
inductive SenderEvent (α : Type) where
  | feedback (current : Option DeltaShuffleTag) (data : IntDataVec)
  | compute (u : Double) (updateWc : Bool)
  | other (change : OrbState × α → OrbState × α)

/-- A call of `computeWnd`, before and after. -/
structure WindowCall where
  updateWc : Bool
  orbWindow : UInt32
  snd_mss : UInt32
  before : ℚ
  after : ℚ
  returned : UInt32
  prevWnd : UInt32

/-- What a sender writes down: accepted feedback and window computations. -/
inductive LedgerEntry where
  | accepted (correction : ℚ) (srtt : SimTime)
  | window (call : WindowCall)

/-- The bytes an entry puts into the ledger: a correction is worth nothing without an RTT sample. -/
def LedgerEntry.credited : LedgerEntry → ℚ
  | .accepted correction srtt => correction * max 0 srtt
  | .window _ => 0

/-- The whole bytes an entry takes out. -/
def LedgerEntry.consumed : LedgerEntry → ℚ
  | .accepted _ _ => 0
  | .window call => if call.updateWc then Truncation.truncate call.before else 0

/-- One event through the code of the sender, with its entry. -/
def senderStep (alpha : Alpha α) (d : MpOrbDelta α) :
    SenderEvent α → MpOrbDelta α × List LedgerEntry
  | .feedback current data =>
    ((d.measureInflight alpha current data).2,
      match current with
      | some tag =>
        if d.accepts tag data then [.accepted tag.correction d.state.srtt] else []
      | none => [])
  | .compute u updateWc =>
    let result := d.computeWnd alpha u updateWc
    (result.2, [.window
      { updateWc
        orbWindow := (alpha.computeWnd d.state d.parent u updateWc).1
        snd_mss := result.2.state.snd_mss
        before := d.pendingShuffleBytes
        after := result.2.pendingShuffleBytes
        returned := result.1
        prevWnd := result.2.state.prevWnd }])
  | .other change =>
    let (state, parent) := change (d.state, d.parent)
    ({ d with state, parent }, [])

/-! ## Window computations -/

/-- What every window computation does with the pending bytes. -/
structure WindowCall.Sound (call : WindowCall) : Prop where
  fast : call.updateWc = false → call.returned = call.orbWindow ∧ call.after = call.before
  window : call.updateWc = true → (call.returned.toNat : ℤ) = max (call.snd_mss.toNat : ℤ)
    (min (call.orbWindow.toNat + Truncation.truncate call.before) UINT32_MAX)
  stored : call.updateWc = true → call.prevWnd = call.returned
  consumed : call.updateWc = true → call.after = call.before - Truncation.truncate call.before
  subByte : call.updateWc = true → |call.after| < 1
  sign : call.updateWc = true → (0 ≤ call.before → 0 ≤ call.after) ∧
    (call.before ≤ 0 → call.after ≤ 0)

/-- **Every window computation is sound.** -/
theorem senderStep_sound (alpha : Alpha α) (d : MpOrbDelta α) (e : SenderEvent α) :
    ∀ call, .window call ∈ (senderStep alpha d e).2 → call.Sound := by
  intro call hcall
  cases e with
  | feedback current data =>
    cases current with
    | none => exact absurd hcall List.not_mem_nil
    | some tag =>
      simp only [senderStep] at hcall
      split at hcall
      · cases List.mem_singleton.1 hcall
      · exact absurd hcall List.not_mem_nil
  | other change => exact absurd hcall List.not_mem_nil
  | compute u updateWc =>
    cases updateWc with
    | false =>
      cases List.mem_singleton.1 hcall
      exact ⟨fun _ => ⟨rfl, rfl⟩, nofun, nofun, nofun, nofun, nofun⟩
    | true =>
      cases List.mem_singleton.1 hcall
      refine ⟨nofun, ?_, ?_, ?_, ?_, ?_⟩ <;> intro _
      · exact MpOrbDelta.computeWnd_commit_window alpha d u
      · exact MpOrbDelta.computeWnd_commit_prevWnd alpha d u
      · exact MpOrbDelta.computeWnd_commit_pending alpha d u
      · exact Truncation.abs_remainder_lt_one d.pendingShuffleBytes
      · constructor
        · intro hpending
          exact Truncation.remainder_nonneg hpending
        · intro hpending
          exact Truncation.remainder_nonpos hpending

/-! ## The balance -/

/-- **One event moves pending bytes exactly by what it writes down.** -/
theorem senderStep_balance (alpha : Alpha α) (d : MpOrbDelta α) (e : SenderEvent α) :
    (senderStep alpha d e).1.pendingShuffleBytes +
        ((senderStep alpha d e).2.map LedgerEntry.consumed).sum =
      d.pendingShuffleBytes + ((senderStep alpha d e).2.map LedgerEntry.credited).sum := by
  cases e with
  | other change => simp [senderStep]
  | feedback current data =>
    have hparent : (d.measureInflight alpha current data).2.pendingShuffleBytes =
        (d.creditShuffle current data).pendingShuffleBytes := rfl
    simp only [senderStep, hparent]
    cases current with
    | none => simp [MpOrbDelta.creditShuffle]
    | some tag =>
      by_cases hacc : d.accepts tag data = true
      · have hcredit : d.credit tag = tag.correction * max 0 d.state.srtt := by
          unfold MpOrbDelta.credit SIMTIME_ZERO
          split
          · rename_i hpos
            rw [max_eq_right hpos.le]
          · rename_i hpos
            rw [max_eq_left (not_lt.1 hpos), mul_zero]
        simp [MpOrbDelta.creditShuffle, hacc, LedgerEntry.consumed, LedgerEntry.credited, hcredit]
      · simp [MpOrbDelta.creditShuffle, hacc]
  | compute u updateWc =>
    cases updateWc with
    | false => simp [senderStep, MpOrbDelta.computeWnd_fast, LedgerEntry.consumed,
        LedgerEntry.credited]
    | true =>
      have hsplit := Truncation.truncate_add_remainder d.pendingShuffleBytes
      have hpending := MpOrbDelta.computeWnd_commit_pending alpha d u
      simp only [senderStep, hpending, List.map_singleton, List.sum_singleton,
        LedgerEntry.consumed, LedgerEntry.credited, if_true, add_zero]
      linarith

/-- **The ledger of every run balances, and every window it computes is sound.** -/
theorem delta_ledger (alpha : Alpha α) (d : MpOrbDelta α) (events : List (SenderEvent α)) :
    (Machine.run (senderStep alpha) d events).1.pendingShuffleBytes +
        ((Machine.run (senderStep alpha) d events).2.map LedgerEntry.consumed).sum =
      d.pendingShuffleBytes +
        ((Machine.run (senderStep alpha) d events).2.map LedgerEntry.credited).sum ∧
      ∀ call, .window call ∈ (Machine.run (senderStep alpha) d events).2 → call.Sound := by
  constructor
  · exact Machine.run_balance (fun _ => True) (fun _ _ _ => trivial)
      MpOrbDelta.pendingShuffleBytes LedgerEntry.consumed LedgerEntry.credited
      (fun d e _ => senderStep_balance alpha d e) trivial events
  · intro call hcall
    refine Machine.run_out (fun _ => True)
      (P := fun entry => ∀ call, entry = LedgerEntry.window call → call.Sound)
      (fun _ _ _ => trivial) (fun d e _ => ?_) trivial events _ hcall call rfl
    rintro _ hentry call rfl
    exact senderStep_sound alpha d e call hentry

end MpOrb
