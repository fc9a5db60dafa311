import MpOrb.Omega
import MpOrb.DeltaLedger

/-!
# Omega is Delta over a boosted Alpha

`MpOrbOmega` raises the additive increase around `MpOrbDelta::computeWnd`, and Delta hands it on to
Alpha without a look.  So the boost can as well stand between Delta and Alpha, and what holds of a
Delta sender over every Alpha holds of an Omega sender.

* `OmegaVariables` — what Omega reads and Delta does not.
* `Alpha.boosted` — Alpha with the boost around its own `computeWnd`.
* `omegaSenderStep` — one event of an Omega sender, with what it writes into the ledger.
* `computeWnd_boosted` — Omega's window computation is Delta's over the boosted Alpha.
* `omega_refines_delta` — every run of Omega is a run of Delta over the boosted Alpha, event by
  event, with the same ledger: it balances, and every window is sound.
-/

set_option autoImplicit false

namespace MpOrb

variable {α : Type}

/-- What `MpOrbOmega` reads beyond `OrbState`. -/
structure OmegaVariables where
  initialPhase : Bool
  eta : Double
  bottBW : Double
  u : Double
  sharingFlows : ℤ
  firstRTT : Bool
  rtt : SimTime

namespace OmegaVariables

def toState (v : OmegaVariables) (state : OrbState) : OrbtcpStateVariables :=
  { state with
    initialPhase := v.initialPhase
    eta := v.eta
    bottBW := v.bottBW
    u := v.u
    sharingFlows := v.sharingFlows }

/-- The increase that Alpha sees with these variables. -/
def presentedIncrease (v : OmegaVariables) (state : OrbState) (u : Double) (updateWc : Bool) :
    UInt32 :=
  (⟨v.toState state, v.firstRTT, v.rtt, ()⟩ : MpOrbOmega Unit).presentedIncrease u updateWc

end OmegaVariables

/-- Alpha with the boost around its `computeWnd`. -/
def Alpha.boosted (alpha : Alpha α) : Alpha (α × OmegaVariables) where
  measureInflight state parent data :=
    let (u, state, alphaParent) := alpha.measureInflight state parent.1 data
    (u, state, (alphaParent, parent.2))
  computeWnd state parent u updateWc :=
    let additiveIncrease := parent.2.presentedIncrease state u updateWc
    let (window, state', alphaParent) :=
      alpha.computeWnd { state with additiveIncrease } parent.1 u updateWc
    (window, { state' with additiveIncrease := state.additiveIncrease }, (alphaParent, parent.2))

namespace MpOrbOmega

def own {β : Type} (o : MpOrbOmega β) : OmegaVariables where
  initialPhase := o.state.initialPhase
  eta := o.state.eta
  bottBW := o.state.bottBW
  u := o.state.u
  sharingFlows := o.state.sharingFlows
  firstRTT := o.firstRTT
  rtt := o.rtt

/-- The inherited part of an Omega sender: its state is the connection's. -/
def delta (o : MpOrbOmega (MpOrbDelta α)) : MpOrbDelta α :=
  { o.parent with state := o.state.toOrbState }

/-- An Omega sender as a Delta sender over the boosted Alpha. -/
def overBoosted (o : MpOrbOmega (MpOrbDelta α)) : MpOrbDelta (α × OmegaVariables) where
  nextSerial := o.parent.nextSerial
  lastShuffleSerial := o.parent.lastShuffleSerial
  pendingShuffleBytes := o.parent.pendingShuffleBytes
  state := o.state.toOrbState
  parent := (o.parent.parent, o.own)

/-- An inherited method has run. -/
def withDelta (o : MpOrbOmega (MpOrbDelta α)) (d : MpOrbDelta α) : MpOrbOmega (MpOrbDelta α) :=
  { o with state := { o.state with toOrbState := d.state }, parent := d }

/-- **Omega's window computation is Delta's over the boosted Alpha.** -/
theorem computeWnd_boosted (alpha : Alpha α) (o : MpOrbOmega (MpOrbDelta α)) (u : Double)
    (updateWc : Bool) :
    o.overBoosted.computeWnd alpha.boosted u updateWc =
      ((o.computeWnd (deltaComputeWnd alpha) u updateWc).1,
        (o.computeWnd (deltaComputeWnd alpha) u updateWc).2.overBoosted) := by
  cases updateWc <;> rfl

/-- Feedback does not touch the variables of Omega. -/
theorem measureInflight_boosted (alpha : Alpha α) (o : MpOrbOmega (MpOrbDelta α))
    (current : Option DeltaShuffleTag) (data : IntDataVec) :
    (o.overBoosted.measureInflight alpha.boosted current data).2 =
      (o.withDelta (o.delta.measureInflight alpha current data).2).overBoosted := by
  cases current with
  | none => rfl
  | some tag =>
    have haccepts : o.overBoosted.accepts tag data = o.delta.accepts tag data := rfl
    cases h : o.delta.accepts tag data with
    | true => simp only [MpOrbDelta.measureInflight, MpOrbDelta.creditShuffle, haccepts, h]; rfl
    | false => simp only [MpOrbDelta.measureInflight, MpOrbDelta.creditShuffle, haccepts, h]; rfl

end MpOrbOmega

/-! ## Runs of an Omega sender -/

/-- `change` is anything the rest of the connection does to the shared state, to the phase and the
RTT, and to the variables of Alpha. -/
inductive OmegaSenderEvent (α : Type) where
  | feedback (current : Option DeltaShuffleTag) (data : IntDataVec)
  | compute (u : Double) (updateWc : Bool)
  | change (state : OrbtcpStateVariables) (firstRTT : Bool) (rtt : SimTime) (parent : α)

/-- `measureInflight` is inherited; `computeWnd` is Omega's. -/
def omegaSenderStep (alpha : Alpha α) (o : MpOrbOmega (MpOrbDelta α)) :
    OmegaSenderEvent α → MpOrbOmega (MpOrbDelta α) × List LedgerEntry
  | .feedback current data =>
    (o.withDelta (o.delta.measureInflight alpha current data).2,
      match current with
      | some tag =>
        if o.delta.accepts tag data then [.accepted tag.correction o.state.srtt] else []
      | none => [])
  | .compute u updateWc =>
    let presented := (o.presented u updateWc).delta
    let result := o.computeWnd (deltaComputeWnd alpha) u updateWc
    (result.2, [.window
      { updateWc
        orbWindow := (alpha.computeWnd presented.state presented.parent u updateWc).1
        snd_mss := result.2.state.snd_mss
        before := o.parent.pendingShuffleBytes
        after := result.2.parent.pendingShuffleBytes
        returned := result.1
        prevWnd := result.2.state.prevWnd }])
  | .change state firstRTT rtt parent => (⟨state, firstRTT, rtt, { o.parent with parent }⟩, [])

/-- The same event for a Delta sender over the boosted Alpha. -/
def OmegaSenderEvent.overBoosted : OmegaSenderEvent α → SenderEvent (α × OmegaVariables)
  | .feedback current data => .feedback current data
  | .compute u updateWc => .compute u updateWc
  | .change state firstRTT rtt parent =>
    .other fun _ => (state.toOrbState,
      (parent, (⟨state, firstRTT, rtt, ()⟩ : MpOrbOmega Unit).own))

/-- **One event.** -/
theorem omegaSenderStep_boosted (alpha : Alpha α) (o : MpOrbOmega (MpOrbDelta α))
    (e : OmegaSenderEvent α) :
    senderStep alpha.boosted o.overBoosted e.overBoosted =
      ((omegaSenderStep alpha o e).1.overBoosted, (omegaSenderStep alpha o e).2) := by
  cases e with
  | feedback current data =>
    exact Prod.ext (o.measureInflight_boosted alpha current data) rfl
  | compute u updateWc =>
    have hwindow := o.computeWnd_boosted alpha u updateWc
    refine Prod.ext (congrArg Prod.snd hwindow) ?_
    cases updateWc <;> rfl
  | change state firstRTT rtt parent => rfl

/-- **Omega refines Delta.**  Every run of an Omega sender is, event by event, a run of a Delta
sender over the boosted Alpha.  Both write the same ledger: pending and consumed bytes balance the
credited ones, and every window is sound. -/
theorem omega_refines_delta (alpha : Alpha α) (o : MpOrbOmega (MpOrbDelta α))
    (events : List (OmegaSenderEvent α)) :
    Machine.run (senderStep alpha.boosted) o.overBoosted
        (events.map OmegaSenderEvent.overBoosted) =
      ((Machine.run (omegaSenderStep alpha) o events).1.overBoosted,
        (Machine.run (omegaSenderStep alpha) o events).2) ∧
      (Machine.run (omegaSenderStep alpha) o events).1.parent.pendingShuffleBytes +
          ((Machine.run (omegaSenderStep alpha) o events).2.map LedgerEntry.consumed).sum =
        o.parent.pendingShuffleBytes +
          ((Machine.run (omegaSenderStep alpha) o events).2.map LedgerEntry.credited).sum ∧
      ∀ call, .window call ∈ (Machine.run (omegaSenderStep alpha) o events).2 → call.Sound := by
  have hrefines := Machine.run_map MpOrbOmega.overBoosted OmegaSenderEvent.overBoosted
    (omegaSenderStep_boosted alpha) o events
  have hbalance := Machine.run_balance (fun _ => True) (fun _ _ _ => trivial)
    MpOrbDelta.pendingShuffleBytes LedgerEntry.consumed LedgerEntry.credited
    (fun d e _ => senderStep_balance alpha.boosted d e) trivial
    (s := o.overBoosted) (events.map OmegaSenderEvent.overBoosted)
  have hcalls : ∀ d e, True → ∀ entry ∈ (senderStep alpha.boosted d e).2,
      ∀ call, entry = LedgerEntry.window call → call.Sound := by
    rintro d e - _ hentry call rfl
    exact senderStep_sound alpha.boosted d e call hentry
  have hsound := Machine.run_out (fun _ => True) (fun _ _ _ => trivial) hcalls trivial
    (s := o.overBoosted) (events.map OmegaSenderEvent.overBoosted)
  rw [hrefines] at hbalance hsound
  exact ⟨hrefines, hbalance, fun call hcall => hsound _ hcall call rfl⟩

end MpOrb
