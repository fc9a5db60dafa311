import MpOrb.Scheduler
import MpOrb.DeltaSender
import Mathlib.Algebra.BigOperators.Group.Finset.Basic
import Mathlib.Algebra.Order.BigOperators.Group.Finset

/-!
# Semi-coupled Alpha over a meta connection

A snapshot of a meta connection gives, for every socket id, what the coupled flavours read of a
subflow and of its algorithm.

* `MetaSubflow`, `Flavour`, `FsmState` — one subflow of a snapshot.
* `MpOrbSemiCoupledAlpha.connectionRate` — the loop over the siblings; `connectionRate_eq_sum`.
* `MpOrbSemiCoupledAlpha.rateShare` — the caller's share, `none` on every early exit.
* `MpOrbSemiCoupledAlpha.adjustAdditiveIncrease` — the share scales the additive increase and the
  fraction lost by the integer conversion is carried to the next call.
-/

set_option autoImplicit false

namespace MpOrb

/-! ## Snapshots -/

/-- `getFsmState()`: `TCP_S_ESTABLISHED` and `TCP_S_CLOSE_WAIT` are told apart from the rest. -/
inductive FsmState where
  | established
  | closeWait
  | other
  deriving DecidableEq

/-- The states in which a subflow counts. -/
def FsmState.carriesData : FsmState → Bool
  | .established => true
  | .closeWait => true
  | .other => false

/-- The class of a subflow's `tcpAlgorithm`; `other` has none of the coupled flavours as a base. -/
inductive Flavour where
  | alpha
  | olia
  | delta
  | omega
  | other
  deriving DecidableEq

/-- `dynamic_cast<MpOrbSemiCoupledAlpha *>` succeeds. -/
def Flavour.isAlpha : Flavour → Bool
  | .other => false
  | _ => true

/-- `dynamic_cast<MpOrbOlia *>` succeeds. -/
def Flavour.isOlia : Flavour → Bool
  | .olia => true
  | _ => false

/-- `dynamic_cast<MpOrbDelta *>` succeeds. -/
def Flavour.isDelta : Flavour → Bool
  | .delta => true
  | .omega => true
  | _ => false

/-- The part of `OrbtcpStateVariables` that the coupled flavours read or write. -/
structure OrbtcpStateVariables extends OrbState where
  initialPhase : Bool
  eta : Double
  bottBW : Double
  u : Double
  sharingFlows : ℤ

/-- A subflow and its algorithm.  The algorithm's `state` is the connection's, null before it is
set up. -/
structure MetaSubflow where
  fsmState : FsmState
  flavour : Flavour
  state : Option OrbtcpStateVariables
  firstRTT : Bool
  additiveIncreaseResidual : ℚ
  bottleneckId : ℤ

/-- A subflow with another residual and another additive increase. -/
def MetaSubflow.withCredit (subflow : MetaSubflow) (residual : ℚ) (additiveIncrease : UInt32) :
    MetaSubflow :=
  { subflow with
    additiveIncreaseResidual := residual
    state := subflow.state.map fun state => { state with additiveIncrease } }

theorem MetaSubflow.withCredit_self (subflow : MetaSubflow) :
    ∃ residual additiveIncrease, subflow = subflow.withCredit residual additiveIncrease := by
  obtain ⟨fsmState, flavour, state, firstRTT, residual, bottleneckId⟩ := subflow
  cases state with
  | none => exact ⟨residual, 0, rfl⟩
  | some state => exact ⟨residual, state.additiveIncrease, rfl⟩

/-- The subflows by socket id. -/
abbrev MetaView := SocketId → MetaSubflow

/-- Two steady subflows of one flavour with equal windows; the second one has the longer RTT. -/
def steadyView (flavour : Flavour) (s : SocketId) : MetaSubflow where
  fsmState := .established
  flavour := flavour
  state := some
    { snd_cwnd := 14480
      snd_mss := 1448
      prevWnd := 14480
      additiveIncrease := 1000
      srtt := if s = 1 then 1 / 50 else 1 / 10
      initialPhase := false
      eta := .fin (19 / 20)
      bottBW := .fin 1000000
      u := .fin (1 / 2)
      sharingFlows := 2 }
  firstRTT := false
  additiveIncreaseResidual := 0
  bottleneckId := 3

theorem MpTcpConnection.members_nodup (connection : MpTcpConnection) :
    connection.members.Nodup :=
  connection.nodup

/-! ## Alpha -/

namespace MpOrbSemiCoupledAlpha

/-- `snd_cwnd / srtt`. -/
def rate (state : OrbtcpStateVariables) : ℚ := state.snd_cwnd.toNat / state.srtt

/-- The rate a subflow adds to the connection's, `none` if the loop passes over it. -/
def subflowRate (subflow : MetaSubflow) : Option ℚ :=
  if !subflow.fsmState.carriesData then none
  else if !subflow.flavour.isAlpha then none
  else
    match subflow.state with
    | none => none
    | some state =>
      if state.srtt ≤ SIMTIME_ZERO then none
      else if 0 < rate state then some (rate state)
      else none

/-- One iteration of the loop over `metaConnection->getSubflows()`. -/
def visitRate (view : MetaView) (connectionRate : ℚ) : Option SocketId → ℚ
  | none => connectionRate
  | some s =>
    match subflowRate (view s) with
    | none => connectionRate
    | some added => connectionRate + added

/-- The rate of the connection's Alpha subflows. -/
def connectionRate (connection : MpTcpConnection) (view : MetaView) : ℚ :=
  connection.getSubflows.foldl (visitRate view) 0

/-- The caller's share of the connection rate; `none` on an early exit. -/
def rateShare (connection : Option MpTcpConnection) (view : MetaView) (self : SocketId) :
    Option ℚ :=
  match (view self).state with
  | none => none
  | some state =>
    if (view self).firstRTT || state.initialPhase || decide (state.srtt ≤ SIMTIME_ZERO) then none
    else
      match connection with
      | none => none
      | some connection =>
        if rate state ≤ 0 then none
        else if connectionRate connection view ≤ 0 then none
        else some (rate state / connectionRate connection view)

/-- `std::min(1.0, rateShare)`. -/
def coupledWeight (rateShare : ℚ) : ℚ := min 1 rateShare

/-- The scaled increase and what the last conversion cut off. -/
def exactAi (subflow : MetaSubflow) (state : OrbtcpStateVariables) (rateShare : ℚ) : ℚ :=
  state.additiveIncrease.toNat * coupledWeight rateShare + subflow.additiveIncreaseResidual

/-- Scale the additive increase; the residual keeps what the conversion cuts off. -/
def couple (subflow : MetaSubflow) (state : OrbtcpStateVariables) (rateShare : ℚ) : MetaSubflow :=
  if 0 < state.additiveIncrease then
    let coupledAi := MpOrbDelta.toUInt32 (exactAi subflow state rateShare)
    { subflow with
      additiveIncreaseResidual := exactAi subflow state rateShare - coupledAi.toNat
      state := some { state with additiveIncrease := coupledAi } }
  else subflow

/-- `MpOrbSemiCoupledAlpha::adjustAdditiveIncrease` called on `self`; the connection is `none`
without a meta connection. -/
def adjustAdditiveIncrease (connection : Option MpTcpConnection) (view : MetaView)
    (self : SocketId) : MetaSubflow :=
  match (view self).state, rateShare connection view self with
  | some state, some share => couple (view self) state share
  | _, _ => view self

theorem adjustAdditiveIncrease_withCredit (connection : Option MpTcpConnection) (view : MetaView)
    (self : SocketId) : ∃ residual additiveIncrease,
      adjustAdditiveIncrease connection view self =
        (view self).withCredit residual additiveIncrease := by
  unfold adjustAdditiveIncrease
  split
  · rename_i state share hstate _
    unfold couple
    split
    · refine ⟨exactAi (view self) state share -
          (MpOrbDelta.toUInt32 (exactAi (view self) state share)).toNat,
        MpOrbDelta.toUInt32 (exactAi (view self) state share), ?_⟩
      unfold MetaSubflow.withCredit
      rw [hstate]
      rfl
    · exact (view self).withCredit_self
  · exact (view self).withCredit_self

/-! ## The connection rate -/

section Rate

variable {connection : MpTcpConnection} {view : MetaView} {self : SocketId}
  {state : OrbtcpStateVariables}

/-- The rate added for a subflow, zero for the ones passed over. -/
def countedRate (subflow : MetaSubflow) : ℚ := (subflowRate subflow).getD 0

theorem subflowRate_eq_some {subflow : MetaSubflow} {added : ℚ} :
    subflowRate subflow = some added ↔
      subflow.fsmState.carriesData = true ∧ subflow.flavour.isAlpha = true ∧
        ∃ state, subflow.state = some state ∧ SIMTIME_ZERO < state.srtt ∧ 0 < rate state ∧
          added = rate state := by
  unfold subflowRate
  cases subflow.fsmState.carriesData <;> cases subflow.flavour.isAlpha <;>
    cases subflow.state with
    | none => simp
    | some state => simp [not_le, eq_comm]

theorem countedRate_nonneg (subflow : MetaSubflow) : 0 ≤ countedRate subflow := by
  unfold countedRate
  cases h : subflowRate subflow with
  | none => exact le_rfl
  | some added =>
    obtain ⟨-, -, state, -, -, hpos, rfl⟩ := subflowRate_eq_some.1 h
    exact hpos.le

theorem foldl_visitRate (view : MetaView) (subflows : List (Option SocketId)) (total : ℚ) :
    subflows.foldl (visitRate view) total =
      total + (subflows.reduceOption.map fun s => countedRate (view s)).sum := by
  induction subflows generalizing total with
  | nil => simp [List.reduceOption_nil]
  | cons o rest ih =>
    cases o with
    | none => rw [List.foldl_cons, List.reduceOption_cons_of_none, ih]; rfl
    | some s =>
      have hvisit : visitRate view total (some s) = total + countedRate (view s) := by
        simp only [visitRate, countedRate]
        cases subflowRate (view s) <;> simp
      rw [List.foldl_cons, List.reduceOption_cons_of_some, ih, hvisit, List.map_cons,
        List.sum_cons, add_assoc]

/-- **The loop sums the rates of the subflows it counts.** -/
theorem connectionRate_eq_sum (connection : MpTcpConnection) (view : MetaView) :
    connectionRate connection view =
      ∑ s ∈ connection.members.toFinset, countedRate (view s) := by
  rw [List.sum_toFinset _ connection.members_nodup]
  unfold connectionRate
  rw [foldl_visitRate, zero_add]
  rfl

/-! ## The share -/

theorem rateShare_eq_some {connection : Option MpTcpConnection} {share : ℚ}
    (h : rateShare connection view self = some share) :
    ∃ state conn, (view self).state = some state ∧ connection = some conn ∧
      (view self).firstRTT = false ∧ state.initialPhase = false ∧ SIMTIME_ZERO < state.srtt ∧
      0 < rate state ∧ 0 < connectionRate conn view ∧
      share = rate state / connectionRate conn view := by
  unfold rateShare at h
  split at h
  · cases h
  · rename_i state hstate
    split at h
    · cases h
    · rename_i hguard
      simp only [Bool.or_eq_true, decide_eq_true_eq, not_or, Bool.not_eq_true, not_le] at hguard
      split at h
      · cases h
      · rename_i conn
        split at h
        · cases h
        · rename_i hrate
          split at h
          · cases h
          · rename_i htotal
            cases h
            exact ⟨state, conn, hstate, rfl, hguard.1.1, hguard.1.2, hguard.2, not_le.1 hrate,
              not_le.1 htotal, rfl⟩

theorem coupledWeight_nonneg {connection : Option MpTcpConnection} {share : ℚ}
    (h : rateShare connection view self = some share) : 0 ≤ coupledWeight share := by
  obtain ⟨state, conn, -, -, -, -, -, hrate, htotal, rfl⟩ := rateShare_eq_some h
  exact le_min zero_le_one (div_nonneg hrate.le htotal.le)

theorem coupledWeight_le_one (share : ℚ) : coupledWeight share ≤ 1 := min_le_left _ _

end Rate

end MpOrbSemiCoupledAlpha

end MpOrb
