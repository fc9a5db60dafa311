import MpOrb.AlphaCredit
import MpOrb.Lib.Shares
import Mathlib.Order.Lattice.Nat

/-!
# Alpha splits one increase over a connection

Every subflow computes its own share in a call of its own, all from one snapshot.

* `sharingSubflows` — the Alpha subflows that carry data and have a window and an RTT sample: the
  ones the loop counts (`connectionRate_eq_sharing`).
* `steadySubflows` — those past startup: the ones that couple (`rateShare_steady`).
* `budget_split` — their weights add up to at most one, to one when all of a nonempty connection is
  past startup, and the new increases stay within the largest uncoupled one.
* `empty_connection_weight` — without any such subflow the weights add up to zero.
-/

set_option autoImplicit false

namespace MpOrb

open MpOrbSemiCoupledAlpha

/-- An Alpha subflow that carries data and has a window and an RTT sample. -/
def MetaSubflow.shares (subflow : MetaSubflow) : Bool :=
  subflow.fsmState.carriesData && subflow.flavour.isAlpha &&
    match subflow.state with
    | none => false
    | some state => decide (0 < state.snd_cwnd) && decide (SIMTIME_ZERO < state.srtt)

/-- Neither the algorithm nor OrbCC is in startup. -/
def MetaSubflow.pastStartup (subflow : MetaSubflow) : Bool :=
  !subflow.firstRTT &&
    match subflow.state with
    | none => false
    | some state => !state.initialPhase

/-- The subflows that the rate loop counts. -/
def sharingSubflows (connection : MpTcpConnection) (view : MetaView) : Finset SocketId :=
  connection.members.toFinset.filter fun s => (view s).shares = true

/-- Those of them that couple. -/
def steadySubflows (connection : MpTcpConnection) (view : MetaView) : Finset SocketId :=
  (sharingSubflows connection view).filter fun s => (view s).pastStartup = true

/-- The weight that a call on `s` computes, zero if it exits early. -/
def weightOf (connection : MpTcpConnection) (view : MetaView) (s : SocketId) : ℚ :=
  match rateShare (some connection) view s with
  | none => 0
  | some share => coupledWeight share

/-! ## The caller's rate and the siblings' rates -/

section Snapshot

variable {connection : MpTcpConnection} {view : MetaView} {s : SocketId}

theorem rate_pos_iff {state : OrbtcpStateVariables} (hsrtt : SIMTIME_ZERO < state.srtt) :
    0 < rate state ↔ 0 < state.snd_cwnd := by
  unfold rate SIMTIME_ZERO at *
  rw [div_pos_iff_of_pos_right hsrtt, Nat.cast_pos, UInt32.lt_iff_toNat_lt]
  rfl

theorem MetaSubflow.shares_iff {subflow : MetaSubflow} : subflow.shares = true ↔
    ∃ state, subflow.state = some state ∧ SIMTIME_ZERO < state.srtt ∧ 0 < rate state ∧
      subflowRate subflow = some (rate state) := by
  unfold MetaSubflow.shares
  cases hstate : subflow.state with
  | none => simp
  | some state =>
    simp only [Bool.and_eq_true, decide_eq_true_eq, Option.some.injEq, exists_eq_left']
    constructor
    · rintro ⟨⟨hfsm, hflavour⟩, hcwnd, hsrtt⟩
      have hrate := (rate_pos_iff hsrtt).2 hcwnd
      exact ⟨hsrtt, hrate, subflowRate_eq_some.2
        ⟨hfsm, hflavour, state, hstate, hsrtt, hrate, rfl⟩⟩
    · rintro ⟨hsrtt, hrate, hsibling⟩
      obtain ⟨hfsm, hflavour, -⟩ := subflowRate_eq_some.1 hsibling
      exact ⟨⟨hfsm, hflavour⟩, (rate_pos_iff hsrtt).1 hrate, hsrtt⟩

theorem countedRate_pos (h : (view s).shares = true) : 0 < countedRate (view s) := by
  obtain ⟨state, -, -, hrate, hsibling⟩ := MetaSubflow.shares_iff.1 h
  unfold countedRate
  rw [hsibling]
  exact hrate

theorem countedRate_eq_zero (h : ¬ (view s).shares = true) : countedRate (view s) = 0 := by
  unfold countedRate
  cases hsibling : subflowRate (view s) with
  | none => rfl
  | some added =>
    obtain ⟨-, -, state, hstate, hsrtt, hrate, rfl⟩ := subflowRate_eq_some.1 hsibling
    exact absurd (MetaSubflow.shares_iff.2 ⟨state, hstate, hsrtt, hrate, hsibling⟩) h

/-- **The connection rate is the rate of the sharing subflows.** -/
theorem connectionRate_eq_sharing (connection : MpTcpConnection) (view : MetaView) :
    connectionRate connection view =
      ∑ s ∈ sharingSubflows connection view, countedRate (view s) := by
  unfold sharingSubflows
  rw [connectionRate_eq_sum, Finset.sum_filter]
  apply Finset.sum_congr rfl
  intro s _
  split
  · rfl
  · rename_i hshares
    exact countedRate_eq_zero hshares

theorem mem_steadySubflows : s ∈ steadySubflows connection view ↔
    s ∈ connection.members ∧ (view s).shares = true ∧ (view s).pastStartup = true := by
  simp [steadySubflows, sharingSubflows, and_assoc]

theorem steady_subset : steadySubflows connection view ⊆ sharingSubflows connection view :=
  Finset.filter_subset _ _

theorem sharing_nonneg : ∀ s ∈ sharingSubflows connection view, 0 ≤ countedRate (view s) :=
  fun s _ => countedRate_nonneg (view s)

/-- **A steady subflow couples, with its part of the connection rate.** -/
theorem rateShare_steady (h : s ∈ steadySubflows connection view) :
    rateShare (some connection) view s =
      some (countedRate (view s) /
        ∑ j ∈ sharingSubflows connection view, countedRate (view j)) := by
  obtain ⟨hmem, hshares, hsteady⟩ := mem_steadySubflows.1 h
  obtain ⟨state, hstate, hsrtt, hrate, hsibling⟩ := MetaSubflow.shares_iff.1 hshares
  have hcounted : countedRate (view s) = rate state := by
    unfold countedRate
    rw [hsibling]
    rfl
  have htotal : 0 < connectionRate connection view := by
    rw [connectionRate_eq_sharing]
    have hle := Finset.single_le_sum sharing_nonneg (steady_subset h)
    exact (countedRate_pos hshares).trans_le hle
  unfold MetaSubflow.pastStartup at hsteady
  rw [hstate] at hsteady
  simp only [Bool.and_eq_true, Bool.not_eq_true'] at hsteady
  unfold rateShare
  rw [hstate, ← connectionRate_eq_sharing, hcounted]
  simp [hsteady, not_le.2 hsrtt, not_le.2 hrate, not_le.2 htotal]

theorem weightOf_steady (h : s ∈ steadySubflows connection view) :
    weightOf connection view s =
      countedRate (view s) / ∑ j ∈ sharingSubflows connection view, countedRate (view j) := by
  unfold weightOf
  rw [rateShare_steady h]
  exact min_eq_right (Shares.share_le_one sharing_nonneg (steady_subset h))

theorem weightOf_nonneg (h : s ∈ steadySubflows connection view) :
    0 ≤ weightOf connection view s := by
  rw [weightOf_steady h]
  exact Shares.share_nonneg sharing_nonneg (steady_subset h)

/-! ## The budget -/

theorem weights_le_one : ∑ s ∈ steadySubflows connection view, weightOf connection view s ≤ 1 := by
  rw [Finset.sum_congr rfl fun s hs => weightOf_steady hs]
  exact Shares.sum_le_one sharing_nonneg steady_subset

theorem weights_eq_one (hall : steadySubflows connection view = sharingSubflows connection view)
    (hne : (sharingSubflows connection view).Nonempty) :
    ∑ s ∈ steadySubflows connection view, weightOf connection view s = 1 := by
  rw [Finset.sum_congr rfl fun s hs => weightOf_steady hs, hall]
  apply Shares.sum_eq_one
  obtain ⟨s, hs⟩ := hne
  have hpos : 0 < countedRate (view s) := countedRate_pos (Finset.mem_filter.1 hs).2
  exact (hpos.trans_le (Finset.single_le_sum sharing_nonneg hs)).ne'

/-- A steady subflow turns its old residual and its part of the increase into the new increase and
the new residual. -/
theorem steady_balance (hres : (view s).ResidualKept) (h : s ∈ steadySubflows connection view) :
    ((adjustAdditiveIncrease (some connection) view s).additiveIncrease : ℚ) +
        (adjustAdditiveIncrease (some connection) view s).additiveIncreaseResidual =
      (view s).additiveIncrease * weightOf connection view s +
        (view s).additiveIncreaseResidual := by
  have hshare := rateShare_steady h
  have hsound : (creditEntry (some connection) view s).Sound := creditEntry_sound hres
  have hbalance := hsound.balance
  by_cases hcouples : (creditEntry (some connection) view s).Couples
  · unfold CreditEntry.coupledAi CreditEntry.exactAi at hbalance
    rw [if_pos hcouples, if_pos hcouples] at hbalance
    have hweight : weightOf connection view s =
        min 1 ((creditEntry (some connection) view s).rateShare.getD 0) := by
      simp only [weightOf, creditEntry, hshare]
      rfl
    rw [hweight]
    simp only [creditEntry] at hbalance ⊢
    linarith
  · have hzero : (view s).additiveIncrease = 0 := by
      by_contra hne
      exact hcouples ⟨by simp [creditEntry, hshare], Nat.pos_of_ne_zero hne⟩
    rw [creditEntry_skipped hcouples, hzero]
    simp

end Snapshot

/-- **Alpha splits one budget.**  For every snapshot of a connection the weights of its steady
subflows add up to at most one, and to exactly one when every sharing subflow is steady and there
is one; the new increases and residuals of the steady subflows stay within the largest uncoupled
increase and the old residuals.  The residuals are fractions, as every call leaves them. -/
theorem budget_split (connection : MpTcpConnection) (view : MetaView)
    (hres : ∀ s ∈ steadySubflows connection view, (view s).ResidualKept) :
    ∑ s ∈ steadySubflows connection view, weightOf connection view s ≤ 1 ∧
      (steadySubflows connection view = sharingSubflows connection view →
        (sharingSubflows connection view).Nonempty →
        ∑ s ∈ steadySubflows connection view, weightOf connection view s = 1) ∧
      ∑ s ∈ steadySubflows connection view,
          (((adjustAdditiveIncrease (some connection) view s).additiveIncrease : ℚ) +
            (adjustAdditiveIncrease (some connection) view s).additiveIncreaseResidual) ≤
        ((steadySubflows connection view).sup fun s => (view s).additiveIncrease : ℕ) +
          ∑ s ∈ steadySubflows connection view, (view s).additiveIncreaseResidual := by
  refine ⟨weights_le_one, weights_eq_one, ?_⟩
  have hweights : ∀ s ∈ steadySubflows connection view, 0 ≤ weightOf connection view s :=
    fun s hs => weightOf_nonneg hs
  have hlargest : ∀ s ∈ steadySubflows connection view, ((view s).additiveIncrease : ℚ) ≤
      ((steadySubflows connection view).sup fun s => (view s).additiveIncrease : ℕ) := by
    intro s hs
    exact Nat.cast_le.2 (Finset.le_sup (f := fun s => (view s).additiveIncrease) hs)
  have hsplit := Shares.split_le (Nat.cast_nonneg _) hweights weights_le_one hlargest
  rw [Finset.sum_congr rfl fun s hs =>
    steady_balance (hres s hs) hs, Finset.sum_add_distrib]
  linarith

/-- Two paths share one increase of 1000 bytes. -/
theorem budget_split_two_paths :
    ∑ s ∈ steadySubflows twoPaths (steadyView .alpha),
        weightOf twoPaths (steadyView .alpha) s = 1 ∧
      ∑ s ∈ steadySubflows twoPaths (steadyView .alpha),
          (((adjustAdditiveIncrease (some twoPaths) (steadyView .alpha) s).additiveIncrease : ℚ) +
            (adjustAdditiveIncrease (some twoPaths) (steadyView .alpha)
              s).additiveIncreaseResidual) ≤ 1000 := by
  obtain ⟨-, hone, hbound⟩ := budget_split twoPaths (steadyView .alpha)
    (fun s _ => ⟨le_rfl, zero_lt_one⟩)
  have hall : steadySubflows twoPaths (steadyView .alpha) =
      sharingSubflows twoPaths (steadyView .alpha) := by decide +kernel
  have hsup : ((steadySubflows twoPaths (steadyView .alpha)).sup fun s =>
      (steadyView .alpha s).additiveIncrease) = 1000 := by decide +kernel
  refine ⟨hone hall (by decide +kernel), ?_⟩
  rw [hsup] at hbound
  simpa [steadyView] using hbound

/-- Without a sharing subflow there is no weight to add up. -/
theorem empty_connection_weight :
    let connection : MpTcpConnection := ⟨[], List.nodup_nil⟩
    steadySubflows connection (steadyView .alpha) =
        sharingSubflows connection (steadyView .alpha) ∧
      ∑ s ∈ steadySubflows connection (steadyView .alpha),
        weightOf connection (steadyView .alpha) s ≠ 1 := by
  intro connection
  have hempty : steadySubflows connection (steadyView .alpha) = ∅ := rfl
  refine ⟨rfl, ?_⟩
  rw [hempty, Finset.sum_empty]
  exact zero_ne_one

end MpOrb
