import MpOrb.Coupling
import MpOrb.Lib.Carry
import MpOrb.Lib.Machine

/-!
# Alpha neither loses nor invents credit

A run calls `adjustAdditiveIncrease` on one subflow.  Only the residual is carried from call to
call; the uncoupled increase, the siblings and the caller's own state are new at every call.

* `couple_eq_pay` — a call that couples pays its due from the residual (`Carry.pay`), and the
  conversion to `uint32_t` is exact.
* `couplingStep` — one call, with what it writes down (`CreditEntry`).
* `alpha_credit` — over every run the coupled increases and the residual balance what is due.
-/

set_option autoImplicit false

namespace MpOrb

/-- The additive increase, zero without a state. -/
def MetaSubflow.additiveIncrease (subflow : MetaSubflow) : ℕ :=
  match subflow.state with
  | none => 0
  | some state => state.additiveIncrease.toNat

theorem MetaSubflow.additiveIncrease_eq {subflow : MetaSubflow} {state : OrbtcpStateVariables}
    (h : subflow.state = some state) :
    subflow.additiveIncrease = state.additiveIncrease.toNat := by
  unfold MetaSubflow.additiveIncrease
  rw [h]

/-- The residual is a fraction of a byte. -/
def MetaSubflow.ResidualKept (subflow : MetaSubflow) : Prop :=
  0 ≤ subflow.additiveIncreaseResidual ∧ subflow.additiveIncreaseResidual < 1

namespace MpOrbSemiCoupledAlpha

/-! ## One call -/

section Call

variable {subflow : MetaSubflow} {state : OrbtcpStateVariables} {share : ℚ}

/-- What a call that couples has to pay. -/
def dueIncrease (state : OrbtcpStateVariables) (share : ℚ) : ℚ :=
  state.additiveIncrease.toNat * coupledWeight share

theorem dueIncrease_le (state : OrbtcpStateVariables) (share : ℚ) :
    dueIncrease state share ≤ ((state.additiveIncrease.toNat : ℤ) : ℚ) := by
  unfold dueIncrease
  push_cast
  exact mul_le_of_le_one_right (Nat.cast_nonneg _) (coupledWeight_le_one share)

/-- **A call that couples pays its due, and the conversion is exact.** -/
theorem couple_eq_pay (hres : subflow.ResidualKept) (hweight : 0 ≤ coupledWeight share)
    (hAI : 0 < state.additiveIncrease) :
    ∃ coupledAi : UInt32, couple subflow state share =
        { subflow with
          additiveIncreaseResidual :=
            (Carry.pay subflow.additiveIncreaseResidual (dueIncrease state share)).2
          state := some { state with additiveIncrease := coupledAi } } ∧
      (coupledAi.toNat : ℤ) =
        (Carry.pay subflow.additiveIncreaseResidual (dueIncrease state share)).1 ∧
      coupledAi.toNat ≤ state.additiveIncrease.toNat := by
  obtain ⟨hlow, hhigh⟩ := hres
  have hdue : 0 ≤ dueIncrease state share := mul_nonneg (Nat.cast_nonneg _) hweight
  have hpaid := Carry.paid_le hhigh (dueIncrease_le state share)
  have hrange : state.additiveIncrease.toNat < 2 ^ 32 := state.additiveIncrease.toNat_lt
  have hmax : UINT32_MAX = 2 ^ 32 - 1 := rfl
  have hexact := MpOrbDelta.toUInt32_eq_floor (add_nonneg hdue hlow)
    (show (Carry.pay subflow.additiveIncreaseResidual (dueIncrease state share)).1 ≤ _ by omega)
  have hcast := congrArg (Int.cast : ℤ → ℚ) hexact
  rw [Int.cast_natCast] at hcast
  refine ⟨MpOrbDelta.toUInt32 (dueIncrease state share + subflow.additiveIncreaseResidual), ?_,
    hexact, ?_⟩
  · unfold couple
    rw [if_pos hAI]
    have hres : exactAi subflow state share -
        ((MpOrbDelta.toUInt32 (exactAi subflow state share)).toNat : ℚ) =
          (Carry.pay subflow.additiveIncreaseResidual (dueIncrease state share)).2 := by
      rw [show exactAi subflow state share =
        dueIncrease state share + subflow.additiveIncreaseResidual from rfl, hcast]
      rfl
    simp only [hres]
    rfl
  · exact Int.ofNat_le.1 (hexact.trans_le hpaid)

theorem couple_zero (hAI : ¬ 0 < state.additiveIncrease) : couple subflow state share = subflow :=
  if_neg hAI

theorem adjustAdditiveIncrease_eq {connection : Option MpTcpConnection} {view : MetaView}
    {self : SocketId} (hshare : rateShare connection view self = some share)
    (hstate : (view self).state = some state) :
    adjustAdditiveIncrease connection view self = couple (view self) state share := by
  unfold adjustAdditiveIncrease
  rw [hstate, hshare]

/-- **A call on a subflow with an increase pays what its weight makes due.** -/
theorem adjustAdditiveIncrease_pay {connection : Option MpTcpConnection} {view : MetaView}
    {self : SocketId} (hres : (view self).ResidualKept)
    (hshare : rateShare connection view self = some share)
    (hAI : 0 < (view self).additiveIncrease) :
    ((adjustAdditiveIncrease connection view self).additiveIncrease : ℤ) =
        (Carry.pay (view self).additiveIncreaseResidual
          ((view self).additiveIncrease * coupledWeight share)).1 ∧
      (adjustAdditiveIncrease connection view self).additiveIncreaseResidual =
        (Carry.pay (view self).additiveIncreaseResidual
          ((view self).additiveIncrease * coupledWeight share)).2 ∧
      (adjustAdditiveIncrease connection view self).additiveIncrease ≤
        (view self).additiveIncrease := by
  obtain ⟨state, -, hstate, -⟩ := rateShare_eq_some hshare
  rw [MetaSubflow.additiveIncrease_eq hstate] at hAI ⊢
  obtain ⟨coupledAi, hcouple, hpaid, hle⟩ := couple_eq_pay hres (coupledWeight_nonneg hshare)
    (UInt32.lt_iff_toNat_lt.2 hAI)
  rw [adjustAdditiveIncrease_eq hshare hstate, hcouple]
  exact ⟨hpaid, rfl, hle⟩

theorem adjustAdditiveIncrease_exit {connection : Option MpTcpConnection} {view : MetaView}
    {self : SocketId} (hshare : rateShare connection view self = none) :
    adjustAdditiveIncrease connection view self = view self := by
  unfold adjustAdditiveIncrease
  rw [hshare]
  split
  · rename_i h
    cases h
  · rfl

end Call

end MpOrbSemiCoupledAlpha

/-! ## What a call writes down -/

open MpOrbSemiCoupledAlpha

/-- A call of `adjustAdditiveIncrease`: the caller before and after, and its share. -/
structure CreditEntry where
  before : MetaSubflow
  after : MetaSubflow
  rateShare : Option ℚ

namespace CreditEntry

variable (entry : CreditEntry)

/-- The guards are passed and there is something to couple. -/
def Couples : Prop := entry.rateShare.isSome = true ∧ 0 < entry.before.additiveIncrease

instance : Decidable entry.Couples := inferInstanceAs (Decidable (_ ∧ _))

/-- The coupled increase of a call that couples. -/
def coupledAi : ℚ := if entry.Couples then entry.after.additiveIncrease else 0

/-- The exact increase that is due to a call that couples. -/
def exactAi : ℚ :=
  if entry.Couples then entry.before.additiveIncrease * min 1 (entry.rateShare.getD 0) else 0

/-- What a call leaves of the residual and of the increase. -/
structure Sound : Prop where
  residual : entry.after.ResidualKept
  coupled : entry.Couples →
    (entry.after.additiveIncrease : ℤ) =
        ⌊entry.exactAi + entry.before.additiveIncreaseResidual⌋ ∧
      entry.after.additiveIncrease ≤ entry.before.additiveIncrease
  skipped : ¬ entry.Couples → entry.after = entry.before
  balance : entry.after.additiveIncreaseResidual + entry.coupledAi =
    entry.before.additiveIncreaseResidual + entry.exactAi

end CreditEntry

/-- The entry of a call. -/
def creditEntry (connection : Option MpTcpConnection) (view : MetaView) (self : SocketId) :
    CreditEntry where
  before := view self
  after := adjustAdditiveIncrease connection view self
  rateShare := rateShare connection view self

section Entry

variable {connection : Option MpTcpConnection} {view : MetaView} {self : SocketId}

theorem creditEntry_skipped (h : ¬ (creditEntry connection view self).Couples) :
    adjustAdditiveIncrease connection view self = view self := by
  cases hshare : rateShare connection view self with
  | none => exact adjustAdditiveIncrease_exit hshare
  | some share =>
    obtain ⟨state, -, hstate, -⟩ := rateShare_eq_some hshare
    rw [adjustAdditiveIncrease_eq hshare hstate]
    apply couple_zero
    intro hAI
    refine h ⟨by simp [creditEntry, hshare], ?_⟩
    show 0 < (view self).additiveIncrease
    rw [MetaSubflow.additiveIncrease_eq hstate]
    exact UInt32.lt_iff_toNat_lt.1 hAI

/-- **Every call pays its due exactly, or changes nothing.** -/
theorem creditEntry_sound (hres : (view self).ResidualKept) :
    (creditEntry connection view self).Sound := by
  by_cases hcouples : (creditEntry connection view self).Couples
  · obtain ⟨hsome, hAI⟩ := hcouples
    obtain ⟨share, hshare⟩ := Option.isSome_iff_exists.1 hsome
    have hshare : rateShare connection view self = some share := hshare
    obtain ⟨hpaid, hcarried, hle⟩ := adjustAdditiveIncrease_pay hres hshare hAI
    have hexact : (creditEntry connection view self).exactAi =
        (view self).additiveIncrease * coupledWeight share := by
      unfold CreditEntry.exactAi
      rw [if_pos ⟨hsome, hAI⟩]
      simp only [creditEntry, hshare]
      rfl
    have hcoupled : (creditEntry connection view self).coupledAi =
        ((adjustAdditiveIncrease connection view self).additiveIncrease : ℤ) := by
      unfold CreditEntry.coupledAi
      rw [if_pos ⟨hsome, hAI⟩]
      rfl
    refine ⟨?_, ?_, ?_, ?_⟩
    · show 0 ≤ (adjustAdditiveIncrease connection view self).additiveIncreaseResidual ∧
        (adjustAdditiveIncrease connection view self).additiveIncreaseResidual < 1
      rw [hcarried]
      exact ⟨Carry.carry_nonneg _ _, Carry.carry_lt_one _ _⟩
    · intro _
      rw [hexact]
      exact ⟨hpaid, hle⟩
    · intro h
      exact absurd ⟨hsome, hAI⟩ h
    · have hadd := Carry.pay_add (view self).additiveIncreaseResidual
        ((view self).additiveIncrease * coupledWeight share)
      rw [hexact, hcoupled, hpaid]
      simp only [creditEntry, hcarried]
      linarith
  · have hskip := creditEntry_skipped hcouples
    refine ⟨?_, ?_, ?_, ?_⟩
    · simp only [creditEntry, hskip]
      exact hres
    · intro h
      exact absurd h hcouples
    · intro _
      exact hskip
    · unfold CreditEntry.coupledAi CreditEntry.exactAi
      rw [if_neg hcouples, if_neg hcouples]
      simp only [creditEntry, hskip]

end Entry

/-! ## Runs -/

/-- The arguments of a call: everything but the residual of the caller. -/
structure CouplingCall where
  connection : Option MpTcpConnection
  view : MetaView
  self : SocketId

/-- The view of a call, with the residual that the caller has kept. -/
def CouplingCall.viewWith (call : CouplingCall) (residual : ℚ) : MetaView :=
  Function.update call.view call.self
    { call.view call.self with additiveIncreaseResidual := residual }

/-- One call on the subflow that keeps `residual`. -/
def couplingStep (residual : ℚ) (call : CouplingCall) : ℚ × List CreditEntry :=
  let entry := creditEntry call.connection (call.viewWith residual) call.self
  (entry.after.additiveIncreaseResidual, [entry])

/-- **One call is sound and keeps the residual a fraction.** -/
theorem couplingStep_sound {residual : ℚ} (hres : 0 ≤ residual ∧ residual < 1)
    (call : CouplingCall) :
    (creditEntry call.connection (call.viewWith residual) call.self).Sound ∧
      (creditEntry call.connection (call.viewWith residual)
        call.self).before.additiveIncreaseResidual = residual := by
  have hbefore : (call.viewWith residual call.self).additiveIncreaseResidual = residual := by
    simp [CouplingCall.viewWith]
  refine ⟨creditEntry_sound ?_, hbefore⟩
  unfold MetaSubflow.ResidualKept
  rwa [hbefore]

/-- **Alpha never loses or invents credit.**  In every run of calls, from a residual of zero, every
call is sound; the coupled increases and the final residual add up to the exact increases, and the
running total is less than a byte away from the exact one. -/
theorem alpha_credit (calls : List CouplingCall) :
    (0 ≤ (Machine.run couplingStep 0 calls).1 ∧ (Machine.run couplingStep 0 calls).1 < 1) ∧
      (∀ entry ∈ (Machine.run couplingStep 0 calls).2, entry.Sound) ∧
      ((Machine.run couplingStep 0 calls).2.map CreditEntry.coupledAi).sum +
          (Machine.run couplingStep 0 calls).1 =
        ((Machine.run couplingStep 0 calls).2.map CreditEntry.exactAi).sum ∧
      |((Machine.run couplingStep 0 calls).2.map CreditEntry.coupledAi).sum -
        ((Machine.run couplingStep 0 calls).2.map CreditEntry.exactAi).sum| < 1 := by
  have hkeep : ∀ residual call, 0 ≤ residual ∧ residual < 1 →
      0 ≤ (couplingStep residual call).1 ∧ (couplingStep residual call).1 < 1 := by
    intro residual call hres
    exact (couplingStep_sound hres call).1.residual
  have hstart : (0 : ℚ) ≤ 0 ∧ (0 : ℚ) < 1 := ⟨le_rfl, zero_lt_one⟩
  have hfinal := Machine.run_inv _ hkeep hstart calls
  have hbalance := Machine.run_balance _ hkeep id CreditEntry.coupledAi CreditEntry.exactAi
    (fun residual call hres => by
      obtain ⟨hsound, hbefore⟩ := couplingStep_sound hres call
      have hentry := hsound.balance
      rw [hbefore] at hentry
      simpa [couplingStep] using hentry) hstart calls
  simp only [id_eq, zero_add] at hbalance
  refine ⟨hfinal, ?_, by linarith, ?_⟩
  · refine Machine.run_out _ hkeep ?_ hstart calls
    intro residual call hres entry hentry
    rw [List.mem_singleton.1 hentry]
    exact (couplingStep_sound hres call).1
  · rw [abs_lt]
    constructor <;> linarith [hfinal.1, hfinal.2]

end MpOrb
