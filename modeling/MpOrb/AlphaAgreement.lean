import MpOrb.AlphaBudget
import MpOrb.PacketProjection

/-!
# The projection couples like the production code

The `'ack'` branch of `packet_projection` and `MpOrbSemiCoupledAlpha::adjustAdditiveIncrease` scale
the additive increase each in its own way; only the residuals are carried from ACK to ACK.

* `Projection.ackIncrease`, `Projection.acknowledge_residual` — the integer increase of the branch
  and what the whole branch does to the residuals.
* `Deployment` — the subflows of a case as subflows of meta connections.
* `Mirrors`, `Ack` — an ACK, with the arrays of the projection and a snapshot of the production
  subflows that agree.
* `creditOf` — the common rule; `additiveIncrease_credit`, `adjust_credit` — both follow it.
* `alpha_step_agrees` — over every sequence of ACKs they compute the same increases and residuals.
-/

set_option autoImplicit false

namespace MpOrb.FluidModel

open PyFloat MpOrbSemiCoupledAlpha

variable {n m : ℕ}

/-! ## The branch of the projection -/

namespace Projection

variable (p : Projection ℚ n m)

/-- The increase before the Alpha weight. -/
def uncoupledIncrease (i : Fin n) (count : ℤ) (st : State ℚ n m) : Option ℤ :=
  int (lit AI_GAIN * p.case.capacity (p.case.pathLink i) / ofInt count * st.rawR i)

/-- The integer increase inside the `'ack'` branch. -/
def ackIncrease (t : ℚ) (packet : Packet ℚ n) (count : ℤ) (qdelay : ℚ) (st : State ℚ n m) :
    Option ℤ := do
  let st ← updateRtt t packet.subflow packet.sent qdelay st
  let (a, _) ← p.additiveIncrease packet.subflow count st
  return a

variable {p} {st : State ℚ n m} {i : Fin n} {count a : ℤ} {residual : ℚ}

theorem send_residual (p : Projection ℚ n m) (t : ℚ) (i : Fin n) (st : State ℚ n m) :
    ∃ st', p.send t i st = some st' ∧ st'.residual = st.residual := by
  unfold send
  split
  · exact ⟨st, rfl, rfl⟩
  · exact ⟨_, rfl, rfl⟩

theorem updateWindow_residual {u : ℚ} (hu : 0 < u)
    (h : p.additiveIncrease i count st = some (a, residual)) :
    ∃ st', p.updateWindow i u count st = some st' ∧
      st'.residual = Function.update st.residual i residual := by
  obtain ⟨target, htarget⟩ : ∃ target, targetWindow (st.V i) a u = some target := by
    unfold targetWindow
    split <;> exact ⟨_, rfl⟩
  unfold updateWindow
  rw [if_pos (by simpa using hu), h]
  simp only [Option.bind_eq_bind, Option.bind_some, htarget]
  split <;> exact ⟨_, rfl, rfl⟩

/-- **The branch updates one residual, by the increase it computes.** -/
theorem acknowledge_residual {st₁ : State ℚ n m} {t u qdelay : ℚ} {packet : Packet ℚ n}
    (hu : 0 < u) (hrtt : updateRtt t packet.subflow packet.sent qdelay st = some st₁)
    (h : p.additiveIncrease packet.subflow count st₁ = some (a, residual)) :
    ∃ st', p.acknowledge t packet u count qdelay st = some st' ∧
      st'.residual = Function.update st.residual packet.subflow residual := by
  obtain rfl := Option.some.inj hrtt
  let i := packet.subflow
  let settled : State ℚ n m := { st with
    F := Function.update st.F i (st.F i - MSS)
    delivered := Function.update st.delivered i (st.delivered i + MSS)
    history := { st.history with acked := packet :: st.history.acked } }
  obtain ⟨st₂, hrtt₂, hres₂, hai₂⟩ : ∃ st₂, updateRtt t i packet.sent qdelay settled = some st₂ ∧
      st₂.residual = st.residual ∧ p.additiveIncrease i count st₂ = some (a, residual) :=
    ⟨_, rfl, rfl, h⟩
  obtain ⟨st₃, hwindow, hres₃⟩ := updateWindow_residual hu hai₂
  obtain ⟨st₄, hsend, hres₄⟩ := send_residual p t i { st₃ with
    interval := Function.update st₃.interval i
      (ofInt MSS * st₃.s i / (lit (12 / 10) * ofInt (Max.max (st₃.W i) (st₃.F i)))) }
  have hfinal : st₄.residual = Function.update st.residual i residual := by
    rw [hres₄, ← hres₂]
    exact hres₃
  unfold acknowledge
  change ∃ st', (updateRtt t i packet.sent qdelay settled >>= _) = some st' ∧ _
  rw [hrtt₂]
  simp only [Option.bind_eq_bind, Option.bind_some]
  change ∃ st', ((p.updateWindow i u count st₂).bind _) = some st' ∧ _
  rw [hwindow, Option.bind_some]
  change ∃ st', ((p.send t i _).bind _) = some st' ∧ _
  rw [hsend, Option.bind_some]
  split
  · exact ⟨st₄, rfl, hfinal⟩
  · exact ⟨_, rfl, hfinal⟩

end Projection

/-! ## Both sides of an ACK -/

/-- The subflows of a case as subflows of meta connections, one for each connection id. -/
structure Deployment (case : Case ℚ n m) where
  socket : Fin n → SocketId
  injective : Function.Injective socket
  metaConnection : ℤ → MpTcpConnection
  members : ∀ c s, s ∈ (metaConnection c).members ↔ ∃ k, case.connection k = c ∧ socket k = s

/-- An Alpha subflow past startup that carries data, with this window and RTT; both are positive. -/
structure Mirrors (subflow : MetaSubflow) (W : ℤ) (s : ℚ) : Prop where
  shares : subflow.shares = true
  pastStartup : subflow.pastStartup = true
  state : ∃ state, subflow.state = some state ∧ (state.snd_cwnd.toNat : ℤ) = W ∧ state.srtt = s

/-- An ACK with feedback, the arrays of the projection before it, and the production subflows at
the moment of the coupling.  The residuals are those of the run. -/
structure Ack (p : Projection ℚ n m) (d : Deployment p.case) where
  t : ℚ
  packet : Packet ℚ n
  u : ℚ
  count : ℤ
  qdelay : ℚ
  arrays : State ℚ n m
  estimated : State ℚ n m
  view : MetaView
  feedback : 0 < u
  estimates : Projection.updateRtt t packet.subflow packet.sent qdelay arrays = some estimated
  mirrors : ∀ k, Mirrors (view (d.socket k)) (estimated.W k) (estimated.s k)
  increase : p.uncoupledIncrease packet.subflow count estimated =
    some ((view (d.socket packet.subflow)).additiveIncrease : ℤ)

/-- The arrays with the residuals of a run. -/
def State.withResidual (st : State ℚ n m) (residual : Fin n → ℚ) : State ℚ n m :=
  { st with residual }

/-- What a coupling computes: the integer increase, and the residuals after it. -/
structure AckCredit (n : ℕ) where
  increase : ℤ
  residual : Fin n → ℚ

section Steps

variable {p : Projection ℚ n m} {d : Deployment p.case}

/-- The `'ack'` branch; no output where Python raises. -/
def projectionStep (residual : Fin n → ℚ) (ack : Ack p d) : (Fin n → ℚ) × List (AckCredit n) :=
  let st := ack.arrays.withResidual residual
  match p.ackIncrease ack.t ack.packet ack.count ack.qdelay st,
    p.acknowledge ack.t ack.packet ack.u ack.count ack.qdelay st with
  | some increase, some st => (st.residual, [⟨increase, st.residual⟩])
  | _, _ => (residual, [])

/-- The call on the subflow of the ACK, which keeps its residual from the last call. -/
def Ack.call (ack : Ack p d) : CouplingCall where
  connection := some (d.metaConnection (p.case.connection ack.packet.subflow))
  view := ack.view
  self := d.socket ack.packet.subflow

/-- `MpOrbSemiCoupledAlpha::adjustAdditiveIncrease` on the subflow of the ACK. -/
def productionStep (residual : Fin n → ℚ) (ack : Ack p d) : (Fin n → ℚ) × List (AckCredit n) :=
  let i := ack.packet.subflow
  let after := adjustAdditiveIncrease ack.call.connection (ack.call.viewWith (residual i))
    ack.call.self
  let residual := Function.update residual i after.additiveIncreaseResidual
  (residual, [⟨after.additiveIncrease, residual⟩])

end Steps

/-! ## The common rule -/

/-- What is due is paid in whole bytes; without an increase nothing is due. -/
def creditOf (residual : ℚ) (a : ℕ) (weight : ℚ) : ℤ × ℚ :=
  if 0 < a then Carry.pay residual (a * weight) else (0, residual)

theorem creditOf_kept {residual : ℚ} (h : 0 ≤ residual ∧ residual < 1) (a : ℕ) (weight : ℚ) :
    0 ≤ (creditOf residual a weight).2 ∧ (creditOf residual a weight).2 < 1 := by
  unfold creditOf
  split
  · exact ⟨Carry.carry_nonneg _ _, Carry.carry_lt_one _ _⟩
  · exact h

/-- **The projection follows the rule**: its truncation is a floor. -/
theorem additiveIncrease_credit {p : Projection ℚ n m} {i : Fin n} {count : ℤ} {st : State ℚ n m}
    {a : ℕ} (halpha : p.case.alpha = true) (hres : 0 ≤ st.residual i)
    (hweight : 0 ≤ weights st.W st.s p.case i)
    (ha : p.uncoupledIncrease i count st = some (a : ℤ)) :
    p.additiveIncrease i count st =
      some (creditOf (st.residual i) a (weights st.W st.s p.case i)) := by
  have hexact : 0 ≤ (a : ℚ) * weights st.W st.s p.case i + st.residual i :=
    add_nonneg (mul_nonneg (Nat.cast_nonneg a) hweight) hres
  unfold Projection.additiveIncrease
  change (p.uncoupledIncrease i count st >>= _) = _
  rw [ha]
  simp only [Option.bind_eq_bind, Option.bind_some, halpha, Bool.true_and, decide_eq_true_eq,
    Int.natCast_pos, creditOf]
  by_cases hpos : 0 < a
  · rw [if_pos hpos, if_pos hpos]
    have hcast : (ofInt (a : ℤ) : ℚ) = a := Int.cast_natCast a
    rw [hcast, int_rat, Option.bind_some, Truncation.truncate_of_nonneg hexact]
    rfl
  · rw [if_neg hpos, if_neg hpos, Nat.eq_zero_of_not_pos hpos]
    rfl

/-- **The production code follows the rule.** -/
theorem adjust_credit {connection : MpTcpConnection} {view : MetaView} {s : SocketId}
    (hres : (view s).ResidualKept) (h : s ∈ steadySubflows connection view) :
    (((adjustAdditiveIncrease (some connection) view s).additiveIncrease : ℤ),
      (adjustAdditiveIncrease (some connection) view s).additiveIncreaseResidual) =
      creditOf (view s).additiveIncreaseResidual (view s).additiveIncrease
        (weightOf connection view s) := by
  obtain ⟨share, hshare⟩ : ∃ share, rateShare (some connection) view s = some share :=
    ⟨_, rateShare_steady h⟩
  have hweight : weightOf connection view s = coupledWeight share := by
    unfold weightOf
    rw [hshare]
  rw [hweight]
  unfold creditOf
  by_cases hpos : 0 < (view s).additiveIncrease
  · obtain ⟨hpaid, hcarried, -⟩ := adjustAdditiveIncrease_pay hres hshare hpos
    rw [if_pos hpos]
    exact Prod.ext hpaid hcarried
  · have hskip : ¬ (creditEntry (some connection) view s).Couples := fun h => hpos h.2
    rw [if_neg hpos, creditEntry_skipped hskip, Nat.eq_zero_of_not_pos hpos]
    rfl

/-! ## The weights -/

section Weights

variable {case : Case ℚ n m} {d : Deployment case} {view : MetaView} {W : Fin n → ℤ}
  {srtt : Fin n → ℚ}

theorem Mirrors.withResidual {subflow : MetaSubflow} {W : ℤ} {s : ℚ} (h : Mirrors subflow W s)
    (residual : ℚ) : Mirrors { subflow with additiveIncreaseResidual := residual } W s :=
  ⟨h.shares, h.pastStartup, h.state⟩

theorem Mirrors.countedRate {subflow : MetaSubflow} {W : ℤ} {s : ℚ} (h : Mirrors subflow W s) :
    countedRate subflow = W / s := by
  obtain ⟨state, hstate, -, -, hrate⟩ := MetaSubflow.shares_iff.1 h.shares
  obtain ⟨state', hstate', rfl, rfl⟩ := h.state
  rw [hstate] at hstate'
  cases hstate'
  unfold MpOrbSemiCoupledAlpha.countedRate
  rw [hrate, Option.getD_some, rate, Int.cast_natCast]

theorem Deployment.members_toFinset (d : Deployment case) (c : ℤ) :
    (d.metaConnection c).members.toFinset =
      (Finset.univ.filter fun k => case.connection k = c).image d.socket := by
  ext s
  simp [d.members]

theorem mem_steady (hmirrors : ∀ k, Mirrors (view (d.socket k)) (W k) (srtt k)) (i : Fin n) :
    d.socket i ∈ steadySubflows (d.metaConnection (case.connection i)) view :=
  mem_steadySubflows.2 ⟨(d.members _ _).2 ⟨i, rfl, rfl⟩, (hmirrors i).shares,
    (hmirrors i).pastStartup⟩

/-- **The weight of the projection is the weight of the production code.** -/
theorem weights_eq_weightOf (halpha : case.alpha = true)
    (hmirrors : ∀ k, Mirrors (view (d.socket k)) (W k) (srtt k)) (i : Fin n) :
    weights W srtt case i =
      weightOf (d.metaConnection (case.connection i)) view (d.socket i) := by
  have hsum : PyFloat.sum (((List.finRange n).filter fun k =>
      case.connection k = case.connection i).map fun k => (W k : ℚ) / srtt k) =
      ∑ k with case.connection k = case.connection i, (W k : ℚ) / srtt k := by
    rw [sum_rat, ← List.sum_toFinset _ ((List.nodup_finRange n).filter _)]
    congr 1
    ext k
    simp
  have hrates : ∑ s ∈ (d.metaConnection (case.connection i)).members.toFinset,
      countedRate (view s) =
        ∑ k with case.connection k = case.connection i, (W k : ℚ) / srtt k := by
    rw [d.members_toFinset, Finset.sum_image d.injective.injOn]
    exact Finset.sum_congr rfl fun k _ => (hmirrors k).countedRate
  rw [weightOf_steady (mem_steady hmirrors i), ← connectionRate_eq_sharing, connectionRate_eq_sum,
    hrates, ← hsum, (hmirrors i).countedRate]
  unfold weights
  rw [halpha]
  rfl

end Weights

/-! ## Runs -/

section Runs

variable {p : Projection ℚ n m} {d : Deployment p.case} {residual : Fin n → ℚ}

/-- The snapshot of the production subflows, with the residual of the caller. -/
def Ack.viewWith (ack : Ack p d) (residual : Fin n → ℚ) : MetaView :=
  ack.call.viewWith (residual ack.packet.subflow)

theorem Ack.viewWith_self (ack : Ack p d) (residual : Fin n → ℚ) :
    ack.viewWith residual (d.socket ack.packet.subflow) =
      { ack.view (d.socket ack.packet.subflow) with
        additiveIncreaseResidual := residual ack.packet.subflow } :=
  Function.update_self ..

theorem Ack.mirrors_viewWith (ack : Ack p d) (residual : Fin n → ℚ) (k : Fin n) :
    Mirrors (ack.viewWith residual (d.socket k)) (ack.estimated.W k) (ack.estimated.s k) := by
  by_cases hk : k = ack.packet.subflow
  · subst hk
    rw [ack.viewWith_self]
    exact (ack.mirrors _).withResidual _
  · have hsocket : d.socket k ≠ d.socket ack.packet.subflow := d.injective.ne hk
    have hother : ack.viewWith residual (d.socket k) = ack.view (d.socket k) :=
      Function.update_of_ne hsocket ..
    rw [hother]
    exact ack.mirrors k

/-- What both steps compute. -/
def Ack.credit (ack : Ack p d) (residual : Fin n → ℚ) : ℤ × ℚ :=
  creditOf (residual ack.packet.subflow) (ack.view (d.socket ack.packet.subflow)).additiveIncrease
    (weights ack.estimated.W ack.estimated.s p.case ack.packet.subflow)

def Ack.step (ack : Ack p d) (residual : Fin n → ℚ) : (Fin n → ℚ) × List (AckCredit n) :=
  let residual' := Function.update residual ack.packet.subflow (ack.credit residual).2
  (residual', [⟨(ack.credit residual).1, residual'⟩])

theorem projectionStep_eq (halpha : p.case.alpha = true)
    (hres : ∀ k, 0 ≤ residual k ∧ residual k < 1) (ack : Ack p d) :
    projectionStep residual ack = ack.step residual := by
  have hrtt : Projection.updateRtt ack.t ack.packet.subflow ack.packet.sent ack.qdelay
      (ack.arrays.withResidual residual) = some (ack.estimated.withResidual residual) := by
    rw [← Option.some.inj ack.estimates]
    rfl
  have hweight : 0 ≤ weights ack.estimated.W ack.estimated.s p.case ack.packet.subflow := by
    rw [weights_eq_weightOf halpha ack.mirrors]
    exact weightOf_nonneg (mem_steady ack.mirrors _)
  have hincrease : p.additiveIncrease ack.packet.subflow ack.count
      (ack.estimated.withResidual residual) =
        some ((ack.credit residual).1, (ack.credit residual).2) :=
    additiveIncrease_credit halpha (hres _).1 hweight ack.increase
  obtain ⟨st, hack, hresidual⟩ := Projection.acknowledge_residual ack.feedback hrtt hincrease
  have hinside : p.ackIncrease ack.t ack.packet ack.count ack.qdelay
      (ack.arrays.withResidual residual) = some (ack.credit residual).1 := by
    unfold Projection.ackIncrease
    rw [hrtt, Option.bind_eq_bind, Option.bind_some, hincrease]
    rfl
  unfold projectionStep Ack.step
  simp only [hinside, hack, hresidual]
  rfl

theorem productionStep_eq (halpha : p.case.alpha = true)
    (hres : ∀ k, 0 ≤ residual k ∧ residual k < 1) (ack : Ack p d) :
    productionStep residual ack = ack.step residual := by
  have hself := ack.viewWith_self residual
  have hmirrors := ack.mirrors_viewWith residual
  have hkept : (ack.viewWith residual (d.socket ack.packet.subflow)).ResidualKept := by
    rw [hself]
    exact hres _
  have hcredit := adjust_credit hkept (mem_steady hmirrors ack.packet.subflow)
  rw [← weights_eq_weightOf halpha hmirrors, hself] at hcredit
  change _ = ack.credit residual at hcredit
  unfold productionStep Ack.step
  rw [← hcredit]
  rfl

theorem step_kept (hres : ∀ k, 0 ≤ residual k ∧ residual k < 1) (ack : Ack p d) :
    ∀ k, 0 ≤ (ack.step residual).1 k ∧ (ack.step residual).1 k < 1 := by
  intro k
  show 0 ≤ Function.update residual _ _ k ∧ Function.update residual _ _ k < 1
  rw [Function.update_apply]
  split
  · exact creditOf_kept (hres _) _ _
  · exact hres k

end Runs

/-- **The projection couples like the production code.**  For every grouping of subflows into Alpha
connections and every sequence of ACKs, from residuals of zero, both compute the same integer
increase at every ACK and the same residuals of all subflows after it. -/
theorem alpha_step_agrees (p : Projection ℚ n m) (d : Deployment p.case)
    (halpha : p.case.alpha = true) (acks : List (Ack p d)) :
    Machine.run projectionStep (fun _ => 0) acks =
      Machine.run productionStep (fun _ => 0) acks := by
  let Kept (residual : Fin n → ℚ) : Prop := ∀ k, 0 ≤ residual k ∧ residual k < 1
  have hstart : Kept fun _ => 0 := fun _ => ⟨le_rfl, zero_lt_one⟩
  apply Machine.run_congr Kept _ _ hstart
  · intro residual ack hres
    rw [productionStep_eq halpha hres]
    exact step_kept hres ack
  · intro residual ack hres
    rw [projectionStep_eq halpha hres, productionStep_eq halpha hres]

/-- Two links of one connection; the second one has a fifth of the capacity and the longer RTT. -/
def slowerLink : Projection ℚ 2 2 :=
  { case := {
      capacity := ![1000000, 200000]
      pathLink := id
      connection := fun _ => 0
      propagation := ![1 / 50, 1 / 10]
      initialFraction := fun _ => 181 / 250 }
    duration := 1
    rng := fun _ => 0 }

def slowerLinkDeployment : Deployment slowerLink.case where
  socket := ![1, 2]
  injective := by decide
  metaConnection c := if c = 0 then twoPaths else ⟨[], List.nodup_nil⟩
  members c s := by
    by_cases hc : c = 0
    · subst hc
      simp [slowerLink, twoPaths, MpTcpConnection.members, List.reduceOption, eq_comm]
    · simp [slowerLink, hc, Ne.symm hc, MpTcpConnection.members, List.reduceOption]

/-- The first ACK of the faster subflow. -/
def fasterAck : Ack slowerLink slowerLinkDeployment where
  t := 1 / 50
  packet := ⟨0, 0, 0, 0, 0⟩
  u := 1
  count := 1
  qdelay := 0
  arrays := slowerLink.initial
  estimated := (Projection.updateRtt (1 / 50) 0 0 0 slowerLink.initial).get rfl
  view := steadyView .alpha
  feedback := one_pos
  estimates := rfl
  mirrors := Fin.forall_fin_two.2
    ⟨⟨by decide +kernel, rfl, _, rfl, by decide +kernel, by decide +kernel⟩,
      ⟨by decide +kernel, rfl, _, rfl, by decide +kernel, by decide +kernel⟩⟩
  increase := by decide +kernel

/-- The faster subflow gets five sixths of 1000 bytes, and the third ACK pays what was carried. -/
theorem alpha_step_agrees_slower_link :
    (Machine.run projectionStep (fun _ => 0) [fasterAck, fasterAck, fasterAck]).2.map
      AckCredit.increase = [833, 833, 834] := by
  rw [alpha_step_agrees slowerLink slowerLinkDeployment rfl]
  decide +kernel

end MpOrb.FluidModel
