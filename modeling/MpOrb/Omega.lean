import MpOrb.Coupling
import MpOrb.Lib.Machine

/-!
# Omega: Delta with a boost at the commit

`MpOrbOmega::computeWnd` shows its parent a larger additive increase during one call and puts the
old one back.  The parent's `computeWnd` is a parameter, an arbitrary transformer of the sender
(`ComputeWnd`); `deltaComputeWnd` is Delta's.

* `boosts`, `presentedIncrease` — when and how much; `presentedIncrease_ge`.
* `computeWnd` — the call.
* `OmegaCall.Sound` — what a call does; `omegaCall_sound`.
* `deltaComputeWnd_monotone` — over a monotone Alpha, Delta is a monotone parent.
* `recording` — a parent that writes down how it is called.
* `omega_boost` — over every run: every call is sound, the parent is called once for each, and the
  increase is always the one last set from outside.
-/

set_option autoImplicit false

namespace MpOrb

/-- What `MpOrbOmega::computeWnd` reads and writes; `parent` holds the parent's own variables. -/
structure MpOrbOmega (β : Type) where
  state : OrbtcpStateVariables
  firstRTT : Bool
  rtt : SimTime
  parent : β

/-- The parent's `computeWnd`. -/
abbrev ComputeWnd (β : Type) := MpOrbOmega β → Double → Bool → UInt32 × MpOrbOmega β

namespace MpOrbOmega

variable {β : Type}

/-- A commit past startup with a clear deficit. -/
def boosts (o : MpOrbOmega β) (u : Double) (updateWc : Bool) : Bool :=
  updateWc && !o.firstRTT && !o.state.initialPhase && u.isFinite && Double.le (.fin 0) u &&
    Double.lt u (.fin (3 / 4)) && decide (0 < o.state.sharingFlows) && decide (SIMTIME_ZERO < o.rtt)

/-- `0.2 * (bottBW / sharingFlows) * (0.95 - u) * rtt`; the factors of a special `bottBW` are
positive and leave it as it is. -/
def fastAi (o : MpOrbOmega β) (u : ℚ) : Double :=
  match o.state.bottBW with
  | .fin bottBW => .fin (1 / 5 * (bottBW / o.state.sharingFlows) * (19 / 20 - u) * o.rtt)
  | special => special

/-- The additive increase that the parent sees. -/
def presentedIncrease (o : MpOrbOmega β) (u : Double) (updateWc : Bool) : UInt32 :=
  let alphaAi := o.state.additiveIncrease
  if o.boosts u updateWc then
    MpOrbDelta.toUInt32 (Double.min (Double.max (.fin alphaAi.toNat) (o.fastAi u.toRat))
      (.fin UINT32_MAX)).toRat
  else alphaAi

/-- The sender with another additive increase. -/
def withIncrease (o : MpOrbOmega β) (additiveIncrease : UInt32) : MpOrbOmega β :=
  { o with state := { o.state with additiveIncrease } }

/-- The sender that the parent sees. -/
def presented (o : MpOrbOmega β) (u : Double) (updateWc : Bool) : MpOrbOmega β :=
  o.withIncrease (o.presentedIncrease u updateWc)

/-- `MpOrbOmega::computeWnd`: the parent's call, then the old increase is put back. -/
def computeWnd (parentComputeWnd : ComputeWnd β) (o : MpOrbOmega β) (u : Double)
    (updateWc : Bool) : UInt32 × MpOrbOmega β :=
  let alphaAi := o.state.additiveIncrease
  let (window, o') := parentComputeWnd (o.presented u updateWc) u updateWc
  (window, o'.withIncrease alphaAi)

/-- The increase that is signalled on top of Alpha's: `uint32_t` subtraction. -/
def extraAi (o : MpOrbOmega β) (u : Double) (updateWc : Bool) : UInt32 :=
  o.presentedIncrease u updateWc - o.state.additiveIncrease

/-! ## The presented increase -/

section Presented

variable {o : MpOrbOmega β} {u : Double} {updateWc : Bool}

/-- The condition of the boost. -/
structure Boosted (o : MpOrbOmega β) (u : Double) (updateWc : Bool) : Prop where
  commit : updateWc = true
  pastStartup : o.firstRTT = false ∧ o.state.initialPhase = false
  deficit : ∃ q, u = .fin q ∧ 0 ≤ q ∧ q < 3 / 4
  sharing : 0 < o.state.sharingFlows
  rtt : SIMTIME_ZERO < o.rtt

theorem boosts_iff : o.boosts u updateWc = true ↔ Boosted o u updateWc := by
  unfold boosts
  cases u with
  | fin q =>
    simp only [Bool.and_eq_true, Bool.not_eq_true', decide_eq_true_eq, Double.fin_le_fin,
      Double.fin_lt_fin, Double.isFinite]
    constructor
    · rintro ⟨⟨⟨⟨⟨⟨⟨hcommit, hfirst⟩, hphase⟩, -⟩, hlow⟩, hhigh⟩, hsharing⟩, hrtt⟩
      exact ⟨hcommit, ⟨hfirst, hphase⟩, ⟨q, rfl, hlow, hhigh⟩, hsharing, hrtt⟩
    · rintro ⟨hcommit, ⟨hfirst, hphase⟩, ⟨_, ⟨⟩, hlow, hhigh⟩, hsharing, hrtt⟩
      exact ⟨⟨⟨⟨⟨⟨⟨hcommit, hfirst⟩, hphase⟩, trivial⟩, hlow⟩, hhigh⟩, hsharing⟩, hrtt⟩
  | nan | negInf | posInf =>
    refine iff_of_false (by simp [Double.isFinite]) ?_
    rintro ⟨-, -, ⟨q, hq, -⟩, -⟩
    cases hq

theorem increase_le_max (a : UInt32) : (a.toNat : ℚ) ≤ UINT32_MAX := by
  have hlt : a.toNat < 2 ^ 32 := a.toNat_lt
  have hmax : UINT32_MAX = 2 ^ 32 - 1 := rfl
  exact Nat.cast_le.2 (by omega)

theorem toUInt32_between {a : UInt32} {x : ℚ} (hlow : (a.toNat : ℚ) ≤ x) (hhigh : x ≤ UINT32_MAX) :
    ((MpOrbDelta.toUInt32 x).toNat : ℤ) = ⌊x⌋ ∧ a ≤ MpOrbDelta.toUInt32 x := by
  have hfloor := Int.floor_le_floor hhigh
  rw [Int.floor_natCast] at hfloor
  have hexact := MpOrbDelta.toUInt32_eq_floor ((Nat.cast_nonneg _).trans hlow) hfloor
  refine ⟨hexact, ?_⟩
  rw [UInt32.le_iff_toNat_le]
  have hle : (a.toNat : ℤ) ≤ ⌊x⌋ := Int.le_floor.2 (by exact_mod_cast hlow)
  omega

/-- **The presented increase is never below Alpha's.** -/
theorem presentedIncrease_ge (o : MpOrbOmega β) (u : Double) (updateWc : Bool) :
    o.state.additiveIncrease ≤ o.presentedIncrease u updateWc := by
  unfold presentedIncrease
  simp only
  split
  · obtain ⟨x, hx, hlow, hhigh⟩ :=
      Double.min_max_fin (increase_le_max o.state.additiveIncrease) (o.fastAi u.toRat)
    rw [hx]
    exact (toUInt32_between hlow hhigh).2
  · exact UInt32.le_refl _

theorem presentedIncrease_unboosted (h : ¬ Boosted o u updateWc) :
    o.presentedIncrease u updateWc = o.state.additiveIncrease := by
  unfold presentedIncrease
  rw [if_neg (mt boosts_iff.1 h)]

/-- A boost presents the larger of Alpha's increase and the fast one, capped and cut off. -/
theorem presentedIncrease_boosted (h : Boosted o u updateWc) {bottBW : ℚ}
    (hbw : o.state.bottBW = .fin bottBW) :
    ((o.presentedIncrease u updateWc).toNat : ℤ) =
      ⌊min (max (o.state.additiveIncrease.toNat : ℚ)
        (1 / 5 * (bottBW / o.state.sharingFlows) * (19 / 20 - u.toRat) * o.rtt)) UINT32_MAX⌋ := by
  unfold presentedIncrease fastAi
  simp only [if_pos (boosts_iff.2 h), hbw, Double.max_fin, Double.min_fin, Double.toRat]
  exact (toUInt32_between (le_inf le_sup_left (increase_le_max _)) inf_le_right).1

/-- `0.2 * (1000000 / 2) * (0.95 - 0.5) * 0.04` is 1800 bytes. -/
example : (⟨⟨⟨8000, 1000, 8000, 500, 1 / 25⟩, false, .fin 1, .fin 1000000, .fin (1 / 2), 2⟩,
    false, 1 / 25, ()⟩ : MpOrbOmega Unit).presentedIncrease (.fin (1 / 2)) true = 1800 := by
  decide +kernel

end Presented

end MpOrbOmega

/-! ## Calls -/

open MpOrbOmega

variable {β : Type}

/-- The parent's window does not fall when the additive increase rises. -/
def ComputeWnd.Monotone (parentComputeWnd : ComputeWnd β) : Prop :=
  ∀ (o : MpOrbOmega β) (u : Double) (updateWc : Bool) (a b : UInt32), a ≤ b →
    (parentComputeWnd (o.withIncrease a) u updateWc).1 ≤
      (parentComputeWnd (o.withIncrease b) u updateWc).1

/-- A call of `computeWnd`, before and after. -/
structure OmegaCall (β : Type) where
  before : MpOrbOmega β
  u : Double
  updateWc : Bool
  extraAi : UInt32
  window : UInt32
  after : MpOrbOmega β

/-- What a call leaves, signals and returns. -/
structure OmegaCall.Sound (parentComputeWnd : ComputeWnd β) (call : OmegaCall β) : Prop where
  restored : call.after.state.additiveIncrease = call.before.state.additiveIncrease
  extra : (call.extraAi.toNat : ℤ) = (call.before.presentedIncrease call.u call.updateWc).toNat -
    call.before.state.additiveIncrease.toNat
  fast : call.updateWc = false →
    call.window = (parentComputeWnd call.before call.u call.updateWc).1
  window : parentComputeWnd.Monotone →
    (parentComputeWnd call.before call.u call.updateWc).1 ≤ call.window

/-- The call that the code makes. -/
def omegaCall (parentComputeWnd : ComputeWnd β) (o : MpOrbOmega β) (u : Double)
    (updateWc : Bool) : OmegaCall β where
  before := o
  u := u
  updateWc := updateWc
  extraAi := o.extraAi u updateWc
  window := (o.computeWnd parentComputeWnd u updateWc).1
  after := (o.computeWnd parentComputeWnd u updateWc).2

/-- **Every call is sound.** -/
theorem omegaCall_sound (parentComputeWnd : ComputeWnd β) (o : MpOrbOmega β) (u : Double)
    (updateWc : Bool) : (omegaCall parentComputeWnd o u updateWc).Sound parentComputeWnd where
  restored := rfl
  extra := by
    have hge := presentedIncrease_ge o u updateWc
    show ((o.presentedIncrease u updateWc - o.state.additiveIncrease).toNat : ℤ) = _
    rw [UInt32.toNat_sub_of_le _ _ hge]
    rw [UInt32.le_iff_toNat_le] at hge
    show (((o.presentedIncrease u updateWc).toNat - o.state.additiveIncrease.toNat : ℕ) : ℤ) =
      (o.presentedIncrease u updateWc).toNat - o.state.additiveIncrease.toNat
    omega
  fast hfast := by
    cases (show updateWc = false from hfast)
    have hno : ¬ Boosted o u false := fun h => by cases h.commit
    show (parentComputeWnd (o.presented u false) u false).1 = _
    unfold MpOrbOmega.presented
    rw [presentedIncrease_unboosted hno]
    rfl
  window hmono := hmono o u updateWc _ _ (presentedIncrease_ge o u updateWc)

/-! ## Delta as the parent -/

/-- `MpOrbDelta::computeWnd` on the shared state. -/
def deltaComputeWnd {α : Type} (alpha : Alpha α) : ComputeWnd (MpOrbDelta α) :=
  fun o u updateWc =>
    let (window, d) := ({ o.parent with state := o.state.toOrbState }).computeWnd alpha u updateWc
    (window, { o with state := { o.state with toOrbState := d.state }, parent := d })

/-- Alpha's window does not fall when the additive increase rises, and Alpha keeps the MSS. -/
structure Alpha.Monotone {α : Type} (alpha : Alpha α) : Prop where
  window : ∀ (state : OrbState) (parent : α) (u : Double) (updateWc : Bool) (a b : UInt32),
    a ≤ b → (alpha.computeWnd { state with additiveIncrease := a } parent u updateWc).1 ≤
      (alpha.computeWnd { state with additiveIncrease := b } parent u updateWc).1
  mss : ∀ (state : OrbState) (parent : α) (u : Double) (updateWc : Bool),
    (alpha.computeWnd state parent u updateWc).2.1.snd_mss = state.snd_mss

theorem Alpha.Monotone.commit_window {α : Type} {alpha : Alpha α} (h : alpha.Monotone)
    (d : MpOrbDelta α) (u : Double) :
    ((d.computeWnd alpha u true).1.toNat : ℤ) = max (d.state.snd_mss.toNat : ℤ)
      (min ((alpha.computeWnd d.state d.parent u true).1.toNat +
        Truncation.truncate d.pendingShuffleBytes) UINT32_MAX) := by
  have hmss : (d.computeWnd alpha u true).2.state.snd_mss = d.state.snd_mss :=
    h.mss d.state d.parent u true
  rw [MpOrbDelta.computeWnd_commit_window, hmss]

/-- The fairness correction and the clamp keep Alpha's monotonicity. -/
theorem deltaComputeWnd_monotone {α : Type} {alpha : Alpha α} (h : alpha.Monotone) :
    (deltaComputeWnd alpha).Monotone := by
  intro o u updateWc a b hab
  have hwindow := h.window o.state.toOrbState o.parent.parent u updateWc a b hab
  cases updateWc with
  | false => exact hwindow
  | true =>
    have hcommit := fun c : UInt32 => h.commit_window
      { o.parent with state := (o.withIncrease c).state.toOrbState } u
    have ha := hcommit a
    have hb := hcommit b
    rw [UInt32.le_iff_toNat_le] at hwindow ⊢
    simp only [MpOrbOmega.withIncrease, deltaComputeWnd] at ha hb hwindow ⊢
    omega

/-- A parent whose window is the current one and the additive increase. -/
def growingAlpha : Alpha Unit where
  measureInflight state parent _ := (.fin (1 / 2), state, parent)
  computeWnd state parent _ _ :=
    (UInt32.ofNat (min (state.snd_cwnd.toNat + state.additiveIncrease.toNat) UINT32_MAX),
      state, parent)

theorem growingAlpha_monotone : growingAlpha.Monotone where
  window state parent u updateWc a b hab := by
    have hmax : UINT32_MAX = 2 ^ 32 - 1 := rfl
    rw [UInt32.le_iff_toNat_le] at hab ⊢
    simp only [growingAlpha, UInt32.toNat_ofNat']
    rw [Nat.mod_eq_of_lt (by omega), Nat.mod_eq_of_lt (by omega)]
    omega
  mss _ _ _ _ := rfl

/-! ## Runs -/

/-- A call, or any change from outside: the shared state with its increase, the phase, the RTT and
the parent's own variables. -/
inductive OmegaEvent (β : Type) where
  | compute (u : Double) (updateWc : Bool)
  | change (state : OrbtcpStateVariables) (firstRTT : Bool) (rtt : SimTime) (parent : β → β)

/-- One event, with the call it makes. -/
def omegaStep (parentComputeWnd : ComputeWnd β) (o : MpOrbOmega β) :
    OmegaEvent β → MpOrbOmega β × List (OmegaCall β)
  | .compute u updateWc =>
    ((o.computeWnd parentComputeWnd u updateWc).2, [omegaCall parentComputeWnd o u updateWc])
  | .change state firstRTT rtt parent => (⟨state, firstRTT, rtt, parent o.parent⟩, [])

/-- The increase last set from outside. -/
def lastIncrease (additiveIncrease : UInt32) : List (OmegaEvent β) → UInt32
  | [] => additiveIncrease
  | .compute _ _ :: rest => lastIncrease additiveIncrease rest
  | .change state _ _ _ :: rest => lastIncrease state.additiveIncrease rest

/-- **The boost never outlives its call.** -/
theorem run_increase (parentComputeWnd : ComputeWnd β) (o : MpOrbOmega β)
    (events : List (OmegaEvent β)) :
    (Machine.run (omegaStep parentComputeWnd) o events).1.state.additiveIncrease =
      lastIncrease o.state.additiveIncrease events := by
  induction events generalizing o with
  | nil => rfl
  | cons e rest ih =>
    rw [Machine.run_cons, ih]
    cases e <;> rfl

/-! ## Counting the parent's calls -/

/-- How the parent was called. -/
structure ParentCall (β : Type) where
  sender : MpOrbOmega β
  u : Double
  updateWc : Bool

namespace MpOrbOmega

/-- The same sender with a record of calls. -/
def withRecord (o : MpOrbOmega β) (calls : List (ParentCall β)) :
    MpOrbOmega (β × List (ParentCall β)) :=
  ⟨o.state, o.firstRTT, o.rtt, (o.parent, calls)⟩

def withoutRecord (o : MpOrbOmega (β × List (ParentCall β))) : MpOrbOmega β :=
  ⟨o.state, o.firstRTT, o.rtt, o.parent.1⟩

end MpOrbOmega

/-- The parent, with a record of its calls. -/
def recording (parentComputeWnd : ComputeWnd β) : ComputeWnd (β × List (ParentCall β)) :=
  fun o u updateWc =>
    let (window, o') := parentComputeWnd o.withoutRecord u updateWc
    (window, o'.withRecord (o.parent.2 ++ [⟨o.withoutRecord, u, updateWc⟩]))

/-- The same event; a change from outside leaves the record alone. -/
def OmegaEvent.recorded : OmegaEvent β → OmegaEvent (β × List (ParentCall β))
  | .compute u updateWc => .compute u updateWc
  | .change state firstRTT rtt parent => .change state firstRTT rtt (Prod.map parent id)

/-- The call of the parent that a call of `computeWnd` is to make. -/
def OmegaCall.parentCall (call : OmegaCall β) : ParentCall β where
  sender :=
    { call.before with
      state :=
        { call.before.state with
          additiveIncrease := call.before.presentedIncrease call.u call.updateWc } }
  u := call.u
  updateWc := call.updateWc

theorem omegaStep_recording (parentComputeWnd : ComputeWnd β) (o : MpOrbOmega β)
    (calls : List (ParentCall β)) (e : OmegaEvent β) :
    (omegaStep (recording parentComputeWnd) (o.withRecord calls) e.recorded).1 =
      (omegaStep parentComputeWnd o e).1.withRecord
        (calls ++ (omegaStep parentComputeWnd o e).2.map OmegaCall.parentCall) := by
  cases e with
  | compute u updateWc => rfl
  | change state firstRTT rtt parent => simp [omegaStep, OmegaEvent.recorded, withRecord]

/-- **The parent is called once for every call.** -/
theorem run_recording (parentComputeWnd : ComputeWnd β) (o : MpOrbOmega β)
    (calls : List (ParentCall β)) (events : List (OmegaEvent β)) :
    (Machine.run (omegaStep (recording parentComputeWnd)) (o.withRecord calls)
        (events.map OmegaEvent.recorded)).1 =
      (Machine.run (omegaStep parentComputeWnd) o events).1.withRecord
        (calls ++ (Machine.run (omegaStep parentComputeWnd) o events).2.map
          OmegaCall.parentCall) := by
  induction events generalizing o calls with
  | nil => simp
  | cons e rest ih =>
    rw [List.map_cons, Machine.run_cons, Machine.run_cons, omegaStep_recording, ih,
      List.map_append, List.append_assoc]

/-- The increase that a call is to present. -/
structure OmegaCall.Presents (call : OmegaCall β) : Prop where
  boosted : Boosted call.before call.u call.updateWc → ∀ bottBW,
    call.before.state.bottBW = .fin bottBW →
    ((call.before.presentedIncrease call.u call.updateWc).toNat : ℤ) =
      ⌊min (max (call.before.state.additiveIncrease.toNat : ℚ)
        (1 / 5 * (bottBW / call.before.state.sharingFlows) * (19 / 20 - call.u.toRat) *
          call.before.rtt)) UINT32_MAX⌋
  plain : ¬ Boosted call.before call.u call.updateWc →
    call.before.presentedIncrease call.u call.updateWc = call.before.state.additiveIncrease

/-- **Omega is Delta with a boost at the commit.**  In every run the parent is called exactly once
for every call, with the presented increase; every call restores the increase, never underflows
its difference, agrees with the parent outside a commit and is not below a monotone parent at one;
and the increase is always the one last set from outside. -/
theorem omega_boost (parentComputeWnd : ComputeWnd β) (o : MpOrbOmega β)
    (events : List (OmegaEvent β)) :
    (∀ call ∈ (Machine.run (omegaStep parentComputeWnd) o events).2,
        call.Presents ∧ call.Sound parentComputeWnd) ∧
      (Machine.run (omegaStep (recording parentComputeWnd)) (o.withRecord [])
          (events.map OmegaEvent.recorded)).1.parent.2 =
        (Machine.run (omegaStep parentComputeWnd) o events).2.map OmegaCall.parentCall ∧
      (Machine.run (omegaStep parentComputeWnd) o events).1.state.additiveIncrease =
        lastIncrease o.state.additiveIncrease events := by
  refine ⟨?_, ?_, run_increase parentComputeWnd o events⟩
  · refine Machine.run_out (fun _ => True) (fun _ _ _ => trivial) ?_ trivial events
    intro o e _ call hcall
    cases e with
    | compute u updateWc =>
      cases List.mem_singleton.1 hcall
      exact ⟨⟨fun h _ hbw => presentedIncrease_boosted h hbw, presentedIncrease_unboosted⟩,
        omegaCall_sound parentComputeWnd o u updateWc⟩
    | change state firstRTT rtt parent => exact absurd hcall List.not_mem_nil
  · rw [run_recording]
    rfl

/-- Past startup, with a window of 8000 bytes and an increase of 500. -/
def steadyOmega : MpOrbOmega (MpOrbDelta Unit) where
  state := ⟨⟨8000, 1000, 8000, 500, 1 / 25⟩, false, .fin 1, .fin 1000000, .fin (1 / 2), 2⟩
  firstRTT := false
  rtt := 1 / 25
  parent := freshSender

/-- A commit at half the target and a fast call. -/
def commitThenFast : List (OmegaEvent (MpOrbDelta Unit)) :=
  [.compute (.fin (1 / 2)) true, .compute (.fin (1 / 2)) false]

/-- Over Delta: 1800 bytes of increase at the commit, 500 again after it, and no window below
Delta's. -/
theorem omega_boost_over_delta :
    (∀ call ∈ (Machine.run (omegaStep (deltaComputeWnd growingAlpha)) steadyOmega commitThenFast).2,
      (deltaComputeWnd growingAlpha call.before call.u call.updateWc).1 ≤ call.window) ∧
    (Machine.run (omegaStep (deltaComputeWnd growingAlpha)) steadyOmega commitThenFast).2.map
      OmegaCall.window = [9800, 8500] ∧
    (Machine.run (omegaStep (deltaComputeWnd growingAlpha)) steadyOmega
      commitThenFast).1.state.additiveIncrease = 500 := by
  obtain ⟨hcalls, -, hincrease⟩ :=
    omega_boost (deltaComputeWnd growingAlpha) steadyOmega commitThenFast
  have hmono := deltaComputeWnd_monotone growingAlpha_monotone
  exact ⟨fun call hcall => (hcalls call hcall).2.window hmono, by decide +kernel, hincrease⟩

end MpOrb
