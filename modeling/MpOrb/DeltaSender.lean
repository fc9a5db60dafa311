import MpOrb.DeltaShuffle
import MpOrb.IntTag
import MpOrb.Lib.Truncation
import Mathlib.Data.Rat.Floor

/-!
# The Delta sender

`MpOrbDelta` adds the fairness correction to Alpha.  Alpha's own variables are an abstract type and
its two methods a parameter (`Alpha`); Delta's code is embedded in full.

* `stampTelemetry` — a fresh tag with the next serial and the nominal rates of the subflow and of
  the connection.
* `measureInflight` — fresh feedback of the final bottleneck is credited once (`accepts`,
  `creditShuffle`), then Alpha runs.
* `computeWnd` — at a commit the whole pending bytes are added to Alpha's window and consumed.
-/

set_option autoImplicit false

namespace MpOrb

/-- The part of `OrbtcpStateVariables` that Delta's code reads or writes. -/
structure OrbState where
  snd_cwnd : UInt32
  snd_mss : UInt32
  prevWnd : UInt32
  additiveIncrease : UInt32
  srtt : SimTime

/-- The parent's methods, on the shared state and on variables `α` of its own. -/
structure Alpha (α : Type) where
  measureInflight : OrbState → α → IntDataVec → Double × OrbState × α
  computeWnd : OrbState → α → Double → Bool → UInt32 × OrbState × α

/-- The variables of a Delta sender, with the shared state and the parent's own variables. -/
structure MpOrbDelta (α : Type) where
  nextSerial : ℕ := 0
  lastShuffleSerial : ℕ := 0
  pendingShuffleBytes : ℚ := 0
  state : OrbState
  parent : α

/-- What `stampTelemetry` reads of a subflow of the connection. -/
structure Sibling where
  isDelta : Bool
  isTransportActiveForScheduler : Bool
  isSchedulerStale : Bool
  snd_cwnd : UInt32
  srtt : SimTime

/-- Nominal cwnd/RTT rate; 20 ms before the first RTT sample. -/
def nominalRate (snd_cwnd : UInt32) (srtt : SimTime) : ℚ :=
  snd_cwnd.toNat / (if SIMTIME_ZERO < srtt then srtt else 1 / 50)

theorem nominalRate_nonneg (snd_cwnd : UInt32) (srtt : SimTime) :
    0 ≤ nominalRate snd_cwnd srtt := by
  unfold nominalRate SIMTIME_ZERO
  split
  · rename_i hsrtt
    exact div_nonneg (Nat.cast_nonneg _) hsrtt.le
  · exact div_nonneg (Nat.cast_nonneg _) (by decide +kernel)

/-- The rate of the connection's active Delta subflows. -/
def siblingRate (subflows : List Sibling) : ℚ :=
  subflows.foldl (fun total sf =>
    if sf.isDelta && sf.isTransportActiveForScheduler && !sf.isSchedulerStale then
      total + nominalRate sf.snd_cwnd sf.srtt
    else total) 0

/-- `std::clamp(v, lo, hi)`. -/
def clamp (v lo hi : ℚ) : ℚ := if v < lo then lo else if hi < v then hi else v

namespace MpOrbDelta

variable {α : Type}

/-- `++nextSerial` on an `unsigned long long`.  `subflows` is `none` without a meta connection. -/
def stampTelemetry (d : MpOrbDelta α) (subflows : Option (List Sibling)) :
    MpOrbDelta α × DeltaShuffleTag :=
  let serial := (d.nextSerial + 1) % 2 ^ 64
  let subflowRate := nominalRate d.state.snd_cwnd d.state.srtt
  let connectionRate := match subflows with
    | none => 0
    | some subflows => siblingRate subflows
  ({ d with nextSerial := serial },
    { subflowRate, connectionRate := max subflowRate connectionRate, serial })

/-- Feedback is taken from an echo of the final bottleneck that is newer than any taken before. -/
def accepts (d : MpOrbDelta α) (tag : DeltaShuffleTag) (data : IntDataVec) : Bool :=
  match data with
  | [] => false
  | front :: _ =>
    tag.echoed && decide (0 < tag.hops) && decide (tag.bottleneckId = front.hopId) &&
      decide (d.lastShuffleSerial < tag.serial)

/-- The bytes a tag is worth at the sender's current round-trip time. -/
def credit (d : MpOrbDelta α) (tag : DeltaShuffleTag) : ℚ :=
  if SIMTIME_ZERO < d.state.srtt then tag.correction * d.state.srtt else 0

/-- Delta's own part of `measureInflight`; `current` is `getCurrentDeltaShuffle()`. -/
def creditShuffle (d : MpOrbDelta α) (current : Option DeltaShuffleTag) (data : IntDataVec) :
    MpOrbDelta α :=
  match current with
  | none => d
  | some tag =>
    if d.accepts tag data then
      { d with
        lastShuffleSerial := tag.serial
        pendingShuffleBytes := d.pendingShuffleBytes + d.credit tag }
    else d

/-- Credit the feedback of the segment, then measure as the parent does. -/
def measureInflight (d : MpOrbDelta α) (alpha : Alpha α) (current : Option DeltaShuffleTag)
    (data : IntDataVec) : Double × MpOrbDelta α :=
  let d := d.creditShuffle current data
  let (u, state, parent) := alpha.measureInflight d.state d.parent data
  (u, { d with state, parent })

/-- `static_cast<uint32_t>` of a value in range. -/
def toUInt32 (x : ℚ) : UInt32 := UInt32.ofNat (Truncation.truncate x).toNat

/-- A commit adds the whole pending bytes to the parent's window and keeps the rest. -/
def computeWnd (d : MpOrbDelta α) (alpha : Alpha α) (u : Double) (updateWc : Bool) :
    UInt32 × MpOrbDelta α :=
  let (orbWindow, state, parent) := alpha.computeWnd d.state d.parent u updateWc
  if updateWc then
    let wholeBytes : ℚ := Truncation.truncate d.pendingShuffleBytes
    let window := toUInt32 (clamp (orbWindow.toNat + wholeBytes) state.snd_mss.toNat UINT32_MAX)
    (window, { d with
      state := { state with prevWnd := window }
      parent
      pendingShuffleBytes := d.pendingShuffleBytes - wholeBytes })
  else (orbWindow, { d with state, parent })

/-! ## What each method does -/

section Methods

variable {d : MpOrbDelta α} {tag : DeltaShuffleTag} {data : IntDataVec}

theorem accepts_iff : d.accepts tag data = true ↔
    ∃ front rest, data = front :: rest ∧ tag.echoed = true ∧ 0 < tag.hops ∧
      tag.bottleneckId = front.hopId ∧ d.lastShuffleSerial < tag.serial := by
  cases data with
  | nil => simp [accepts]
  | cons front rest => simp [accepts, and_assoc]

theorem stampTelemetry_rates (d : MpOrbDelta α) (subflows : Option (List Sibling)) :
    0 ≤ (d.stampTelemetry subflows).2.subflowRate ∧
      (d.stampTelemetry subflows).2.subflowRate ≤ (d.stampTelemetry subflows).2.connectionRate :=
  ⟨nominalRate_nonneg _ _, le_max_left _ _⟩

theorem creditShuffle_accepted (h : d.accepts tag data = true) :
    d.creditShuffle (some tag) data = { d with
      lastShuffleSerial := tag.serial
      pendingShuffleBytes := d.pendingShuffleBytes + d.credit tag } :=
  if_pos h

theorem creditShuffle_rejected (h : ¬ d.accepts tag data = true) :
    d.creditShuffle (some tag) data = d :=
  if_neg h

theorem measureInflight_nextSerial (alpha : Alpha α) (d : MpOrbDelta α)
    (current : Option DeltaShuffleTag) (data : IntDataVec) :
    (d.measureInflight alpha current data).2.nextSerial = d.nextSerial := by
  show (d.creditShuffle current data).nextSerial = d.nextSerial
  cases current with
  | none => rfl
  | some tag =>
    by_cases h : d.accepts tag data = true
    · rw [creditShuffle_accepted h]
    · rw [creditShuffle_rejected h]

theorem toUInt32_eq_floor {x : ℚ} (hnonneg : 0 ≤ x) (hrange : ⌊x⌋ ≤ UINT32_MAX) :
    ((toUInt32 x).toNat : ℤ) = ⌊x⌋ := by
  have hmax : UINT32_MAX = 2 ^ 32 - 1 := rfl
  have hfloor : 0 ≤ ⌊x⌋ := Int.floor_nonneg.2 hnonneg
  unfold toUInt32 Truncation.truncate
  rw [if_pos hnonneg, UInt32.toNat_ofNat_of_lt']
  · omega
  · show Int.toNat _ < 2 ^ 32
    omega

theorem clamp_intCast {v lo hi : ℤ} (h : lo ≤ hi) :
    clamp (v : ℚ) lo hi = ((max lo (min v hi) : ℤ) : ℚ) := by
  unfold clamp
  split
  · rename_i hlt
    have hlt : v < lo := Int.cast_lt.1 hlt
    rw [max_eq_left (by omega)]
  · split
    · rename_i hlo hhi
      have hhi : hi < v := Int.cast_lt.1 hhi
      rw [min_eq_right hhi.le, max_eq_right h]
    · rename_i hlo hhi
      have hlo : lo ≤ v := not_lt.1 fun hlt => hlo (Int.cast_lt.2 hlt)
      have hhi : v ≤ hi := not_lt.1 fun hlt => hhi (Int.cast_lt.2 hlt)
      rw [min_eq_left hhi, max_eq_right hlo]

theorem toUInt32_clamp (v : ℤ) (lo : UInt32) :
    ((toUInt32 (clamp v lo.toNat UINT32_MAX)).toNat : ℤ) =
      max (lo.toNat : ℤ) (min v UINT32_MAX) := by
  have hlo : lo.toNat < 2 ^ 32 := lo.toNat_lt
  have hmax : UINT32_MAX = 2 ^ 32 - 1 := rfl
  have hle : (lo.toNat : ℤ) ≤ (UINT32_MAX : ℤ) := by omega
  have hclamp : clamp (v : ℚ) lo.toNat UINT32_MAX =
      ((max (lo.toNat : ℤ) (min v (UINT32_MAX : ℤ)) : ℤ) : ℚ) := by
    exact_mod_cast clamp_intCast hle
  rw [hclamp, toUInt32, Truncation.truncate_intCast, UInt32.toNat_ofNat_of_lt']
  · omega
  · show Int.toNat _ < 2 ^ 32
    omega

section ComputeWnd

variable (alpha : Alpha α) (d : MpOrbDelta α) (u : Double)

/-- A commit returns the parent's window and the whole pending bytes, clamped. -/
theorem computeWnd_commit_window :
    ((d.computeWnd alpha u true).1.toNat : ℤ) =
      max ((d.computeWnd alpha u true).2.state.snd_mss.toNat : ℤ)
        (min ((alpha.computeWnd d.state d.parent u true).1.toNat +
          Truncation.truncate d.pendingShuffleBytes) UINT32_MAX) := by
  rw [← toUInt32_clamp, Int.cast_add, Int.cast_natCast]
  rfl

theorem computeWnd_commit_prevWnd :
    (d.computeWnd alpha u true).2.state.prevWnd = (d.computeWnd alpha u true).1 := rfl

theorem computeWnd_commit_pending : (d.computeWnd alpha u true).2.pendingShuffleBytes =
    Truncation.remainder d.pendingShuffleBytes := rfl

theorem computeWnd_fast :
    d.computeWnd alpha u false =
      ((alpha.computeWnd d.state d.parent u false).1,
        { d with
          state := (alpha.computeWnd d.state d.parent u false).2.1
          parent := (alpha.computeWnd d.state d.parent u false).2.2 }) := rfl

end ComputeWnd

end Methods

end MpOrbDelta

/-- A sender with ten segments in flight and a round-trip time of 100 ms. -/
def freshSender : MpOrbDelta Unit := { state := ⟨14480, 1448, 14480, 1448, 1 / 10⟩, parent := () }

/-- A parent that keeps the current window, at least one segment. -/
def steadyAlpha : Alpha Unit where
  measureInflight state parent _ := (.fin (1 / 2), state, parent)
  computeWnd state parent _ _ :=
    let window := if state.snd_cwnd < state.snd_mss then state.snd_mss else state.snd_cwnd
    (window, { state with prevWnd := window }, parent)

end MpOrb
