import MpOrb.Coupling
import MpOrb.Lib.Champion
import MpOrb.Lib.Tolerance

/-!
# The OLIA correction

`MpOrbOlia::adjustAdditiveIncrease` on a snapshot of the meta connection.

* `nearlyEqual`, `isBetterPath`, `isSameBestPath` — the comparisons of paths.
* `getPathQuality` — fair rate and resource cost from the telemetry of a path.
* `visitPath`, `collect` — the loop over the subflows; it gives up at the first active path without
  usable quality.
* `alphaR` — the credit or debit of the caller; `transfer` is the caller's, `none` on an early exit.
* `adjustAdditiveIncrease` — Alpha's increase and the correction, clamped.

`collect_eq` says what the loop collects.
-/

set_option autoImplicit false

namespace MpOrb

namespace MpOrbOlia

/-- A path as the loop collects it. -/
structure Path where
  algorithm : SocketId
  window : ℚ
  bottleneckFairRate : ℚ
  resourceCost : ℚ
  rtt : ℚ
  deriving DecidableEq

/-- `std::numeric_limits<double>::epsilon()`. -/
def epsilon : ℚ := 1 / 2 ^ 52

/-- Equality up to 32 units of rounding of the larger magnitude, at least 1. -/
def nearlyEqual (first second : ℚ) : Bool :=
  let scale := max (max 1 |first|) |second|
  decide (|first - second| ≤ epsilon * 32 * scale)

def tolerance : ℚ := epsilon * 32

theorem tolerance_nonneg : 0 ≤ tolerance := by decide +kernel

theorem nearlyEqual_iff {first second : ℚ} :
    nearlyEqual first second = true ↔ Tolerance.Near tolerance first second :=
  decide_eq_true_iff

theorem nearlyEqual_self (a : ℚ) : nearlyEqual a a = true :=
  nearlyEqual_iff.2 (Tolerance.Near.refl tolerance_nonneg a)

/-- Larger fair rate, then smaller resource cost, then smaller RTT; near values tie. -/
def isBetterPath (candidate currentBest : Path) : Bool :=
  if !nearlyEqual candidate.bottleneckFairRate currentBest.bottleneckFairRate then
    decide (currentBest.bottleneckFairRate < candidate.bottleneckFairRate)
  else if !nearlyEqual candidate.resourceCost currentBest.resourceCost then
    decide (candidate.resourceCost < currentBest.resourceCost)
  else decide (candidate.rtt < currentBest.rtt)

/-- Near the best path in all three values. -/
def isSameBestPath (candidate best : Path) : Bool :=
  nearlyEqual candidate.bottleneckFairRate best.bottleneckFairRate &&
    nearlyEqual candidate.resourceCost best.resourceCost &&
    nearlyEqual candidate.rtt best.rtt

/-- Fair rate and resource cost; `none` when the function returns false. -/
def getPathQuality (subflow : MetaSubflow) : Option (ℚ × ℚ) :=
  match subflow.state with
  | none => none
  | some state =>
    if decide (subflow.bottleneckId < 0) ||
        !state.eta.isFinite || Double.le state.eta (.fin 0) ||
        !state.bottBW.isFinite || Double.le state.bottBW (.fin 0) ||
        decide (state.sharingFlows ≤ 0) ||
        !state.u.isFinite || Double.le state.u (.fin 0) then none
    else
      let bottleneckFairRate := state.eta.toRat * state.bottBW.toRat / state.sharingFlows
      let resourceCost := state.u.toRat / state.eta.toRat
      if 0 < bottleneckFairRate ∧ 0 < resourceCost then some (bottleneckFairRate, resourceCost)
      else none

/-! ## The path loop -/

/-- The local variables of the loop; `bestPath` is set with the first path. -/
structure Collection where
  paths : List Path
  sumWindows : ℚ
  maximumWindow : ℚ
  bestPath : Option Path

def Collection.empty : Collection := ⟨[], 0, 0, none⟩

/-- A path joins the collection; the first of the best ones stays the best. -/
def Collection.push (c : Collection) (path : Path) : Collection where
  paths := c.paths ++ [path]
  sumWindows := c.sumWindows + path.window
  maximumWindow := max c.maximumWindow path.window
  bestPath := Champion.challenge isBetterPath c.bestPath path

/-- The tests that a subflow passes before its quality is asked for. -/
def activeState (subflow : MetaSubflow) : Option OrbtcpStateVariables :=
  if !subflow.fsmState.carriesData then none
  else if !subflow.flavour.isOlia then none
  else
    match subflow.state with
    | none => none
    | some state =>
      if state.snd_mss = 0 ∨ state.srtt ≤ SIMTIME_ZERO then none else some state

/-- `std::max(snd_cwnd / snd_mss, 1.0)`. -/
def normalizedWindow (state : OrbtcpStateVariables) : ℚ :=
  max (state.snd_cwnd.toNat / state.snd_mss.toNat) 1

/-- One iteration; `none` is the return inside the loop. -/
def visitPath (view : MetaView) (collection : Option Collection) :
    Option SocketId → Option Collection
  | none => collection
  | some s =>
    match collection, activeState (view s) with
    | none, _ => none
    | some c, none => some c
    | some c, some state =>
      match getPathQuality (view s) with
      | none => none
      | some (bottleneckFairRate, resourceCost) =>
        some (c.push
          { algorithm := s
            window := normalizedWindow state
            bottleneckFairRate
            resourceCost
            rtt := state.srtt })

/-- The loop over the subflows, `none` where it returns. -/
def collect (connection : MpTcpConnection) (view : MetaView) : Option Collection :=
  connection.getSubflows.foldl (visitPath view) (some .empty)

/-! ## The correction -/

/-- Near the largest window. -/
def isMaximumWindowPath (maximumWindow : ℚ) (path : Path) : Bool :=
  nearlyEqual path.window maximumWindow

/-- A best path without the maximum window. -/
def isCollectedPath (bestPath : Path) (maximumWindow : ℚ) (path : Path) : Bool :=
  isSameBestPath path bestPath && !isMaximumWindowPath maximumWindow path

/-- OLIA's `a_r` for the path `current`. -/
def alphaR (paths : List Path) (bestPath : Path) (maximumWindow : ℚ) (current : Path) : ℚ :=
  let maximumWindowPaths := paths.countP (isMaximumWindowPath maximumWindow)
  let collectedPaths := paths.countP (isCollectedPath bestPath maximumWindow)
  if 0 < collectedPaths then
    if isCollectedPath bestPath maximumWindow current then
      1 / ((paths.length : ℚ) * collectedPaths)
    else if isMaximumWindowPath maximumWindow current then
      -1 / ((paths.length : ℚ) * maximumWindowPaths)
    else 0
  else 0

/-- The path of the caller: the last one in the list. -/
def currentPath (paths : List Path) (self : SocketId) : Option Path :=
  (paths.filter fun path => decide (path.algorithm = self)).getLast?

/-- `alphaR` of the caller and its path, from the collected paths. -/
def Collection.transfer (c : Collection) (self : SocketId) : Option (ℚ × Path) :=
  if c.paths.length ≤ 1 ∨ c.sumWindows ≤ 0 then none
  else
    match c.bestPath, currentPath c.paths self with
    | some bestPath, some current =>
      some (alphaR c.paths bestPath c.maximumWindow current, current)
    | _, _ => none

/-- `alphaR` of the caller and its path; `none` on an early exit. -/
def transfer (connection : Option MpTcpConnection) (view : MetaView) (self : SocketId) :
    Option (ℚ × Path) :=
  match (view self).state with
  | none => none
  | some state =>
    if (view self).firstRTT || state.initialPhase || decide (state.snd_mss = 0) ||
        decide (state.srtt ≤ SIMTIME_ZERO) then none
    else
      match connection with
      | none => none
      | some connection =>
        match collect connection view with
        | none => none
        | some c => c.transfer self

/-- The correction in bytes per RTT. -/
def correction (state : OrbtcpStateVariables) (alphaR : ℚ) (current : Path) : ℚ :=
  let correctionPerAck := alphaR / current.window
  correctionPerAck * current.window * state.snd_mss.toNat

/-- The corrected increase, clamped and cut off to an integer. -/
def correct (state : OrbtcpStateVariables) (alphaR : ℚ) (current : Path) : OrbtcpStateVariables :=
  let adjustedIncrease :=
    clamp (state.additiveIncrease.toNat + correction state alphaR current) 0 UINT32_MAX
  { state with additiveIncrease := MpOrbDelta.toUInt32 adjustedIncrease }

/-- `MpOrbOlia::adjustAdditiveIncrease` called on `self`: Alpha's call, then the correction on the
snapshot that Alpha leaves. -/
def adjustAdditiveIncrease (connection : Option MpTcpConnection) (view : MetaView)
    (self : SocketId) : MetaSubflow :=
  let subflow := MpOrbSemiCoupledAlpha.adjustAdditiveIncrease connection view self
  match subflow.state, transfer connection (Function.update view self subflow) self with
  | some state, some (alphaR, current) =>
    { subflow with state := some (correct state alphaR current) }
  | _, _ => subflow

theorem transfer_eq (connection : MpTcpConnection) (view : MetaView) (self : SocketId) :
    transfer (some connection) view self =
      match (view self).state with
      | none => none
      | some state =>
        if (view self).firstRTT || state.initialPhase || decide (state.snd_mss = 0) ||
            decide (state.srtt ≤ SIMTIME_ZERO) then none
        else (collect connection view).bind (Collection.transfer · self) := by
  unfold transfer
  split
  · rfl
  · split
    · rfl
    · cases hcollect : collect connection view <;> simp [hcollect]

/-! ## What the loop collects -/

/-- The path of a subflow, if it is active and has usable quality. -/
def pathOf (view : MetaView) (s : SocketId) : Option Path :=
  match activeState (view s), getPathQuality (view s) with
  | some state, some (bottleneckFairRate, resourceCost) =>
    some
      { algorithm := s
        window := normalizedWindow state
        bottleneckFairRate
        resourceCost
        rtt := state.srtt }
  | _, _ => none

/-- The active subflow has usable quality. -/
def usable (subflow : MetaSubflow) : Bool :=
  (activeState subflow).isNone || (getPathQuality subflow).isSome

def Collection.ofPaths (paths : List Path) : Collection := paths.foldl Collection.push .empty

/-- The paths of a connection, in list order. -/
def connectionPaths (connection : MpTcpConnection) (view : MetaView) : List Path :=
  connection.members.filterMap (pathOf view)

section Collect

variable {connection : MpTcpConnection} {view : MetaView}

theorem ofPaths_snoc (paths : List Path) (path : Path) :
    Collection.ofPaths (paths ++ [path]) = (Collection.ofPaths paths).push path := by
  simp [Collection.ofPaths, List.foldl_append]

theorem ofPaths_paths (paths : List Path) : (Collection.ofPaths paths).paths = paths := by
  induction paths using List.reverseRecOn with
  | nil => rfl
  | append_singleton rest path ih => rw [ofPaths_snoc, Collection.push, ih]

theorem ofPaths_sumWindows (paths : List Path) :
    (Collection.ofPaths paths).sumWindows = (paths.map Path.window).sum := by
  induction paths using List.reverseRecOn with
  | nil => rfl
  | append_singleton rest path ih => simp [ofPaths_snoc, Collection.push, ih]

theorem ofPaths_maximumWindow (paths : List Path) : (Collection.ofPaths paths).maximumWindow =
    paths.foldl (fun maximumWindow path => max maximumWindow path.window) 0 := by
  induction paths using List.reverseRecOn with
  | nil => rfl
  | append_singleton rest path ih => simp [ofPaths_snoc, Collection.push, ih]

theorem ofPaths_bestPath (paths : List Path) :
    (Collection.ofPaths paths).bestPath = Champion.champion isBetterPath paths := by
  induction paths using List.reverseRecOn with
  | nil => rfl
  | append_singleton rest path ih => rw [ofPaths_snoc, Collection.push, ih, Champion.champion_snoc]

/-- One iteration takes the path of a subflow, if it has one, or gives up. -/
theorem visitPath_ofPaths (view : MetaView) (paths : List Path) (s : SocketId) :
    visitPath view (some (.ofPaths paths)) (some s) =
      if usable (view s) then some (.ofPaths (paths ++ (pathOf view s).toList)) else none := by
  cases hactive : activeState (view s) with
  | none => simp [visitPath, usable, pathOf, hactive]
  | some state =>
    cases hquality : getPathQuality (view s) with
    | none => simp [visitPath, usable, hactive, hquality]
    | some quality => simp [visitPath, usable, pathOf, hactive, hquality, ofPaths_snoc]

theorem foldl_visitPath_none (view : MetaView) (subflows : List (Option SocketId)) :
    subflows.foldl (visitPath view) none = none := by
  induction subflows with
  | nil => rfl
  | cons o rest ih => cases o <;> exact ih

theorem foldl_visitPath (view : MetaView) (subflows : List (Option SocketId))
    (paths : List Path) :
    subflows.foldl (visitPath view) (some (.ofPaths paths)) =
      if subflows.reduceOption.all fun s => usable (view s) then
        some (.ofPaths (paths ++ subflows.reduceOption.filterMap (pathOf view)))
      else none := by
  induction subflows generalizing paths with
  | nil => simp [List.reduceOption_nil]
  | cons o rest ih =>
    cases o with
    | none =>
      rw [List.reduceOption_cons_of_none]
      exact ih paths
    | some s =>
      rw [List.foldl_cons, List.reduceOption_cons_of_some, List.all_cons, visitPath_ofPaths]
      cases husable : usable (view s) with
      | false => exact foldl_visitPath_none view rest
      | true =>
        rw [if_pos rfl, Bool.true_and, ih]
        cases hpath : pathOf view s with
        | none => simp [hpath]
        | some path => simp [hpath]

/-- **The loop collects the active paths, or gives up if one of them has no usable quality.** -/
theorem collect_eq (connection : MpTcpConnection) (view : MetaView) :
    collect connection view =
      if connection.members.all fun s => usable (view s) then
        some (.ofPaths (connectionPaths connection view))
      else none := by
  exact foldl_visitPath view connection.getSubflows []

/-- Distinct algorithms leave one path to each caller. -/
theorem currentPath_eq_some {paths : List Path} (hids : (paths.map Path.algorithm).Nodup)
    {self : SocketId} {path : Path} :
    currentPath paths self = some path ↔ path ∈ paths ∧ path.algorithm = self := by
  constructor
  · intro h
    obtain ⟨hmem, hself⟩ := List.mem_filter.1 (List.mem_of_getLast? h)
    exact ⟨hmem, of_decide_eq_true hself⟩
  · rintro ⟨hmem, rfl⟩
    obtain ⟨before, after, rfl⟩ := List.append_of_mem hmem
    rw [List.map_append, List.map_cons, List.nodup_append, List.nodup_cons] at hids
    obtain ⟨-, ⟨hafter, -⟩, hbefore⟩ := hids
    have hnone : ∀ l : List Path, (∀ q ∈ l, q.algorithm ≠ path.algorithm) →
        l.filter (fun q => decide (q.algorithm = path.algorithm)) = [] := by
      intro l hl
      apply List.filter_eq_nil_iff.2
      intro q hq hself
      exact hl q hq (of_decide_eq_true hself)
    unfold currentPath
    rw [List.filter_append, List.filter_cons_of_pos (by simp), hnone before, hnone after]
    · rfl
    · intro q hq hself
      exact hafter (hself ▸ List.mem_map_of_mem hq)
    · intro q hq hself
      exact hbefore q.algorithm (List.mem_map_of_mem hq) path.algorithm (by simp) hself

theorem pathOf_algorithm {s : SocketId} {path : Path} (h : pathOf view s = some path) :
    path.algorithm = s := by
  unfold pathOf at h
  split at h
  · cases h
    rfl
  · cases h

theorem connectionPaths_nodup (connection : MpTcpConnection) (view : MetaView) :
    ((connectionPaths connection view).map Path.algorithm).Nodup := by
  have hids : ∀ l : List SocketId, ((l.filterMap (pathOf view)).map Path.algorithm).Sublist l := by
    intro l
    induction l with
    | nil => simp
    | cons s rest ih =>
      cases hpath : pathOf view s with
      | none =>
        rw [List.filterMap_cons_none hpath]
        exact ih.cons s
      | some path =>
        rw [List.filterMap_cons_some hpath, List.map_cons, pathOf_algorithm hpath]
        exact ih.cons_cons s
  exact connection.members_nodup.sublist (hids connection.members)

end Collect

end MpOrbOlia

end MpOrb
