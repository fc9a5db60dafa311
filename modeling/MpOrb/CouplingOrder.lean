import MpOrb.OliaTransfer
import MpOrb.Lib.LocalUpdates

/-!
# Coupled calls one after another

The subflows of a host call `adjustAdditiveIncrease` one after another on the live connections.
A call writes the residual and the increase of its own subflow, and of the others no call reads
either.

* `Coupled.adjustAdditiveIncrease` — the virtual call on any subflow of any meta connection.
* `local_adjust` — the calls are local updates (`LocalUpdate.Local`).
* `coupling_order` — a round of calls gives every caller what it gets from the first snapshot, in
  any order of the callers and for any mixture of flavours.
* `coupling_budget` — after such a round the increases of a connection exceed its budget by at most
  one MSS over the number of OLIA paths, and not at all unless OLIA takes more than a path has.
-/

set_option autoImplicit false

namespace MpOrb

/-! ## What the calls read of the other subflows -/

/-- A subflow without its credit. -/
def MetaSubflow.uncredited (subflow : MetaSubflow) : MetaSubflow := subflow.withCredit 0 0

theorem MetaSubflow.uncredited_withCredit (subflow : MetaSubflow) (residual : ℚ)
    (additiveIncrease : UInt32) :
    (subflow.withCredit residual additiveIncrease).uncredited = subflow.uncredited := by
  unfold uncredited withCredit
  cases subflow.state <;> rfl

theorem MetaSubflow.withCredit_uncredited (subflow : MetaSubflow) (residual : ℚ)
    (additiveIncrease : UInt32) :
    subflow.uncredited.withCredit residual additiveIncrease =
      subflow.withCredit residual additiveIncrease := by
  unfold uncredited withCredit
  cases subflow.state <;> rfl

/-- Every subflow without its credit. -/
def MetaView.uncredited (view : MetaView) : MetaView := fun s => (view s).uncredited

theorem MetaView.uncredited_state (view : MetaView) (s : SocketId) :
    (MetaView.uncredited view s).state =
      (view s).state.map fun state => { state with additiveIncrease := 0 } := rfl

theorem MetaView.uncredited_congr {view view' : MetaView}
    (h : ∀ s, (view s).uncredited = (view' s).uncredited) :
    MetaView.uncredited view = MetaView.uncredited view' :=
  funext h

section Uncredited

variable (connection : Option MpTcpConnection) (conn : MpTcpConnection) (view : MetaView)
  (self : SocketId)

theorem countedRate_uncredited (subflow : MetaSubflow) :
    MpOrbSemiCoupledAlpha.countedRate subflow.uncredited =
      MpOrbSemiCoupledAlpha.countedRate subflow := by
  unfold MpOrbSemiCoupledAlpha.countedRate MpOrbSemiCoupledAlpha.subflowRate
    MetaSubflow.uncredited MetaSubflow.withCredit
  cases subflow.state <;> rfl

theorem connectionRate_uncredited :
    MpOrbSemiCoupledAlpha.connectionRate conn (MetaView.uncredited view) =
      MpOrbSemiCoupledAlpha.connectionRate conn view := by
  simp only [MpOrbSemiCoupledAlpha.connectionRate_eq_sum, MetaView.uncredited,
    countedRate_uncredited]

theorem rateShare_uncredited :
    MpOrbSemiCoupledAlpha.rateShare connection (MetaView.uncredited view) self =
      MpOrbSemiCoupledAlpha.rateShare connection view self := by
  unfold MpOrbSemiCoupledAlpha.rateShare
  simp only [connectionRate_uncredited, MetaView.uncredited_state]
  cases (view self).state <;> rfl

namespace MpOrbOlia

theorem pathOf_uncredited : pathOf (MetaView.uncredited view) = pathOf view := by
  funext s
  unfold pathOf MetaView.uncredited MetaSubflow.uncredited
  rw [getPathQuality_withCredit, activeState_withCredit]
  cases activeState (view s) <;> cases getPathQuality (view s) <;> rfl

theorem usable_uncredited (subflow : MetaSubflow) :
    usable subflow.uncredited = usable subflow := by
  unfold usable MetaSubflow.uncredited
  rw [getPathQuality_withCredit, activeState_withCredit, Option.isNone_map]

theorem collect_uncredited :
    collect conn (MetaView.uncredited view) = collect conn view := by
  rw [collect_eq, collect_eq]
  unfold connectionPaths
  rw [pathOf_uncredited]
  simp only [MetaView.uncredited, usable_uncredited]

theorem transfer_uncredited :
    transfer connection (MetaView.uncredited view) self = transfer connection view self := by
  unfold transfer
  simp only [collect_uncredited, MetaView.uncredited_state]
  cases (view self).state <;> rfl

end MpOrbOlia

end Uncredited

section Congr

variable {view view' : MetaView} {self : SocketId}

theorem MpOrbSemiCoupledAlpha.adjust_congr (connection : Option MpTcpConnection)
    (hothers : ∀ s, (view s).uncredited = (view' s).uncredited) (hself : view self = view' self) :
    adjustAdditiveIncrease connection view self =
      adjustAdditiveIncrease connection view' self := by
  have hshare : rateShare connection view self = rateShare connection view' self := by
    rw [← rateShare_uncredited, MetaView.uncredited_congr hothers, rateShare_uncredited]
  unfold adjustAdditiveIncrease
  rw [hself, hshare]

theorem MpOrbSemiCoupledAlpha.adjust_uncredited (connection : Option MpTcpConnection)
    (view : MetaView) (self : SocketId) :
    (adjustAdditiveIncrease connection view self).uncredited = (view self).uncredited := by
  obtain ⟨residual, additiveIncrease, hcall⟩ :=
    adjustAdditiveIncrease_withCredit connection view self
  rw [hcall, MetaSubflow.uncredited_withCredit]

/-- The path loop runs on the snapshot that Alpha leaves, and does not see what Alpha wrote. -/
theorem MpOrbOlia.transfer_afterAlpha (connection : Option MpTcpConnection) (view : MetaView)
    (self : SocketId) :
    transfer connection (Function.update view self
        (MpOrbSemiCoupledAlpha.adjustAdditiveIncrease connection view self)) self =
      transfer connection view self := by
  have hsame : ∀ s, (Function.update view self
      (MpOrbSemiCoupledAlpha.adjustAdditiveIncrease connection view self) s).uncredited =
        (view s).uncredited := by
    intro s
    by_cases hs : s = self
    · subst hs
      rw [Function.update_self]
      exact MpOrbSemiCoupledAlpha.adjust_uncredited connection view s
    · rw [Function.update_of_ne hs]
  rw [← transfer_uncredited, MetaView.uncredited_congr hsame, transfer_uncredited]

theorem MpOrbOlia.adjust_congr (connection : Option MpTcpConnection)
    (hothers : ∀ s, (view s).uncredited = (view' s).uncredited) (hself : view self = view' self) :
    adjustAdditiveIncrease connection view self =
      adjustAdditiveIncrease connection view' self := by
  have htransfer : transfer connection view self = transfer connection view' self := by
    rw [← transfer_uncredited, MetaView.uncredited_congr hothers, transfer_uncredited]
  unfold adjustAdditiveIncrease
  simp only [transfer_afterAlpha]
  rw [MpOrbSemiCoupledAlpha.adjust_congr connection hothers hself, htransfer]

/-- OLIA's correction goes into the increase; the residual stays Alpha's. -/
theorem MpOrbOlia.adjust_cases (connection : Option MpTcpConnection) (view : MetaView)
    (self : SocketId) :
    adjustAdditiveIncrease connection view self =
        MpOrbSemiCoupledAlpha.adjustAdditiveIncrease connection view self ∨
      ∃ state a current, transfer connection view self = some (a, current) ∧
        (MpOrbSemiCoupledAlpha.adjustAdditiveIncrease connection view self).state = some state ∧
        adjustAdditiveIncrease connection view self =
          { MpOrbSemiCoupledAlpha.adjustAdditiveIncrease connection view self with
            state := some (correct state a current) } := by
  unfold adjustAdditiveIncrease
  simp only [transfer_afterAlpha]
  split
  · rename_i state a current hstate htransfer
    exact Or.inr ⟨state, a, current, htransfer, hstate, rfl⟩
  · exact Or.inl rfl

theorem MpOrbOlia.adjust_uncredited (connection : Option MpTcpConnection) (view : MetaView)
    (self : SocketId) :
    (adjustAdditiveIncrease connection view self).uncredited = (view self).uncredited := by
  rw [← MpOrbSemiCoupledAlpha.adjust_uncredited connection view self]
  obtain hsame | ⟨state, a, current, -, hstate, hcall⟩ := adjust_cases connection view self
  · rw [hsame]
  · rw [hcall]
    unfold MetaSubflow.uncredited MetaSubflow.withCredit
    rw [hstate]
    rfl

end Congr

/-! ## Rounds of calls -/

/-- The meta connection of every subflow. -/
abbrev MetaConnections := SocketId → Option MpTcpConnection

namespace Coupled

/-- The virtual call on the subflow `self`.  `base` is the hook of the base class, for a subflow
without a coupled flavour: the increase that it leaves. -/
def adjustAdditiveIncrease (base : MetaSubflow → UInt32) (getMetaConnection : MetaConnections)
    (view : MetaView) (self : SocketId) : MetaSubflow :=
  match (view self).flavour with
  | .olia => MpOrbOlia.adjustAdditiveIncrease (getMetaConnection self) view self
  | .other =>
    (view self).withCredit (view self).additiveIncreaseResidual (base (view self))
  | .alpha | .delta | .omega =>
    MpOrbSemiCoupledAlpha.adjustAdditiveIncrease (getMetaConnection self) view self

/-- The callers call one after another. -/
def callAll (base : MetaSubflow → UInt32) (getMetaConnection : MetaConnections) (view : MetaView)
    (callers : List SocketId) : MetaView :=
  LocalUpdate.run (adjustAdditiveIncrease base getMetaConnection) view callers

variable {base : MetaSubflow → UInt32} {getMetaConnection : MetaConnections} {view : MetaView}

theorem local_adjust (base : MetaSubflow → UInt32) (getMetaConnection : MetaConnections) :
    LocalUpdate.Local MetaSubflow.uncredited (adjustAdditiveIncrease base getMetaConnection) where
  keeps view self := by
    unfold adjustAdditiveIncrease
    split
    · exact MpOrbOlia.adjust_uncredited _ _ _
    · exact MetaSubflow.uncredited_withCredit _ _ _
    all_goals exact MpOrbSemiCoupledAlpha.adjust_uncredited _ _ _
  reads view view' self hothers hself := by
    unfold adjustAdditiveIncrease
    rw [hself]
    split
    · exact MpOrbOlia.adjust_congr _ hothers hself
    · rfl
    all_goals exact MpOrbSemiCoupledAlpha.adjust_congr _ hothers hself

theorem callAll_apply {callers : List SocketId} (hnodup : callers.Nodup) (s : SocketId) :
    callAll base getMetaConnection view callers s =
      if s ∈ callers then adjustAdditiveIncrease base getMetaConnection view s else view s :=
  LocalUpdate.run_apply (local_adjust base getMetaConnection) hnodup view s

/-- **The order of the calls does not matter.**  For any connections and flavours, a round in which
every caller calls once gives each what its flavour computes from the first snapshot, leaves every
other subflow alone, changes nothing but credit, and ends the same way in any other order. -/
theorem coupling_order (base : MetaSubflow → UInt32) (getMetaConnection : MetaConnections)
    (view : MetaView) {callers callers' : List SocketId} (hnodup : callers.Nodup)
    (hperm : callers.Perm callers') :
    callAll base getMetaConnection view callers = callAll base getMetaConnection view callers' ∧
      ∀ s, (callAll base getMetaConnection view callers s =
          if s ∈ callers then adjustAdditiveIncrease base getMetaConnection view s else view s) ∧
        ∃ residual additiveIncrease, callAll base getMetaConnection view callers s =
          (view s).withCredit residual additiveIncrease := by
  have hlocal := local_adjust base getMetaConnection
  refine ⟨LocalUpdate.run_perm hlocal hnodup hperm view, fun s => ⟨callAll_apply hnodup s, ?_⟩⟩
  have hsame : (callAll base getMetaConnection view callers s).uncredited = (view s).uncredited :=
    LocalUpdate.digest_run hlocal view callers s
  obtain ⟨residual, additiveIncrease, hcredit⟩ :=
    (callAll base getMetaConnection view callers s).withCredit_self
  refine ⟨residual, additiveIncrease, hcredit.trans ?_⟩
  rw [← MetaSubflow.withCredit_uncredited, hsame, MetaSubflow.withCredit_uncredited]

/-- Two OLIA paths of one connection in either order. -/
theorem coupling_order_two_paths :
    callAll (fun _ => 0) (fun _ => some twoPaths) (MpOrbOlia.unevenView false) [1, 2] =
      callAll (fun _ => 0) (fun _ => some twoPaths) (MpOrbOlia.unevenView false) [2, 1] :=
  (coupling_order (fun _ => 0) (fun _ => some twoPaths) (MpOrbOlia.unevenView false) (by decide)
    (List.Perm.swap 2 1 [])).1

end Coupled

/-! ## The budget of a connection -/

namespace MpOrbOlia

variable {connection : MpTcpConnection} {view : MetaView} {self : SocketId}

/-- What OLIA adds to the increase of `self`, in bytes and before the clamp. -/
def creditOf (connection : MpTcpConnection) (view : MetaView) (self : SocketId) : ℚ :=
  match transfer (some connection) view self with
  | none => 0
  | some (a, _) => a * sndMss (view self)

theorem transfer_some {a : ℚ} {current : Path}
    (h : transfer (some connection) view self = some (a, current)) :
    current ∈ connectionPaths connection view ∧ current.algorithm = self ∧ ∃ best,
      (Collection.ofPaths (connectionPaths connection view)).bestPath = some best ∧
      a = alphaR (connectionPaths connection view) best
        (Collection.ofPaths (connectionPaths connection view)).maximumWindow current := by
  rw [transfer_eq] at h
  split at h
  · cases h
  · split at h
    · cases h
    · obtain ⟨c, hcollect, htransfer⟩ := Option.bind_eq_some_iff.1 h
      rw [collect_eq] at hcollect
      split at hcollect
      · cases hcollect
        unfold Collection.transfer at htransfer
        rw [ofPaths_paths] at htransfer
        split at htransfer
        · cases htransfer
        · split at htransfer
          · rename_i best path hbest hcurrent
            cases htransfer
            obtain ⟨hmem, hself⟩ :=
              (currentPath_eq_some (connectionPaths_nodup connection view)).1 hcurrent
            exact ⟨hmem, hself, best, hbest, rfl⟩
          · cases htransfer
      · cases hcollect

theorem clamp_le_max (v : ℚ) {lo hi : ℚ} : clamp v lo hi ≤ max lo v := by
  unfold clamp
  split
  · exact le_max_left _ _
  · split
    · rename_i hhi
      exact hhi.le.trans (le_max_right _ _)
    · exact le_max_right _ _

/-- The state on which a caller with a transfer is corrected. -/
theorem corrected_of_transfer {a : ℚ} {current : Path}
    (h : transfer (some connection) view self = some (a, current)) :
    ∃ state : OrbtcpStateVariables,
      (MpOrbSemiCoupledAlpha.adjustAdditiveIncrease (some connection) view
        self).additiveIncrease = state.additiveIncrease.toNat ∧
      sndMss (view self) = state.snd_mss.toNat ∧
      (adjustAdditiveIncrease (some connection) view self).additiveIncrease =
        (correct state a current).additiveIncrease.toNat := by
  obtain ⟨hmem, rfl, -⟩ := transfer_some h
  obtain ⟨s, -, hpath⟩ := List.mem_filterMap.1 hmem
  obtain rfl := pathOf_algorithm hpath
  obtain ⟨state, hstate, -⟩ := pathOf_state hpath
  obtain ⟨residual, additiveIncrease, halpha⟩ :=
    MpOrbSemiCoupledAlpha.adjustAdditiveIncrease_withCredit (some connection) view
      current.algorithm
  have hafter : (MpOrbSemiCoupledAlpha.adjustAdditiveIncrease (some connection) view
      current.algorithm).state = some { state with additiveIncrease } := by
    rw [halpha]
    simp [MetaSubflow.withCredit, hstate]
  refine ⟨{ state with additiveIncrease }, MetaSubflow.additiveIncrease_eq hafter, ?_, ?_⟩
  · unfold sndMss
    rw [hstate]
  · exact MetaSubflow.additiveIncrease_eq (adjustAdditiveIncrease_corrected h hafter)

/-- **OLIA's increase is Alpha's and its credit, but never negative.** -/
theorem additiveIncrease_le (connection : MpTcpConnection) (view : MetaView) (self : SocketId) :
    ((adjustAdditiveIncrease (some connection) view self).additiveIncrease : ℚ) ≤
      max 0 ((MpOrbSemiCoupledAlpha.adjustAdditiveIncrease (some connection) view
        self).additiveIncrease + creditOf connection view self) := by
  cases htransfer : transfer (some connection) view self with
  | none =>
    rw [adjustAdditiveIncrease_exit htransfer]
    unfold creditOf
    rw [htransfer, add_zero]
    exact le_max_right _ _
  | some result =>
    obtain ⟨a, current⟩ := result
    obtain ⟨hmem, -, -⟩ := transfer_some htransfer
    obtain ⟨state, halpha, hmss, holia⟩ := corrected_of_transfer htransfer
    have hfloor : ((correct state a current).additiveIncrease.toNat : ℤ) =
        ⌊clamp (state.additiveIncrease.toNat + a * state.snd_mss.toNat) 0 UINT32_MAX⌋ :=
      correct_floor (one_le_window hmem)
    have hcast := congrArg (Int.cast : ℤ → ℚ) hfloor
    rw [Int.cast_natCast] at hcast
    unfold creditOf
    rw [htransfer, holia, hcast, halpha, hmss]
    exact (Int.floor_le _).trans (clamp_le_max _)

theorem residual_eq (connection : Option MpTcpConnection) (view : MetaView) (self : SocketId) :
    (adjustAdditiveIncrease connection view self).additiveIncreaseResidual =
      (MpOrbSemiCoupledAlpha.adjustAdditiveIncrease connection view
        self).additiveIncreaseResidual := by
  obtain hsame | ⟨state, a, current, -, -, hcall⟩ := adjust_cases connection view self
  · rw [hsame]
  · rw [hcall]

/-! ### The credits of all paths -/

theorem creditOf_none (h : transfer (some connection) view self = none) :
    creditOf connection view self = 0 := by
  unfold creditOf
  rw [h]

theorem creditOf_eq_zero
    (h : self ∉ (connectionPaths connection view).map Path.algorithm) :
    creditOf connection view self = 0 :=
  creditOf_none (transfer_exit (Or.inr (Or.inr (Or.inl h))))

theorem creditOf_of_not_olia (h : (view self).flavour.isOlia = false) :
    creditOf connection view self = 0 := by
  apply creditOf_eq_zero
  intro hmem
  obtain ⟨p, hp, rfl⟩ := List.mem_map.1 hmem
  obtain ⟨s, -, hpath⟩ := List.mem_filterMap.1 hp
  obtain rfl := pathOf_algorithm hpath
  have hactive : activeState (view p.algorithm) = none := by
    unfold activeState
    rw [h]
    cases (view p.algorithm).fsmState.carriesData <;> rfl
  unfold pathOf at hpath
  rw [hactive] at hpath
  cases hpath

theorem creditOf_path {p best : Path} (hp : p ∈ connectionPaths connection view)
    (hbest : (Collection.ofPaths (connectionPaths connection view)).bestPath = some best)
    {mss : ℕ} (hmss : sndMss (view p.algorithm) ≤ mss) :
    max 0 (creditOf connection view p.algorithm) ≤
      max 0 (alphaR (connectionPaths connection view) best
        (Collection.ofPaths (connectionPaths connection view)).maximumWindow p) * mss := by
  have hmssQ : (sndMss (view p.algorithm) : ℚ) ≤ mss := Nat.cast_le.2 hmss
  cases htransfer : transfer (some connection) view p.algorithm with
  | none =>
    rw [creditOf_none htransfer, max_self]
    exact mul_nonneg (le_max_left _ _) (Nat.cast_nonneg _)
  | some result =>
    obtain ⟨a, current⟩ := result
    obtain ⟨hmem, hself, best', hbest', ha⟩ := transfer_some htransfer
    have hcurrent : current = p := by
      have hone : ∀ q, currentPath (connectionPaths connection view) p.algorithm = some q ↔
          q ∈ connectionPaths connection view ∧ q.algorithm = p.algorithm :=
        fun q => currentPath_eq_some (connectionPaths_nodup connection view)
      exact Option.some.inj (((hone current).2 ⟨hmem, hself⟩).symm.trans ((hone p).2 ⟨hp, rfl⟩))
    rw [hbest] at hbest'
    cases hbest'
    subst hcurrent
    unfold creditOf
    rw [htransfer, ← ha]
    refine max_le (mul_nonneg (le_max_left _ _) (Nat.cast_nonneg _)) ?_
    exact mul_le_mul (le_max_right _ _) hmssQ (Nat.cast_nonneg _) (le_max_left _ _)

theorem sum_paths_le {g : SocketId → ℚ} (hnonneg : ∀ s, 0 ≤ g s)
    (hzero : ∀ s, s ∉ (connectionPaths connection view).map Path.algorithm → g s = 0)
    (subflows : Finset SocketId) :
    ∑ s ∈ subflows, g s ≤ ((connectionPaths connection view).map fun p => g p.algorithm).sum := by
  let algorithms := ((connectionPaths connection view).map Path.algorithm).toFinset
  have hpath : ∀ s ∈ subflows, g s ≠ 0 → s ∈ algorithms := by
    intro s _ hne
    by_contra hs
    exact hne (hzero s fun hmem => hs (List.mem_toFinset.2 hmem))
  calc ∑ s ∈ subflows, g s
      = ∑ s ∈ subflows with s ∈ algorithms, g s := (Finset.sum_filter_of_ne hpath).symm
    _ ≤ ∑ s ∈ algorithms, g s := by
        apply Finset.sum_le_sum_of_subset_of_nonneg
        · intro s hs
          exact (Finset.mem_filter.1 hs).2
        · exact fun s _ _ => hnonneg s
    _ = ((connectionPaths connection view).map fun p => g p.algorithm).sum := by
        rw [List.sum_toFinset _ (connectionPaths_nodup connection view), List.map_map]
        rfl

/-- **OLIA gives at most one MSS over the number of paths.** -/
theorem sum_creditOf_le {mss : ℕ} (hmss : ∀ s ∈ connection.members, sndMss (view s) ≤ mss)
    (subflows : Finset SocketId) :
    ∑ s ∈ subflows, max 0 (creditOf connection view s) ≤
      mss / (connectionPaths connection view).length := by
  have hpot : (0 : ℚ) ≤ 1 / (connectionPaths connection view).length :=
    div_nonneg zero_le_one (Nat.cast_nonneg _)
  have hmember : ∀ p ∈ connectionPaths connection view, p.algorithm ∈ connection.members := by
    intro p hp
    obtain ⟨s, hs, hpath⟩ := List.mem_filterMap.1 hp
    rwa [pathOf_algorithm hpath]
  have hpaths : ∑ s ∈ subflows, max 0 (creditOf connection view s) ≤
      ((connectionPaths connection view).map fun p =>
        max 0 (creditOf connection view p.algorithm)).sum := by
    refine sum_paths_le (g := fun s => max 0 (creditOf connection view s))
      (fun s => le_max_left _ _) (fun s hs => ?_) subflows
    rw [creditOf_eq_zero hs, max_self]
  refine hpaths.trans ?_
  cases hbest : (Collection.ofPaths (connectionPaths connection view)).bestPath with
  | none =>
    rw [ofPaths_bestPath, Champion.champion_eq_none_iff] at hbest
    rw [hbest]
    simp
  | some best =>
    calc _ ≤ ((connectionPaths connection view).map fun p =>
            max 0 (alphaR (connectionPaths connection view) best
              (Collection.ofPaths (connectionPaths connection view)).maximumWindow p) *
                (mss : ℚ)).sum :=
          List.sum_le_sum fun p hp => creditOf_path hp hbest (hmss _ (hmember p hp))
      _ = ((connectionPaths connection view).map fun p =>
            max 0 (alphaR (connectionPaths connection view) best
              (Collection.ofPaths (connectionPaths connection view)).maximumWindow p)).sum *
                mss := List.sum_map_mul_right _ _ _
      _ ≤ 1 / (connectionPaths connection view).length * mss := by
          apply mul_le_mul_of_nonneg_right _ (Nat.cast_nonneg _)
          rw [alphaR_eq_amount]
          exact BalancedTransfer.sum_received_le hpot _
      _ = mss / (connectionPaths connection view).length := by
          rw [div_mul_eq_mul_div, one_mul]

/-- **The credits of a connection balance** when every path can be corrected. -/
theorem sum_creditOf_eq_zero {mss : ℕ} {subflows : Finset SocketId}
    (hpaths : ∀ p ∈ connectionPaths connection view, p.algorithm ∈ subflows ∧
      (view p.algorithm).pastStartup = true ∧ sndMss (view p.algorithm) = mss) :
    ∑ s ∈ subflows, creditOf connection view s = 0 := by
  let algorithms := ((connectionPaths connection view).map Path.algorithm).toFinset
  have hsubset : algorithms ⊆ subflows := by
    intro s hs
    obtain ⟨p, hp, rfl⟩ := List.mem_map.1 (List.mem_toFinset.1 hs)
    exact (hpaths p hp).1
  rw [← Finset.sum_subset hsubset fun s _ hs =>
    creditOf_eq_zero fun hmem => hs (List.mem_toFinset.2 hmem)]
  by_cases husable : ∀ s ∈ connection.members, usable (view s) = true
  · by_cases hn : 2 ≤ (connectionPaths connection view).length
    · obtain ⟨best, hbest⟩ : ∃ best,
          (Collection.ofPaths (connectionPaths connection view)).bestPath = some best := by
        apply Option.ne_none_iff_exists'.1
        rw [ofPaths_bestPath, Ne, Champion.champion_eq_none_iff]
        exact List.ne_nil_of_length_pos (by omega)
      have hne : connectionPaths connection view ≠ [] := List.ne_nil_of_length_pos (by omega)
      have hbalanced := balancedPaths hne (fun p hp => one_le_window hp) best
      rw [List.sum_toFinset _ (connectionPaths_nodup connection view), List.map_map]
      have hcredits : (connectionPaths connection view).map
            (creditOf connection view ∘ Path.algorithm) =
          (connectionPaths connection view).map fun p =>
            alphaR (connectionPaths connection view) best
              (Collection.ofPaths (connectionPaths connection view)).maximumWindow p * mss := by
        apply List.map_congr_left
        intro p hp
        obtain ⟨-, hsteady, hmss⟩ := hpaths p hp
        show creditOf connection view p.algorithm = _
        unfold creditOf
        rw [transfer_of_path husable hn hbest hp hsteady, hmss]
      rw [hcredits, List.sum_map_mul_right, hbalanced.sum, zero_mul]
    · exact Finset.sum_eq_zero fun s _ =>
        creditOf_none (transfer_exit (Or.inr (Or.inl (by omega))))
  · apply Finset.sum_eq_zero
    intro s _
    obtain ⟨t, hunusable⟩ := not_forall.1 husable
    obtain ⟨ht, hunusable⟩ := Classical.not_imp.1 hunusable
    exact creditOf_none (transfer_exit (Or.inl ⟨t, ht, Bool.eq_false_iff.2 hunusable⟩))

end MpOrbOlia

namespace Coupled

section Budget

variable {base : MetaSubflow → UInt32} {getMetaConnection : MetaConnections}
  {connection : MpTcpConnection} {view : MetaView} {s : SocketId}

/-- What the steady subflows of a connection have to share: the largest increase of one of them,
and what they carry over. -/
def budget (connection : MpTcpConnection) (view : MetaView) : ℚ :=
  ((steadySubflows connection view).sup fun s => (view s).additiveIncrease : ℕ) +
    ∑ s ∈ steadySubflows connection view, (view s).additiveIncreaseResidual

/-- What these subflows have after their calls. -/
def total (connection : MpTcpConnection) (view after : MetaView) : ℚ :=
  ∑ s ∈ steadySubflows connection view,
    (((after s).additiveIncrease : ℚ) + (after s).additiveIncreaseResidual)

theorem alpha_total_le (hres : ∀ s ∈ steadySubflows connection view, (view s).ResidualKept) :
    total connection view (MpOrbSemiCoupledAlpha.adjustAdditiveIncrease (some connection) view) ≤
      budget connection view := by
  unfold total budget
  rw [Finset.sum_congr rfl fun s hs => steady_balance (hres s hs) hs, Finset.sum_add_distrib]
  refine add_le_add_left (Shares.split_le (Nat.cast_nonneg _) (fun s hs => weightOf_nonneg hs)
    weights_le_one fun s hs => ?_) _
  exact Nat.cast_le.2 (Finset.le_sup (f := fun s => (view s).additiveIncrease) hs)

/-- A coupled subflow ends with Alpha's increase and its credit from OLIA, never below zero, and
with Alpha's residual. -/
theorem adjusted_le (hmeta : getMetaConnection s = some connection)
    (hcoupled : (view s).flavour.isAlpha = true) :
    ((adjustAdditiveIncrease base getMetaConnection view s).additiveIncrease : ℚ) ≤
        max 0 ((MpOrbSemiCoupledAlpha.adjustAdditiveIncrease (some connection) view
          s).additiveIncrease + MpOrbOlia.creditOf connection view s) ∧
      (adjustAdditiveIncrease base getMetaConnection view s).additiveIncreaseResidual =
        (MpOrbSemiCoupledAlpha.adjustAdditiveIncrease (some connection) view
          s).additiveIncreaseResidual := by
  unfold adjustAdditiveIncrease
  rw [hmeta]
  cases hflavour : (view s).flavour with
  | olia =>
    exact ⟨MpOrbOlia.additiveIncrease_le connection view s, MpOrbOlia.residual_eq _ view s⟩
  | other =>
    rw [hflavour] at hcoupled
    cases hcoupled
  | alpha | delta | omega =>
    have hnot : (view s).flavour.isOlia = false := by rw [hflavour]; rfl
    rw [MpOrbOlia.creditOf_of_not_olia hnot, add_zero]
    exact ⟨le_max_right _ _, rfl⟩

theorem called_le (base : MetaSubflow → UInt32) {callers : List SocketId}
    (hmeta : ∀ s ∈ connection.members, getMetaConnection s = some connection)
    (hnodup : callers.Nodup) (hcaller : s ∈ callers) (hs : s ∈ steadySubflows connection view) :
    ((callAll base getMetaConnection view callers s).additiveIncrease : ℚ) ≤
        max 0 ((MpOrbSemiCoupledAlpha.adjustAdditiveIncrease (some connection) view
          s).additiveIncrease + MpOrbOlia.creditOf connection view s) ∧
      (callAll base getMetaConnection view callers s).additiveIncreaseResidual =
        (MpOrbSemiCoupledAlpha.adjustAdditiveIncrease (some connection) view
          s).additiveIncreaseResidual := by
  obtain ⟨hmem, hshares, -⟩ := mem_steadySubflows.1 hs
  have hcoupled : (view s).flavour.isAlpha = true := by
    unfold MetaSubflow.shares at hshares
    simp only [Bool.and_eq_true] at hshares
    exact hshares.1.2
  rw [callAll_apply hnodup, if_pos hcaller]
  exact adjusted_le (hmeta s hmem) hcoupled

/-- **The budget of a connection.**  Every steady subflow of a connection calls once, in any order
and between calls of other subflows.  The increases and residuals then exceed the largest uncoupled
increase and the old residuals by at most one MSS over the number of OLIA paths; and not at all when
all of these are steady, with one MSS, and OLIA takes from none more than Alpha left it. -/
theorem coupling_budget (base : MetaSubflow → UInt32) (getMetaConnection : MetaConnections)
    (connection : MpTcpConnection) (view : MetaView) {callers : List SocketId}
    (hmeta : ∀ s ∈ connection.members, getMetaConnection s = some connection)
    (hnodup : callers.Nodup) (hall : ∀ s ∈ steadySubflows connection view, s ∈ callers)
    (hres : ∀ s ∈ steadySubflows connection view, (view s).ResidualKept) {mss : ℕ}
    (hmss : ∀ s ∈ connection.members, MpOrbOlia.sndMss (view s) ≤ mss) :
    total connection view (callAll base getMetaConnection view callers) ≤
        budget connection view + mss / (MpOrbOlia.connectionPaths connection view).length ∧
      ((∀ p ∈ MpOrbOlia.connectionPaths connection view,
          p.algorithm ∈ steadySubflows connection view ∧
            MpOrbOlia.sndMss (view p.algorithm) = mss) →
        (∀ s ∈ steadySubflows connection view,
          0 ≤ ((MpOrbSemiCoupledAlpha.adjustAdditiveIncrease (some connection) view
            s).additiveIncrease : ℚ) + MpOrbOlia.creditOf connection view s) →
        total connection view (callAll base getMetaConnection view callers) ≤
          budget connection view) := by
  let after := callAll base getMetaConnection view callers
  let alpha := fun s => MpOrbSemiCoupledAlpha.adjustAdditiveIncrease (some connection) view s
  let credit := fun s => MpOrbOlia.creditOf connection view s
  have hbudget : ∑ s ∈ steadySubflows connection view, (((alpha s).additiveIncrease : ℚ) +
      (alpha s).additiveIncreaseResidual) ≤ budget connection view := alpha_total_le hres
  have hafter := fun s hs => called_le base hmeta hnodup (hall s hs) hs
  constructor
  · calc total connection view after
        ≤ ∑ s ∈ steadySubflows connection view, (((alpha s).additiveIncrease : ℚ) +
            (alpha s).additiveIncreaseResidual + max 0 (credit s)) := by
          apply Finset.sum_le_sum
          intro s hs
          obtain ⟨hle, hresidual⟩ := hafter s hs
          have hincrease : (0 : ℚ) ≤ (alpha s).additiveIncrease := Nat.cast_nonneg _
          have hpart : max 0 (((alpha s).additiveIncrease : ℚ) + credit s) ≤
              (alpha s).additiveIncrease + max 0 (credit s) :=
            max_le (add_nonneg hincrease (le_max_left _ _))
              (add_le_add_right (le_max_right _ _) _)
          rw [hresidual]
          linarith
      _ ≤ budget connection view + mss / (MpOrbOlia.connectionPaths connection view).length := by
          rw [Finset.sum_add_distrib]
          exact add_le_add hbudget (MpOrbOlia.sum_creditOf_le hmss _)
  · intro hpaths hpaid
    have hbalance : ∑ s ∈ steadySubflows connection view, credit s = 0 := by
      have hcorrected : ∀ p ∈ MpOrbOlia.connectionPaths connection view,
          p.algorithm ∈ steadySubflows connection view ∧
            (view p.algorithm).pastStartup = true ∧
              MpOrbOlia.sndMss (view p.algorithm) = mss := by
        intro p hp
        obtain ⟨hsteady, hone⟩ := hpaths p hp
        exact ⟨hsteady, (mem_steadySubflows.1 hsteady).2.2, hone⟩
      exact MpOrbOlia.sum_creditOf_eq_zero hcorrected
    calc total connection view after
        ≤ ∑ s ∈ steadySubflows connection view, (((alpha s).additiveIncrease : ℚ) +
            (alpha s).additiveIncreaseResidual + credit s) := by
          apply Finset.sum_le_sum
          intro s hs
          obtain ⟨hle, hresidual⟩ := hafter s hs
          rw [max_eq_right (hpaid s hs)] at hle
          rw [hresidual]
          linarith
      _ ≤ budget connection view := by
          rw [Finset.sum_add_distrib, hbalance, add_zero]
          exact hbudget

/-- Path 1 of two receives half an MSS from path 2. -/
theorem coupling_budget_two_paths :
    total twoPaths (MpOrbOlia.unevenView false)
      (callAll (fun _ => 0) (fun _ => some twoPaths) (MpOrbOlia.unevenView false) [2, 1]) ≤
        budget twoPaths (MpOrbOlia.unevenView false) + 724 := by
  have hsteady : steadySubflows twoPaths (MpOrbOlia.unevenView false) = {1, 2} := by
    decide +kernel
  have hpaths : (MpOrbOlia.connectionPaths twoPaths (MpOrbOlia.unevenView false)).length = 2 := by
    decide +kernel
  have hall : ∀ s ∈ steadySubflows twoPaths (MpOrbOlia.unevenView false), s ∈ [2, 1] := by
    rw [hsteady]
    simp
  have hres : ∀ s, (MpOrbOlia.unevenView false s).ResidualKept := by
    intro s
    unfold MpOrbOlia.unevenView
    split <;> exact ⟨le_rfl, zero_lt_one⟩
  have hmss : ∀ s, MpOrbOlia.sndMss (MpOrbOlia.unevenView false s) = 1448 := by
    intro s
    unfold MpOrbOlia.unevenView
    split <;> rfl
  obtain ⟨hbound, -⟩ := coupling_budget (fun _ => 0) (fun _ => some twoPaths) twoPaths
    (MpOrbOlia.unevenView false) (fun _ _ => rfl) (by decide) hall (fun s _ => hres s)
    fun s _ => (hmss s).le
  rw [hpaths] at hbound
  refine hbound.trans (le_of_eq ?_)
  norm_num

end Budget

end Coupled

end MpOrb
