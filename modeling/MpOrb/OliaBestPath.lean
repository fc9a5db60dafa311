import MpOrb.Olia

/-!
# The best path does not depend on the order of the subflows

Best paths are compared up to a tolerance, and nearness is not transitive: along a chain of nearly
equal paths three of them can beat each other in a circle (`near_chain_circle`).  Where nearness is
transitive on the paths compared, the comparison is an order.

* `Coherent` — nearly equal fair rates are transitive, and so are nearly equal resource costs of
  paths with nearly equal fair rates.
* `isBetterPath_orders` — coherent paths are ordered; `tie_iff` — what it means to tie.
* `best_path_order_independent` — the best path is not beaten, and the best set and every caller's
  correction are the same for every order of the subflows.
-/

set_option autoImplicit false

namespace MpOrb.MpOrbOlia

open Tolerance

/-! ## The comparison as an order -/

/-- A better path has the larger fair rate, then the smaller cost, then the smaller RTT. -/
theorem isBetterPath_iff {candidate currentBest : Path} :
    isBetterPath candidate currentBest = true ↔
      NearLex tolerance (fun p : Path => -p.bottleneckFairRate)
        (NearLex tolerance Path.resourceCost fun p q => p.rtt < q.rtt) candidate currentBest := by
  unfold isBetterPath NearLex
  simp only [Near.neg_iff, ← nearlyEqual_iff, neg_lt_neg_iff]
  cases nearlyEqual candidate.bottleneckFairRate currentBest.bottleneckFairRate <;>
    cases nearlyEqual candidate.resourceCost currentBest.resourceCost <;> simp

/-- Nearness is transitive on the fair rates, and on the costs where the fair rates are near. -/
structure Coherent (paths : List Path) : Prop where
  fairRate : ∀ p ∈ paths, ∀ q ∈ paths, ∀ r ∈ paths,
    nearlyEqual p.bottleneckFairRate q.bottleneckFairRate = true →
    nearlyEqual q.bottleneckFairRate r.bottleneckFairRate = true →
    nearlyEqual p.bottleneckFairRate r.bottleneckFairRate = true
  resourceCost : ∀ p ∈ paths, ∀ q ∈ paths, ∀ r ∈ paths,
    nearlyEqual p.bottleneckFairRate q.bottleneckFairRate = true →
    nearlyEqual q.bottleneckFairRate r.bottleneckFairRate = true →
    nearlyEqual p.resourceCost q.resourceCost = true →
    nearlyEqual q.resourceCost r.resourceCost = true →
    nearlyEqual p.resourceCost r.resourceCost = true

section Order

variable {paths : List Path} {x y z : Path}

theorem isBetterPath_asymm (h : isBetterPath x y = true) : isBetterPath y x = false := by
  rw [isBetterPath_iff] at h
  rw [← Bool.not_eq_true, isBetterPath_iff]
  exact nearLex_asymm (nearLex_asymm fun hlt => hlt.not_gt) h

/-- The paths of a list whose fair rate is near that of `x`. -/
def rateClass (paths : List Path) (x : Path) : Set Path :=
  {p | p ∈ paths ∧ nearlyEqual x.bottleneckFairRate p.bottleneckFairRate = true}

theorem Coherent.rates (h : Coherent paths) :
    TransitiveOn tolerance (fun p : Path => -p.bottleneckFairRate) {p | p ∈ paths} := by
  intro p hp q hq r hr hpq hqr
  rw [Near.neg_iff, ← nearlyEqual_iff] at *
  exact h.fairRate p hp q hq r hr hpq hqr

theorem Coherent.costs (h : Coherent paths) (hx : x ∈ paths) :
    TransitiveOn tolerance Path.resourceCost (rateClass paths x) := by
  rintro p ⟨hp, hxp⟩ q ⟨hq, hxq⟩ r ⟨hr, hxr⟩ hpq hqr
  have hpx := nearlyEqual_iff.2 (nearlyEqual_iff.1 hxp).symm
  have hqx := nearlyEqual_iff.2 (nearlyEqual_iff.1 hxq).symm
  rw [← nearlyEqual_iff] at *
  exact h.resourceCost p hp q hq r hr (h.fairRate p hp x hx q hq hpx hxq)
    (h.fairRate q hq x hx r hr hqx hxr) hpq hqr

/-- **Coherent paths are ordered.** -/
theorem isBetterPath_orders (h : Coherent paths) :
    Champion.OrdersOn isBetterPath {p | p ∈ paths} where
  asymm _ _ _ _ hxy := isBetterPath_asymm hxy
  cotrans x hx y hy z hz hxz := by
    simp only [isBetterPath_iff] at *
    refine nearLex_cotrans tolerance_nonneg h.rates hx hy hz ?_ hxz
    intro hxy hyz hcost
    rw [Near.neg_iff] at hxy hyz
    have hself : x ∈ rateClass paths x := ⟨hx, nearlyEqual_self _⟩
    have hyclass : y ∈ rateClass paths x := ⟨hy, nearlyEqual_iff.2 hxy⟩
    have hzclass : z ∈ rateClass paths x :=
      ⟨hz, h.fairRate x hx y hy z hz (nearlyEqual_iff.2 hxy) (nearlyEqual_iff.2 hyz)⟩
    refine nearLex_cotrans tolerance_nonneg (h.costs hx) hself hyclass hzclass ?_ hcost
    intro _ _ hrtt
    rcases lt_or_ge x.rtt y.rtt with hlt | hge
    · exact Or.inl hlt
    · exact Or.inr (hge.trans_lt hrtt)

/-- Two paths tie when rates and costs are near and the RTTs are equal. -/
theorem tie_iff : (isBetterPath x y = false ∧ isBetterPath y x = false) ↔
    nearlyEqual x.bottleneckFairRate y.bottleneckFairRate = true ∧
      nearlyEqual x.resourceCost y.resourceCost = true ∧ x.rtt = y.rtt := by
  have hcomm : ∀ a b : ℚ, nearlyEqual a b = nearlyEqual b a := by
    intro a b
    rw [Bool.eq_iff_iff, nearlyEqual_iff, nearlyEqual_iff]
    exact ⟨Near.symm, Near.symm⟩
  have hneq : ∀ a b : ℚ, nearlyEqual a b = false → a ≠ b := by
    rintro a _ h rfl
    rw [nearlyEqual_self] at h
    cases h
  unfold isBetterPath
  rw [hcomm y.bottleneckFairRate, hcomm y.resourceCost]
  cases hrate : nearlyEqual x.bottleneckFairRate y.bottleneckFairRate with
  | false =>
    have hne := hneq _ _ hrate
    simp only [Bool.not_false, if_true, decide_eq_false_iff_not, not_lt, Bool.false_eq_true,
      false_and, iff_false]
    rintro ⟨hle, hge⟩
    exact hne (le_antisymm hle hge)
  | true =>
    cases hcost : nearlyEqual x.resourceCost y.resourceCost with
    | false =>
      have hne := hneq _ _ hcost
      simp only [Bool.not_true, Bool.false_eq_true, if_false, Bool.not_false, if_true,
        decide_eq_false_iff_not, not_lt, false_and, and_false, iff_false]
      rintro ⟨hge, hle⟩
      exact hne (le_antisymm hle hge)
    | true =>
      simp only [Bool.not_true, Bool.false_eq_true, if_false, decide_eq_false_iff_not, not_lt,
        true_and]
      exact ⟨fun ⟨hge, hle⟩ => le_antisymm hle hge, fun heq => ⟨heq.ge, heq.le⟩⟩

/-- Paths that tie are the best path for the same paths. -/
theorem isSameBestPath_congr (h : Coherent paths) (hx : x ∈ paths) (hy : y ∈ paths)
    (htie : isBetterPath x y = false ∧ isBetterPath y x = false) {p : Path} (hp : p ∈ paths) :
    isSameBestPath p x = isSameBestPath p y := by
  obtain ⟨hrate, hcost, hrtt⟩ := tie_iff.1 htie
  have hrates : nearlyEqual p.bottleneckFairRate x.bottleneckFairRate =
      nearlyEqual p.bottleneckFairRate y.bottleneckFairRate := by
    have hcongr := near_congr h.rates hx hy hp (Near.neg_iff.2 (nearlyEqual_iff.1 hrate))
    simp only [Near.neg_iff] at hcongr
    rw [Bool.eq_iff_iff, nearlyEqual_iff, nearlyEqual_iff]
    exact hcongr
  unfold isSameBestPath
  rw [hrtt, hrates]
  cases hnear : nearlyEqual p.bottleneckFairRate y.bottleneckFairRate with
  | false => rfl
  | true =>
    have hpclass : p ∈ rateClass paths x :=
      ⟨hp, nearlyEqual_iff.2 (nearlyEqual_iff.1 (hrates.trans hnear)).symm⟩
    have hself : x ∈ rateClass paths x := ⟨hx, nearlyEqual_self _⟩
    have hcosts : nearlyEqual p.resourceCost x.resourceCost =
        nearlyEqual p.resourceCost y.resourceCost := by
      rw [Bool.eq_iff_iff, nearlyEqual_iff, nearlyEqual_iff]
      exact near_congr (h.costs hx) hself ⟨hy, hrate⟩ hpclass (nearlyEqual_iff.1 hcost)
    rw [hcosts]

end Order

/-! ## Every order of the subflows -/

section Permutation

variable {paths paths' : List Path}

theorem maximumWindow_perm (hperm : paths'.Perm paths) :
    (Collection.ofPaths paths').maximumWindow = (Collection.ofPaths paths).maximumWindow := by
  rw [ofPaths_maximumWindow, ofPaths_maximumWindow]
  apply hperm.foldl_eq'
  intro p _ q _ m
  exact max_right_comm m p.window q.window

theorem bestPath_tie (h : Coherent paths) (hperm : paths'.Perm paths) {best best' : Path}
    (hbest : (Collection.ofPaths paths).bestPath = some best)
    (hbest' : (Collection.ofPaths paths').bestPath = some best') :
    ∀ p ∈ paths, isSameBestPath p best' = isSameBestPath p best := by
  rw [ofPaths_bestPath] at hbest hbest'
  obtain ⟨hnot, hnot'⟩ := Champion.champions_tie (isBetterPath_orders h) (fun _ hp => hp)
    (fun _ => hperm.mem_iff) hbest hbest'
  intro p hp
  exact isSameBestPath_congr h (hperm.mem_iff.1 (Champion.champion_mem hbest'))
    (Champion.champion_mem hbest) ⟨hnot', hnot⟩ hp

theorem alphaR_perm (hperm : paths'.Perm paths) {best best' : Path}
    (hsame : ∀ p ∈ paths, isSameBestPath p best' = isSameBestPath p best)
    (maximumWindow : ℚ) {current : Path} (hcurrent : current ∈ paths) :
    alphaR paths' best' maximumWindow current = alphaR paths best maximumWindow current := by
  have hcollected : ∀ p ∈ paths, isCollectedPath best' maximumWindow p =
      isCollectedPath best maximumWindow p := by
    intro p hp
    unfold isCollectedPath
    rw [hsame p hp]
  have hcount : paths'.countP (isCollectedPath best' maximumWindow) =
      paths.countP (isCollectedPath best maximumWindow) := by
    rw [hperm.countP_eq]
    apply List.countP_congr
    intro p hp
    rw [hcollected p hp]
  unfold alphaR
  rw [hcount, hperm.countP_eq, hperm.length_eq, hcollected current hcurrent]

theorem currentPath_perm (hperm : paths'.Perm paths) (hids : (paths.map Path.algorithm).Nodup)
    (self : SocketId) : currentPath paths' self = currentPath paths self := by
  have hids' : (paths'.map Path.algorithm).Nodup := (hperm.map _).nodup_iff.2 hids
  apply Option.ext
  intro p
  rw [currentPath_eq_some hids, currentPath_eq_some hids', hperm.mem_iff]

theorem transfer_perm (h : Coherent paths) (hperm : paths'.Perm paths)
    (hids : (paths.map Path.algorithm).Nodup) (self : SocketId) :
    (Collection.ofPaths paths').transfer self = (Collection.ofPaths paths).transfer self := by
  unfold Collection.transfer
  rw [ofPaths_paths, ofPaths_paths, ofPaths_sumWindows, ofPaths_sumWindows,
    maximumWindow_perm hperm, currentPath_perm hperm hids, hperm.length_eq,
    (hperm.map Path.window).sum_eq]
  split
  · rfl
  · cases hcurrent : currentPath paths self with
    | none =>
      cases (Collection.ofPaths paths').bestPath <;> cases (Collection.ofPaths paths).bestPath <;>
        rfl
    | some current =>
      have hmem : current ∈ paths :=
        List.mem_of_mem_filter (List.mem_of_getLast? hcurrent)
      have hsome : ∀ l : List Path, current ∈ l → ∃ best,
          (Collection.ofPaths l).bestPath = some best := by
        intro l hl
        rw [← Option.ne_none_iff_exists', ofPaths_bestPath, Ne, Champion.champion_eq_none_iff]
        exact List.ne_nil_of_mem hl
      obtain ⟨best, hbest⟩ := hsome paths hmem
      obtain ⟨best', hbest'⟩ := hsome paths' (hperm.mem_iff.2 hmem)
      rw [hbest, hbest']
      simp only
      rw [alphaR_perm hperm (bestPath_tie h hperm hbest hbest') _ hmem]

theorem transfer_connection_perm {connection connection' : MpTcpConnection} {view : MetaView}
    (h : Coherent (connectionPaths connection view))
    (hperm : connection'.getSubflows.Perm connection.getSubflows) (self : SocketId) :
    transfer (some connection') view self = transfer (some connection) view self := by
  have hmembers : connection'.members.Perm connection.members := hperm.filterMap id
  have hcollect : (collect connection' view).bind (Collection.transfer · self) =
      (collect connection view).bind (Collection.transfer · self) := by
    rw [collect_eq, collect_eq, hmembers.all_eq]
    split
    · exact transfer_perm h (hmembers.filterMap _) (connectionPaths_nodup connection view) self
    · rfl
  rw [transfer_eq, transfer_eq, hcollect]

end Permutation

/-- **Order independence of the best set.**  For coherent paths the best path is not beaten by any
path; every order of the list has the same best set; and every caller on a connection with these
paths gets the same correction for every order of the connection's subflow list. -/
theorem best_path_order_independent (paths : List Path) (h : Coherent paths) :
    (∀ best, (Collection.ofPaths paths).bestPath = some best →
        ∀ p ∈ paths, isBetterPath p best = false) ∧
      (∀ paths', paths'.Perm paths → ∀ best best',
        (Collection.ofPaths paths).bestPath = some best →
        (Collection.ofPaths paths').bestPath = some best' →
        ∀ p ∈ paths, isSameBestPath p best' = isSameBestPath p best) ∧
      ∀ (connection connection' : MpTcpConnection) (view : MetaView),
        connectionPaths connection view = paths →
        connection'.getSubflows.Perm connection.getSubflows →
        ∀ self, transfer (some connection') view self = transfer (some connection) view self := by
  refine ⟨?_, ?_, ?_⟩
  · intro best hbest
    rw [ofPaths_bestPath] at hbest
    exact Champion.champion_not_beaten (isBetterPath_orders h) (fun _ hp => hp) hbest
  · intro paths' hperm best best' hbest hbest'
    exact bestPath_tie h hperm hbest hbest'
  · rintro connection connection' view rfl hperm self
    exact transfer_connection_perm h hperm self

/-- The two paths of `steadyView` in either order. -/
theorem best_path_two_paths :
    (∀ p ∈ connectionPaths twoPaths (steadyView .olia),
        ((Collection.ofPaths (connectionPaths twoPaths (steadyView .olia))).bestPath.any
          fun best => isBetterPath p best) = false) ∧
      transfer (some ⟨[some 2, some 1], by decide⟩) (steadyView .olia) 2 =
        transfer (some twoPaths) (steadyView .olia) 2 := by
  obtain ⟨hbest, -, horder⟩ :=
    best_path_order_independent (connectionPaths twoPaths (steadyView .olia))
      ⟨by decide +kernel, by decide +kernel⟩
  refine ⟨?_, horder twoPaths _ _ rfl (List.Perm.swap _ _ _) 2⟩
  intro p hp
  cases hcase : (Collection.ofPaths (connectionPaths twoPaths (steadyView .olia))).bestPath with
  | none => rfl
  | some best => exact hbest best hcase p hp

/-- Three paths along a chain of nearly equal fair rates, each cheaper than the one before. -/
def chainPath (k : ℕ) : Path where
  algorithm := BitVec.ofNat 32 k
  window := 4 - k
  bottleneckFairRate := 1 / 2 + (3 - k) * (3 / 4) / 2 ^ 47
  resourceCost := 4 - k
  rtt := 1 / 100

/-- The ends of the chain are not nearly equal: the three paths beat each other in a circle, the
best path is beaten, and another order has another best set and other corrections. -/
theorem near_chain_circle :
    let paths := [chainPath 1, chainPath 2, chainPath 3]
    let rotated := [chainPath 3, chainPath 1, chainPath 2]
    (∀ p ∈ paths, 0 < p.window ∧ 0 < p.bottleneckFairRate ∧ 0 < p.resourceCost ∧ 0 < p.rtt) ∧
      (Collection.ofPaths paths).bestPath = some (chainPath 3) ∧
      isBetterPath (chainPath 1) (chainPath 3) = true ∧
      rotated.Perm paths ∧
      (Collection.ofPaths rotated).bestPath = some (chainPath 2) ∧
      isSameBestPath (chainPath 3) (chainPath 3) ≠ isSameBestPath (chainPath 3) (chainPath 2) ∧
      ((Collection.ofPaths rotated).transfer 3).map Prod.fst ≠
        ((Collection.ofPaths paths).transfer 3).map Prod.fst := by
  refine ⟨by decide +kernel, by decide +kernel, by decide +kernel, ?_, by decide +kernel,
    by decide +kernel, by decide +kernel⟩
  exact (List.perm_append_comm : ([chainPath 3] ++ [chainPath 1, chainPath 2]).Perm _)

end MpOrb.MpOrbOlia
