import MpOrb.AlphaBudget
import MpOrb.Olia
import MpOrb.Lib.BalancedTransfer

/-!
# OLIA moves credit without creating it

The best paths without the maximum window receive what the paths with the maximum window pay.

* `alphaR_eq_amount` — OLIA's `a_r` is a balanced transfer of a pot of `1 / n`.
* `BalancedPaths` — the sum, the bounds and the signs over all paths of a connection.
* `transfer_of_path` — a caller past startup gets the `a_r` of its own path.
* `olia_transfer` — the corrections are balanced and bounded, and the increase follows Alpha's
  within the correction; every early exit leaves Alpha's increase.
* `startup_breaks_balance` — a caller in startup leaves its part out.
-/

set_option autoImplicit false

namespace MpOrb.MpOrbOlia

/-! ## The paths of a connection -/

section Paths

variable {paths : List Path} {best : Path}

theorem one_le_normalizedWindow (state : OrbtcpStateVariables) : 1 ≤ normalizedWindow state :=
  le_max_right _ _

theorem one_le_window {connection : MpTcpConnection} {view : MetaView} {path : Path}
    (h : path ∈ connectionPaths connection view) : 1 ≤ path.window := by
  obtain ⟨s, -, hpath⟩ := List.mem_filterMap.1 h
  unfold pathOf at hpath
  split at hpath
  · cases hpath
    exact one_le_normalizedWindow _
  · cases hpath

theorem maximumWindow_mem (hpaths : paths ≠ []) (hwindow : ∀ p ∈ paths, 1 ≤ p.window) :
    ∃ p ∈ paths, p.window = (Collection.ofPaths paths).maximumWindow := by
  induction paths using List.reverseRecOn with
  | nil => exact absurd rfl hpaths
  | append_singleton rest path ih =>
    rw [ofPaths_snoc]
    show ∃ p ∈ rest ++ [path], p.window = max (Collection.ofPaths rest).maximumWindow path.window
    rcases le_total (Collection.ofPaths rest).maximumWindow path.window with hle | hle
    · exact ⟨path, by simp, (max_eq_right hle).symm⟩
    · have hrest : rest ≠ [] := by
        rintro rfl
        have hone := hwindow path (by simp)
        exact absurd (hone.trans hle) (by decide +kernel)
      obtain ⟨p, hp, hmax⟩ := ih hrest fun p hp => hwindow p (List.mem_append_left _ hp)
      exact ⟨p, List.mem_append_left _ hp, hmax.trans (max_eq_left hle).symm⟩

theorem maximumWindowPaths_pos (hpaths : paths ≠ []) (hwindow : ∀ p ∈ paths, 1 ≤ p.window) :
    0 < paths.countP (isMaximumWindowPath (Collection.ofPaths paths).maximumWindow) := by
  obtain ⟨p, hp, hmax⟩ := maximumWindow_mem hpaths hwindow
  apply List.countP_pos_iff.2
  refine ⟨p, hp, ?_⟩
  unfold isMaximumWindowPath
  rw [hmax]
  exact nearlyEqual_self _

/-! ## The transfer -/

theorem collected_disjoint {maximumWindow : ℚ} (p : Path)
    (h : isCollectedPath best maximumWindow p = true) :
    isMaximumWindowPath maximumWindow p = false := by
  unfold isCollectedPath at h
  simpa using (Bool.and_eq_true_iff.1 h).2

/-- **OLIA's `a_r` moves a pot of `1 / n`.** -/
theorem alphaR_eq_amount (paths : List Path) (best : Path) (maximumWindow : ℚ) :
    alphaR paths best maximumWindow =
      BalancedTransfer.amount (1 / (paths.length : ℚ)) (isCollectedPath best maximumWindow)
        (isMaximumWindowPath maximumWindow) paths := by
  funext current
  unfold alphaR BalancedTransfer.amount
  simp only [div_div, neg_div]

/-- The values of `a_r` over all paths. -/
structure BalancedPaths (paths : List Path) (best : Path) (maximumWindow : ℚ) : Prop where
  sum : (paths.map (alphaR paths best maximumWindow)).sum = 0
  bounded : ∀ p ∈ paths, |alphaR paths best maximumWindow p| ≤ 1 / paths.length
  credit : ∀ p ∈ paths, 0 < alphaR paths best maximumWindow p ↔
    isSameBestPath p best = true ∧ isMaximumWindowPath maximumWindow p = false
  debit : ∀ p ∈ paths, alphaR paths best maximumWindow p < 0 ↔
    isMaximumWindowPath maximumWindow p = true ∧
      ∃ q ∈ paths, isSameBestPath q best = true ∧ isMaximumWindowPath maximumWindow q = false
  idle : (∀ q ∈ paths, isSameBestPath q best = true → isMaximumWindowPath maximumWindow q = true) →
    ∀ p ∈ paths, alphaR paths best maximumWindow p = 0

theorem isCollectedPath_iff {maximumWindow : ℚ} {p : Path} :
    isCollectedPath best maximumWindow p = true ↔
      isSameBestPath p best = true ∧ isMaximumWindowPath maximumWindow p = false := by
  simp [isCollectedPath]

/-- **The corrections of a connection are balanced.** -/
theorem balancedPaths (hpaths : paths ≠ []) (hwindow : ∀ p ∈ paths, 1 ≤ p.window) (best : Path) :
    BalancedPaths paths best (Collection.ofPaths paths).maximumWindow := by
  have hpot : (0 : ℚ) < 1 / paths.length :=
    one_div_pos.2 (Nat.cast_pos.2 (List.length_pos_iff.2 hpaths))
  constructor <;> rw [alphaR_eq_amount]
  · exact BalancedTransfer.sum_amount collected_disjoint (maximumWindowPaths_pos hpaths hwindow)
  · intro p _
    exact BalancedTransfer.abs_amount_le hpot.le
  · intro p hp
    rw [← isCollectedPath_iff]
    exact BalancedTransfer.amount_pos_iff hpot hp
  · intro p hp
    simp only [← isCollectedPath_iff]
    exact BalancedTransfer.amount_neg_iff hpot collected_disjoint hp
  · intro hnone p _
    apply BalancedTransfer.amount_eq_zero
    rw [List.countP_pos_iff]
    rintro ⟨q, hq, hcollected⟩
    obtain ⟨hbest, hmax⟩ := isCollectedPath_iff.1 hcollected
    rw [hnone q hq hbest] at hmax
    cases hmax

end Paths

/-! ## The clamped correction -/

theorem clamp_mem (v : ℚ) {lo hi : ℚ} (h : lo ≤ hi) : lo ≤ clamp v lo hi ∧ clamp v lo hi ≤ hi := by
  unfold clamp
  split
  · exact ⟨le_rfl, h⟩
  · rename_i hlo
    split
    · exact ⟨h, le_rfl⟩
    · rename_i hhi
      exact ⟨not_lt.1 hlo, not_lt.1 hhi⟩

theorem abs_clamp_sub_le (v : ℚ) {a lo hi : ℚ} (hlo : lo ≤ a) (hhi : a ≤ hi) :
    |clamp v lo hi - a| ≤ |v - a| := by
  unfold clamp
  split
  · rw [abs_of_nonpos (by linarith), abs_of_nonpos (by linarith)]
    linarith
  · split
    · rw [abs_of_nonneg (by linarith), abs_of_nonneg (by linarith)]
      linarith
    · exact le_rfl

theorem abs_floor_sub_le {x : ℚ} {n c : ℤ} (h : |x - n| ≤ c) : |⌊x⌋ - n| ≤ c := by
  obtain ⟨hlow, hhigh⟩ := abs_le.1 h
  have hlow' : n - c ≤ ⌊x⌋ := by
    apply Int.le_floor.2
    push_cast
    linarith
  have hhigh' : ⌊x⌋ < n + c + 1 := by
    apply Int.floor_lt.2
    push_cast
    linarith
  rw [abs_le]
  omega

section Correct

variable {state : OrbtcpStateVariables} {a : ℚ} {current : Path}

theorem correction_eq (state : OrbtcpStateVariables) (a : ℚ) (hwindow : 1 ≤ current.window) :
    correction state a current = a * state.snd_mss.toNat := by
  simp only [correction]
  rw [div_mul_cancel₀ a (zero_lt_one.trans_le hwindow).ne']

theorem correct_floor (hwindow : 1 ≤ current.window) :
    ((correct state a current).additiveIncrease.toNat : ℤ) =
      ⌊clamp (state.additiveIncrease.toNat + a * state.snd_mss.toNat) 0 UINT32_MAX⌋ := by
  have hrange : (0 : ℚ) ≤ UINT32_MAX := Nat.cast_nonneg _
  obtain ⟨hlow, hhigh⟩ :=
    clamp_mem (state.additiveIncrease.toNat + a * state.snd_mss.toNat) hrange
  show ((MpOrbDelta.toUInt32 (clamp (_ + correction state a current) 0 UINT32_MAX)).toNat : ℤ) = _
  rw [correction_eq state a hwindow]
  apply MpOrbDelta.toUInt32_eq_floor hlow
  have hfloor := Int.floor_le_floor hhigh
  rwa [Int.floor_natCast] at hfloor

/-- **The increase stays within the correction of Alpha's.** -/
theorem abs_correct_sub_le {pot : ℚ} (hwindow : 1 ≤ current.window) (ha : |a| ≤ pot) :
    |((correct state a current).additiveIncrease.toNat : ℤ) - state.additiveIncrease.toNat| ≤
      ⌈state.snd_mss.toNat * pot⌉ := by
  have hmax : state.additiveIncrease.toNat ≤ UINT32_MAX := by
    have hlt : state.additiveIncrease.toNat < 2 ^ 32 := state.additiveIncrease.toNat_lt
    have hdef : UINT32_MAX = 2 ^ 32 - 1 := rfl
    omega
  have hmaxQ : (state.additiveIncrease.toNat : ℚ) ≤ UINT32_MAX := Nat.cast_le.2 hmax
  have hclamp := abs_clamp_sub_le (state.additiveIncrease.toNat + a * state.snd_mss.toNat)
    (Nat.cast_nonneg _) hmaxQ
  have hpot : |a * state.snd_mss.toNat| ≤ (⌈state.snd_mss.toNat * pot⌉ : ℤ) := by
    rw [abs_mul, Nat.abs_cast, mul_comm]
    exact (mul_le_mul_of_nonneg_left ha (Nat.cast_nonneg _)).trans (Int.le_ceil _)
  rw [add_sub_cancel_left] at hclamp
  rw [correct_floor hwindow]
  exact abs_floor_sub_le (n := state.additiveIncrease.toNat) (hclamp.trans hpot)

end Correct

/-! ## The caller -/

section Caller

variable {connection : MpTcpConnection} {view : MetaView} {self : SocketId}

theorem getPathQuality_withCredit (subflow : MetaSubflow) (residual : ℚ)
    (additiveIncrease : UInt32) :
    getPathQuality (subflow.withCredit residual additiveIncrease) = getPathQuality subflow := by
  unfold getPathQuality MetaSubflow.withCredit
  cases subflow.state <;> rfl

theorem activeState_withCredit (subflow : MetaSubflow) (residual : ℚ)
    (additiveIncrease : UInt32) :
    activeState (subflow.withCredit residual additiveIncrease) =
      (activeState subflow).map fun state => { state with additiveIncrease } := by
  unfold activeState MetaSubflow.withCredit
  cases hstate : subflow.state with
  | none => simp
  | some state =>
    simp only [Option.map_some]
    split
    · rfl
    · split
      · rfl
      · split <;> rfl

/-- The path loop does not see the credit of the caller. -/
theorem pathOf_update (view : MetaView) (self : SocketId) (residual : ℚ)
    (additiveIncrease : UInt32) :
    pathOf (Function.update view self ((view self).withCredit residual additiveIncrease)) =
      pathOf view := by
  funext s
  by_cases hs : s = self
  · subst hs
    unfold pathOf
    rw [Function.update_self, getPathQuality_withCredit, activeState_withCredit]
    cases activeState (view s) <;> cases getPathQuality (view s) <;> rfl
  · unfold pathOf
    rw [Function.update_of_ne hs]

theorem usable_update (view : MetaView) (self : SocketId) (residual : ℚ)
    (additiveIncrease : UInt32) (s : SocketId) :
    usable (Function.update view self ((view self).withCredit residual additiveIncrease) s) =
      usable (view s) := by
  by_cases hs : s = self
  · subst hs
    unfold usable
    rw [Function.update_self, getPathQuality_withCredit, activeState_withCredit, Option.isNone_map]
  · rw [Function.update_of_ne hs]

theorem transfer_alpha (connection : MpTcpConnection) (view : MetaView) (self : SocketId) :
    transfer (some connection) (Function.update view self
        (MpOrbSemiCoupledAlpha.adjustAdditiveIncrease (some connection) view self)) self =
      transfer (some connection) view self := by
  obtain ⟨residual, additiveIncrease, halpha⟩ :=
    MpOrbSemiCoupledAlpha.adjustAdditiveIncrease_withCredit (some connection) view self
  rw [halpha]
  have hcollect : collect connection
      (Function.update view self ((view self).withCredit residual additiveIncrease)) =
        collect connection view := by
    rw [collect_eq, collect_eq]
    unfold connectionPaths
    rw [pathOf_update]
    simp only [usable_update]
  rw [transfer_eq, transfer_eq, hcollect, Function.update_self]
  unfold MetaSubflow.withCredit
  cases (view self).state <;> rfl

theorem adjustAdditiveIncrease_exit (h : transfer (some connection) view self = none) :
    adjustAdditiveIncrease (some connection) view self =
      MpOrbSemiCoupledAlpha.adjustAdditiveIncrease (some connection) view self := by
  simp only [adjustAdditiveIncrease, transfer_alpha, h]
  cases (MpOrbSemiCoupledAlpha.adjustAdditiveIncrease (some connection) view self).state <;> rfl

theorem adjustAdditiveIncrease_corrected {a : ℚ} {current : Path} {state : OrbtcpStateVariables}
    (h : transfer (some connection) view self = some (a, current))
    (hstate : (MpOrbSemiCoupledAlpha.adjustAdditiveIncrease (some connection) view self).state =
      some state) :
    (adjustAdditiveIncrease (some connection) view self).state =
      some (correct state a current) := by
  simp only [adjustAdditiveIncrease, transfer_alpha, h, hstate]

theorem pathOf_state {s : SocketId} {path : Path} (h : pathOf view s = some path) :
    ∃ state, (view s).state = some state ∧ state.snd_mss ≠ 0 ∧ SIMTIME_ZERO < state.srtt := by
  have hactive : ∃ state, activeState (view s) = some state := by
    unfold pathOf at h
    split at h
    · rename_i state _ _ hstate _
      exact ⟨state, hstate⟩
    · cases h
  obtain ⟨state, hactive⟩ := hactive
  unfold activeState at hactive
  split at hactive
  · cases hactive
  · split at hactive
    · cases hactive
    · split at hactive
      · cases hactive
      · rename_i state' hstate
        split at hactive
        · cases hactive
        · rename_i hguard
          obtain ⟨hmss, hsrtt⟩ := not_or.1 hguard
          exact ⟨state', hstate, hmss, not_le.1 hsrtt⟩

/-- What `collect` gives when every active path has usable quality. -/
theorem collect_usable (husable : ∀ s ∈ connection.members, usable (view s) = true) :
    collect connection view = some (.ofPaths (connectionPaths connection view)) := by
  rw [collect_eq, if_pos (List.all_eq_true.2 husable)]

/-- **A caller past startup gets the `a_r` of its own path.** -/
theorem transfer_of_path (husable : ∀ s ∈ connection.members, usable (view s) = true)
    (hn : 2 ≤ (connectionPaths connection view).length) {best p : Path}
    (hbest : (Collection.ofPaths (connectionPaths connection view)).bestPath = some best)
    (hp : p ∈ connectionPaths connection view)
    (hsteady : (view p.algorithm).pastStartup = true) :
    transfer (some connection) view p.algorithm =
      some (alphaR (connectionPaths connection view) best
        (Collection.ofPaths (connectionPaths connection view)).maximumWindow p, p) := by
  obtain ⟨s, -, hpath⟩ := List.mem_filterMap.1 hp
  obtain rfl := pathOf_algorithm hpath
  obtain ⟨state, hstate, hmss, hsrtt⟩ := pathOf_state hpath
  have hsum : ¬ (Collection.ofPaths (connectionPaths connection view)).sumWindows ≤ 0 := by
    rw [ofPaths_sumWindows, not_le]
    apply List.sum_pos
    · intro w hw
      obtain ⟨q, hq, rfl⟩ := List.mem_map.1 hw
      exact zero_lt_one.trans_le (one_le_window hq)
    · apply mt List.map_eq_nil_iff.1
      exact List.ne_nil_of_length_pos (by omega)
  have hcurrent := (currentPath_eq_some (connectionPaths_nodup connection view)).2 ⟨hp, rfl⟩
  have hlen : ¬ (connectionPaths connection view).length ≤ 1 := by omega
  unfold MetaSubflow.pastStartup at hsteady
  rw [hstate] at hsteady
  simp only [Bool.and_eq_true, Bool.not_eq_true'] at hsteady
  rw [transfer_eq, hstate, collect_usable husable]
  simp [hsteady, hmss, not_le.2 hsrtt, Collection.transfer, ofPaths_paths, hlen, hsum, hbest,
    hcurrent]

theorem transfer_exit (h : (∃ s ∈ connection.members, usable (view s) = false) ∨
    (connectionPaths connection view).length < 2 ∨
    self ∉ (connectionPaths connection view).map Path.algorithm ∨
    (view self).pastStartup = false) :
    transfer (some connection) view self = none := by
  rw [transfer_eq]
  split
  · rfl
  · rename_i state hstate
    split
    · rfl
    · rename_i hguard
      simp only [Bool.or_eq_true, decide_eq_true_eq, not_or, Bool.not_eq_true] at hguard
      rw [collect_eq]
      split
      · rename_i hall
        show (Collection.ofPaths (connectionPaths connection view)).transfer self = none
        unfold Collection.transfer
        rw [ofPaths_paths]
        rcases h with ⟨s, hs, hunusable⟩ | hlen | hself | hstartup
        · rw [List.all_eq_true] at hall
          rw [hall s hs] at hunusable
          cases hunusable
        · rw [if_pos (Or.inl (by omega))]
        · have hcurrent : currentPath (connectionPaths connection view) self = none := by
            apply Option.eq_none_iff_forall_ne_some.2
            intro p hp
            obtain ⟨hmem, rfl⟩ :=
              (currentPath_eq_some (connectionPaths_nodup connection view)).1 hp
            exact hself (List.mem_map_of_mem hmem)
          rw [hcurrent]
          split
          · rfl
          · cases (Collection.ofPaths (connectionPaths connection view)).bestPath <;> rfl
        · simp [MetaSubflow.pastStartup, hstate, hguard] at hstartup
      · rfl

end Caller

/-! ## The connection -/

/-- The byte correction of the caller on path `p`. -/
def byteCorrection (view : MetaView) (paths : List Path) (best : Path) (maximumWindow : ℚ)
    (p : Path) : ℚ :=
  match (view p.algorithm).state with
  | none => 0
  | some state => correction state (alphaR paths best maximumWindow p) p

/-- `snd_mss`, zero without a state. -/
def sndMss (subflow : MetaSubflow) : ℕ :=
  match subflow.state with
  | none => 0
  | some state => state.snd_mss.toNat

/-- The corrections of a connection whose active paths all have usable quality. -/
structure TransferSpec (connection : MpTcpConnection) (view : MetaView) (best : Path) : Prop where
  balanced : BalancedPaths (connectionPaths connection view) best
    (Collection.ofPaths (connectionPaths connection view)).maximumWindow
  /-- With one MSS the byte corrections balance too. -/
  bytes : ∀ mss, (∀ p ∈ connectionPaths connection view, sndMss (view p.algorithm) = mss) →
    ((connectionPaths connection view).map (byteCorrection view (connectionPaths connection view)
      best (Collection.ofPaths (connectionPaths connection view)).maximumWindow)).sum = 0
  increase : ∀ p ∈ connectionPaths connection view, (view p.algorithm).pastStartup = true →
    ((adjustAdditiveIncrease (some connection) view p.algorithm).additiveIncrease : ℤ) =
      ⌊clamp
        ((MpOrbSemiCoupledAlpha.adjustAdditiveIncrease (some connection) view
            p.algorithm).additiveIncrease +
          alphaR (connectionPaths connection view) best
            (Collection.ofPaths (connectionPaths connection view)).maximumWindow p *
              sndMss (view p.algorithm)) 0 UINT32_MAX⌋
  near : ∀ p ∈ connectionPaths connection view, (view p.algorithm).pastStartup = true →
    |((adjustAdditiveIncrease (some connection) view p.algorithm).additiveIncrease : ℤ) -
        (MpOrbSemiCoupledAlpha.adjustAdditiveIncrease (some connection) view
          p.algorithm).additiveIncrease| ≤
      ⌈(sndMss (view p.algorithm) : ℚ) / (connectionPaths connection view).length⌉

section Connection

variable {connection : MpTcpConnection} {view : MetaView}

theorem byteCorrection_eq {best p : Path} (maximumWindow : ℚ)
    (hp : p ∈ connectionPaths connection view) :
    byteCorrection view (connectionPaths connection view) best maximumWindow p =
      alphaR (connectionPaths connection view) best maximumWindow p *
        sndMss (view p.algorithm) := by
  unfold byteCorrection sndMss
  split
  · simp
  · exact correction_eq _ _ (one_le_window hp)

theorem increase_of_path {best p : Path}
    (husable : ∀ s ∈ connection.members, usable (view s) = true)
    (hn : 2 ≤ (connectionPaths connection view).length)
    (hbest : (Collection.ofPaths (connectionPaths connection view)).bestPath = some best)
    (hp : p ∈ connectionPaths connection view)
    (hsteady : (view p.algorithm).pastStartup = true) :
    ∃ state : OrbtcpStateVariables,
      (MpOrbSemiCoupledAlpha.adjustAdditiveIncrease (some connection) view
        p.algorithm).additiveIncrease = state.additiveIncrease.toNat ∧
      sndMss (view p.algorithm) = state.snd_mss.toNat ∧
      (adjustAdditiveIncrease (some connection) view p.algorithm).additiveIncrease =
        (correct state (alphaR (connectionPaths connection view) best
          (Collection.ofPaths (connectionPaths connection view)).maximumWindow p)
            p).additiveIncrease.toNat := by
  obtain ⟨s, -, hpath⟩ := List.mem_filterMap.1 hp
  obtain rfl := pathOf_algorithm hpath
  obtain ⟨state, hstate, -⟩ := pathOf_state hpath
  obtain ⟨residual, additiveIncrease, halpha⟩ :=
    MpOrbSemiCoupledAlpha.adjustAdditiveIncrease_withCredit (some connection) view p.algorithm
  have hafter : (MpOrbSemiCoupledAlpha.adjustAdditiveIncrease (some connection) view
      p.algorithm).state = some { state with additiveIncrease } := by
    rw [halpha]
    simp [MetaSubflow.withCredit, hstate]
  have holia := adjustAdditiveIncrease_corrected
    (transfer_of_path husable hn hbest hp hsteady) hafter
  refine ⟨{ state with additiveIncrease }, ?_, ?_, ?_⟩
  · exact MetaSubflow.additiveIncrease_eq hafter
  · unfold sndMss
    rw [hstate]
  · exact MetaSubflow.additiveIncrease_eq holia

theorem transferSpec {best : Path}
    (husable : ∀ s ∈ connection.members, usable (view s) = true)
    (hn : 2 ≤ (connectionPaths connection view).length)
    (hbest : (Collection.ofPaths (connectionPaths connection view)).bestPath = some best) :
    TransferSpec connection view best := by
  have hpaths : connectionPaths connection view ≠ [] := List.ne_nil_of_length_pos (by omega)
  have hbalanced := balancedPaths hpaths (fun p hp => one_le_window hp) best
  refine ⟨hbalanced, ?_, ?_, ?_⟩
  · intro mss hmss
    have hbytes : (connectionPaths connection view).map (byteCorrection view
        (connectionPaths connection view) best
        (Collection.ofPaths (connectionPaths connection view)).maximumWindow) =
      (connectionPaths connection view).map fun p => alphaR (connectionPaths connection view) best
        (Collection.ofPaths (connectionPaths connection view)).maximumWindow p * mss := by
      apply List.map_congr_left
      intro p hp
      rw [byteCorrection_eq _ hp, hmss p hp]
    rw [hbytes, List.sum_map_mul_right, hbalanced.sum, zero_mul]
  · intro p hp hsteady
    obtain ⟨state, halpha, hmss, holia⟩ := increase_of_path husable hn hbest hp hsteady
    rw [halpha, hmss, holia]
    exact correct_floor (one_le_window hp)
  · intro p hp hsteady
    obtain ⟨state, halpha, hmss, holia⟩ := increase_of_path husable hn hbest hp hsteady
    rw [halpha, hmss, holia, ← mul_one_div]
    exact abs_correct_sub_le (one_le_window hp) (hbalanced.bounded p hp)

end Connection

/-- **OLIA's credit transfer is balanced and bounded.**  With two or more collected paths, all with
usable quality, the corrections balance and every caller past startup ends within its correction of
Alpha's increase; a caller in startup, a caller without a path, fewer than two paths, or an active
path without usable quality leave Alpha's result. -/
theorem olia_transfer (connection : MpTcpConnection) (view : MetaView) :
    ((∀ s ∈ connection.members, usable (view s) = true) →
        2 ≤ (connectionPaths connection view).length →
        ∃ best, (Collection.ofPaths (connectionPaths connection view)).bestPath = some best ∧
          TransferSpec connection view best) ∧
      ∀ self, ((∃ s ∈ connection.members, usable (view s) = false) ∨
          (connectionPaths connection view).length < 2 ∨
          self ∉ (connectionPaths connection view).map Path.algorithm ∨
          (view self).pastStartup = false) →
        adjustAdditiveIncrease (some connection) view self =
          MpOrbSemiCoupledAlpha.adjustAdditiveIncrease (some connection) view self := by
  constructor
  · intro husable hn
    have hsome : (Collection.ofPaths (connectionPaths connection view)).bestPath ≠ none := by
      rw [ofPaths_bestPath, Ne, Champion.champion_eq_none_iff]
      exact List.ne_nil_of_length_pos (by omega)
    obtain ⟨best, hbest⟩ := Option.ne_none_iff_exists'.1 hsome
    exact ⟨best, hbest, transferSpec husable hn hbest⟩
  · intro self h
    exact adjustAdditiveIncrease_exit (transfer_exit h)

/-- The path with the shorter RTT is best, the other one has the larger window. -/
def unevenView (startup : Bool) (s : SocketId) : MetaSubflow :=
  let subflow := steadyView .olia s
  if s = 1 then { subflow with firstRTT := startup }
  else { subflow with state := subflow.state.map fun state => { state with snd_cwnd := 28960 } }

/-- Half a segment moves from path 2 to path 1. -/
theorem olia_transfer_two_paths :
    ∃ best, (Collection.ofPaths (connectionPaths twoPaths (unevenView false))).bestPath =
        some best ∧
      TransferSpec twoPaths (unevenView false) best ∧
      adjustAdditiveIncrease (some twoPaths) (unevenView false) 3 =
        MpOrbSemiCoupledAlpha.adjustAdditiveIncrease (some twoPaths) (unevenView false) 3 := by
  obtain ⟨hspec, hexit⟩ := olia_transfer twoPaths (unevenView false)
  have husable : (twoPaths.members.all fun s => usable (unevenView false s)) = true := by
    decide +kernel
  obtain ⟨best, hbest, htransfer⟩ := hspec (List.all_eq_true.1 husable) (by decide +kernel)
  exact ⟨best, hbest, htransfer, hexit 3 (Or.inr (Or.inr (Or.inl (by decide +kernel))))⟩

/-- The best path of `unevenView`. -/
def unevenBest : Path := ⟨1, 10, 475000, 10 / 19, 1 / 50⟩

/-- Path 1 is in startup: it keeps Alpha's increase although its `a_r` is `1 / 2`, and the part of
path 2 alone does not balance. -/
theorem startup_breaks_balance :
    let paths := connectionPaths twoPaths (unevenView true)
    let maximumWindow := (Collection.ofPaths paths).maximumWindow
    (twoPaths.members.all fun s => usable (unevenView true s)) = true ∧ paths.length = 2 ∧
      (Collection.ofPaths paths).bestPath = some unevenBest ∧
      paths.map (alphaR paths unevenBest maximumWindow) = [1 / 2, -1 / 2] ∧
      ((adjustAdditiveIncrease (some twoPaths) (unevenView true) 1).additiveIncrease : ℤ) ≠
        ⌊clamp
          ((MpOrbSemiCoupledAlpha.adjustAdditiveIncrease (some twoPaths) (unevenView true)
              1).additiveIncrease +
            alphaR paths unevenBest maximumWindow unevenBest * sndMss (unevenView true 1))
          0 UINT32_MAX⌋ ∧
      (transfer (some twoPaths) (unevenView true) 1 = none ∧
        (transfer (some twoPaths) (unevenView true) 2).map Prod.fst = some (-1 / 2)) :=
  ⟨by decide +kernel, by decide +kernel, by decide +kernel, by decide +kernel, by decide +kernel,
    by decide +kernel, by decide +kernel⟩

end MpOrb.MpOrbOlia
