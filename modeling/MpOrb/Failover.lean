import MpOrb.Scheduler
import MpOrb.Lib.LeastCost
import Mathlib.Data.PNat.Basic

/-!
# Selection at close and failover

`selectRetransmissionSubflow` with `requireIdle = false` looks for the remaining writable path with
the smallest score.  Its loop starts from an infinite score and takes a path only for a strictly
smaller one.

* `FailoverTarget` — the paths it may use.
* `Rankable` — the paths with a finite score: a usable rate, and fresh feedback or an RTT sample.
  `evaluatePath_score_lt_top`: no other path has one.
* `retransmission_leastCost` — the loop returns the cheapest target below the infinite score.
* `failover_complete_iff` — a target is always found, and the best one, exactly when there is none
  at all or one of them is rankable.
* `failover_misses_writable_path` — a single writable path without an RTT sample is missed.
-/

set_option autoImplicit false

namespace MpOrb

/-- A path of its own, usable by the default scheduler, with room for the fragment. -/
def FailoverTarget (base : PacketScheduler) (view : SocketId → Subflow) (source : Option SocketId)
    (bytes : ℕ) (s : SocketId) : Prop :=
  some s ≠ source ∧ (view s).canUseDefaultScheduler bytes = true ∧
    bytes ≤ base.getBoundedAssignmentSpace (view s) bytes

instance (base : PacketScheduler) (view : SocketId → Subflow) (source : Option SocketId)
    (bytes : ℕ) (s : SocketId) : Decidable (FailoverTarget base view source bytes s) :=
  inferInstanceAs (Decidable (_ ∧ _ ∧ _))

/-- Three positive rates with a finite minimum, and a delay: measured by fresh feedback or half of
an RTT sample. -/
structure Rankable (avgPacingRates : SocketId → Option Double) (s : SocketId)
    (subflow : Subflow) : Prop where
  average : Double.lt (.fin 0) ((avgPacingRates s).getD subflow.pacingRate) = true
  current : Double.lt (.fin 0) subflow.pacingRate = true
  window : Double.lt (.fin 0) subflow.windowRate = true
  finite : (Double.min3 ((avgPacingRates s).getD subflow.pacingRate) subflow.pacingRate
    subflow.windowRate).isFinite = true
  delay : subflow.forwardDelay.isSome = true ∨
    (SIMTIME_ZERO < subflow.schedulingRtt ∧ subflow.schedulingRtt ≠ SIMTIME_MAX)

/-! ## Finite scores -/

/-- The rate is usable exactly if all three are positive and the smallest is finite. -/
theorem serviceRate_pos {averageRate currentRate windowRate : Double} :
    0 < serviceRate averageRate currentRate windowRate ↔
      Double.lt (.fin 0) averageRate = true ∧ Double.lt (.fin 0) currentRate = true ∧
        Double.lt (.fin 0) windowRate = true ∧
        (Double.min3 averageRate currentRate windowRate).isFinite = true := by
  unfold serviceRate
  constructor
  · intro hpos
    by_contra hno
    rw [if_pos (by simpa [imp_iff_not_or, or_assoc] using hno)] at hpos
    exact lt_irrefl _ hpos
  · rintro ⟨haverage, hcurrent, hwindow, hfinite⟩
    rw [if_neg (by simp [haverage, hcurrent, hwindow, hfinite])]
    exact Double.toRat_pos (Double.lt_min3 haverage hcurrent hwindow) hfinite

theorem rankable_iff {avgPacingRates : SocketId → Option Double} {s : SocketId}
    {subflow : Subflow} : Rankable avgPacingRates s subflow ↔
      0 < serviceRate ((avgPacingRates s).getD subflow.pacingRate) subflow.pacingRate
          subflow.windowRate ∧
        (subflow.forwardDelay.isSome = true ∨
          (SIMTIME_ZERO < subflow.schedulingRtt ∧ subflow.schedulingRtt ≠ SIMTIME_MAX)) := by
  rw [serviceRate_pos]
  constructor
  · rintro ⟨haverage, hcurrent, hwindow, hfinite, hdelay⟩
    exact ⟨⟨haverage, hcurrent, hwindow, hfinite⟩, hdelay⟩
  · rintro ⟨⟨haverage, hcurrent, hwindow, hfinite⟩, hdelay⟩
    exact ⟨haverage, hcurrent, hwindow, hfinite, hdelay⟩

theorem arrivalScore_lt_top (rate : ℚ) (forwardDelay : SimTime) (unsent referenceBytes : ℕ) :
    arrivalScore rate forwardDelay unsent referenceBytes < ⊤ ↔ 0 < rate := by
  unfold arrivalScore
  split
  · rename_i hpos
    exact iff_of_true (WithTop.coe_lt_top _) hpos
  · rename_i hpos
    exact iff_of_false (lt_irrefl _) hpos

theorem evaluatePath_score_lt_top (base : PacketScheduler)
    (avgPacingRates : SocketId → Option Double) (s : SocketId) (subflow : Subflow)
    (referenceBytes : ℕ) :
    (evaluatePath base avgPacingRates s subflow referenceBytes).score < ⊤ ↔
      Rankable avgPacingRates s subflow := by
  rw [rankable_iff]
  unfold evaluatePath
  cases hdelay : subflow.forwardDelay with
  | some forwardDelay => simp [arrivalScore_lt_top]
  | none =>
    by_cases hrtt : subflow.schedulingRtt ≤ SIMTIME_ZERO ∨ subflow.schedulingRtt = SIMTIME_MAX
    · have hno : ¬ (SIMTIME_ZERO < subflow.schedulingRtt ∧
          subflow.schedulingRtt ≠ SIMTIME_MAX) := by
        rintro ⟨hpos, hmax⟩
        exact hrtt.elim (not_le.2 hpos) hmax
      simp only [if_pos hrtt]
      simp [hno]
    · obtain ⟨hpos, hmax⟩ := not_or.1 hrtt
      simp only [if_neg hrtt]
      simp [arrivalScore_lt_top, not_le.1 hpos, hmax]

/-! ## The loop -/

section Loop

variable {base : PacketScheduler} {view : SocketId → Subflow}
  {avgPacingRates : SocketId → Option Double} {source : Option SocketId} {bytes : ℕ}

/-- One iteration of the failover loop: a target with a strictly smaller score is taken. -/
theorem visitRetransmission_eq (best : Option SocketId × WithTop ℚ) (s : SocketId) :
    visitRetransmission base view avgPacingRates source bytes false best (some s) =
      if FailoverTarget base view source bytes s then
        if (evaluatePath base avgPacingRates s (view s) bytes).score < best.2 then
          (some s, (evaluatePath base avgPacingRates s (view s) bytes).score)
        else best
      else best := by
  unfold visitRetransmission FailoverTarget
  simp only [evaluatePath_space]
  by_cases hsource : some s = source
  · simp [hsource]
  · by_cases husable : (view s).canUseDefaultScheduler bytes = true
    · by_cases hroom : bytes ≤ base.getBoundedAssignmentSpace (view s) bytes
      · simp [hsource, husable, hroom, Nat.not_lt.2 hroom]
      · simp [hsource, husable, hroom, Nat.lt_of_not_le hroom]
    · simp [hsource, husable]

/-- The targets among the subflows of a list. -/
def failoverTargets (base : PacketScheduler) (view : SocketId → Subflow)
    (source : Option SocketId) (bytes : ℕ) (l : List SocketId) : List SocketId :=
  l.filter fun s => decide (FailoverTarget base view source bytes s)

theorem mem_failoverTargets {l : List SocketId} {s : SocketId} :
    s ∈ failoverTargets base view source bytes l ↔
      s ∈ l ∧ FailoverTarget base view source bytes s := by
  simp [failoverTargets]

theorem foldl_visitRetransmission (subflows : List (Option SocketId)) (seen : List SocketId)
    (best : Option SocketId × WithTop ℚ)
    (h : LeastCost (fun s => (evaluatePath base avgPacingRates s (view s) bytes).score)
      (failoverTargets base view source bytes seen) best) :
    LeastCost (fun s => (evaluatePath base avgPacingRates s (view s) bytes).score)
      (failoverTargets base view source bytes (seen ++ subflows.reduceOption))
      (subflows.foldl (visitRetransmission base view avgPacingRates source bytes false) best) := by
  induction subflows generalizing seen best with
  | nil => simpa [List.reduceOption_nil] using h
  | cons o rest ih =>
    cases o with
    | none =>
      rw [List.reduceOption_cons_of_none]
      exact ih seen best h
    | some s =>
      rw [List.reduceOption_cons_of_some, List.append_cons, List.foldl_cons,
        visitRetransmission_eq]
      apply ih
      unfold failoverTargets at h ⊢
      rw [List.filter_append]
      by_cases htarget : FailoverTarget base view source bytes s
      · simpa [htarget] using h.snoc s
      · simpa [htarget] using h

end Loop

/-- **The loop returns the cheapest target below the infinite score.** -/
theorem retransmission_leastCost (base : PacketScheduler) (connection : MpTcpConnection)
    (view : SocketId → Subflow) (avgPacingRates : SocketId → Option Double)
    (source : Option SocketId) {bytes : ℕ} (hbytes : bytes ≠ 0) :
    ∃ bestScore, LeastCost (fun s => (evaluatePath base avgPacingRates s (view s) bytes).score)
      (failoverTargets base view source bytes connection.members)
      (selectRetransmissionSubflow base (some connection) view avgPacingRates source bytes false,
        bestScore) := by
  refine ⟨(connection.getSubflows.foldl
    (visitRetransmission base view avgPacingRates source bytes false) (none, ⊤)).2, ?_⟩
  simp only [selectRetransmissionSubflow, if_neg hbytes]
  exact foldl_visitRetransmission connection.getSubflows [] _ (LeastCost.nil _)

/-! ## Completeness -/

/-- What close and failover ask of a selection: it finds a target whenever there is one, and the
one with the smallest score. -/
structure FailoverSpec (base : PacketScheduler) (connection : MpTcpConnection)
    (view : SocketId → Subflow) (avgPacingRates : SocketId → Option Double)
    (source : Option SocketId) (bytes : ℕ) (selected : Option SocketId) : Prop where
  complete : selected = none ↔
    ∀ s ∈ connection.members, ¬ FailoverTarget base view source bytes s
  optimal : ∀ s, selected = some s →
    s ∈ connection.members ∧ FailoverTarget base view source bytes s ∧
      ∀ t ∈ connection.members, FailoverTarget base view source bytes t →
        (evaluatePath base avgPacingRates s (view s) bytes).score ≤
          (evaluatePath base avgPacingRates t (view t) bytes).score

/-- **Failover selection is complete and optimal exactly when no writable path remains or one of
the writable paths is rankable.** -/
theorem failover_complete_iff (base : PacketScheduler) (connection : MpTcpConnection)
    (view : SocketId → Subflow) (avgPacingRates : SocketId → Option Double)
    (source : Option SocketId) (bytes : ℕ+) :
    FailoverSpec base connection view avgPacingRates source bytes
        (selectRetransmissionSubflow base (some connection) view avgPacingRates source bytes
          false) ↔
      ((∃ s ∈ connection.members, FailoverTarget base view source bytes s) →
        ∃ s ∈ connection.members, FailoverTarget base view source bytes s ∧
          Rankable avgPacingRates s (view s)) := by
  obtain ⟨bestScore, hleast⟩ :=
    retransmission_leastCost base connection view avgPacingRates source bytes.ne_zero
  constructor
  · rintro ⟨hcomplete, -⟩ ⟨t, ht, htarget⟩
    have hsome : selectRetransmissionSubflow base (some connection) view avgPacingRates source
        bytes false ≠ none := fun hnone => hcomplete.1 hnone t ht htarget
    obtain ⟨s, hs⟩ := Option.ne_none_iff_exists'.1 hsome
    obtain ⟨hmem, -, hfinite, -⟩ := hleast.cheapest s hs
    obtain ⟨hmember, hstarget⟩ := mem_failoverTargets.1 hmem
    exact ⟨s, hmember, hstarget, (evaluatePath_score_lt_top ..).1 hfinite⟩
  · intro hrankable
    refine ⟨⟨?_, ?_⟩, ?_⟩
    · intro hnone t ht htarget
      obtain ⟨s, hs, hstarget, hfinite⟩ := hrankable ⟨t, ht, htarget⟩
      have htop := hleast.eq_none_iff.1 hnone s (mem_failoverTargets.2 ⟨hs, hstarget⟩)
      exact ((evaluatePath_score_lt_top base avgPacingRates s (view s) bytes).2 hfinite).ne htop
    · intro hnobody
      apply hleast.eq_none_iff.2
      intro s hs
      obtain ⟨hmember, hstarget⟩ := mem_failoverTargets.1 hs
      exact absurd hstarget (hnobody s hmember)
    · intro s hs
      obtain ⟨hmem, -, -, hall⟩ := hleast.cheapest s hs
      obtain ⟨hmember, hstarget⟩ := mem_failoverTargets.1 hmem
      refine ⟨hmember, hstarget, ?_⟩
      intro t ht htarget
      exact hall t (mem_failoverTargets.2 ⟨ht, htarget⟩)

/-- Path 2 of `idleView` before its first RTT sample, so without a window rate. -/
def unsampledView (s : SocketId) : Subflow :=
  if s = 2 then { idleView 2 with schedulingRtt := 0, windowRate := .fin 0 } else idleView s

/-- The source closes and the only other path is writable but has no RTT sample: it is missed. -/
theorem failover_misses_writable_path :
    let base := documentedScheduler 8 (by decide)
    FailoverTarget base unsampledView (some 1) 1448 2 ∧
      selectRetransmissionSubflow base (some twoPaths) unsampledView (fun _ => none) (some 1) 1448
        false = none ∧
      ¬ FailoverSpec base twoPaths unsampledView (fun _ => none) (some 1) 1448
        (selectRetransmissionSubflow base (some twoPaths) unsampledView (fun _ => none) (some 1)
          1448 false) := by
  intro base
  have htarget : FailoverTarget base unsampledView (some 1) 1448 2 := by decide +kernel
  have hnone : selectRetransmissionSubflow base (some twoPaths) unsampledView (fun _ => none)
      (some 1) 1448 false = none := by decide +kernel
  refine ⟨htarget, hnone, ?_⟩
  intro hspec
  exact hspec.complete.1 hnone 2 (by decide) htarget

end MpOrb
