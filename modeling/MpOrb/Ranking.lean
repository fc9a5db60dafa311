import MpOrb.Scheduler
import MpOrb.Lib.Ageing
import MpOrb.Lib.FirstBest
import Mathlib.Data.List.ReduceOption

/-!
# What the ranking loop computes

`ScanInv` is the loop invariant of `selectDefaultSubflow`'s loop over the subflow list: after any
prefix of distinct subflows the eligible ones have been collected in list order, the table holds
the old count of each of them and nothing for the other visited subflows, and the two running
winners are the first best ones of `ranksBefore` and of the skip counts.

* `scan_inv` — the invariant holds after the whole loop.
* `select_cases` — everything one call can do: return the cached burst and change nothing, find no
  eligible path and forget the counts, or start a burst on a winner (`Selected`).
* `Selected.ageStep` — the counts move by one round of `Ageing.Step`.
-/

set_option autoImplicit false

namespace MpOrb

/-- `i` is ranked strictly before `j`: a lower score, or the same score and more missed
selections. -/
def ranksBefore (r : Request) (old : SkipTable) (i j : SocketId) : Prop :=
  (r.estimate i).score < (r.estimate j).score ∨
    ((r.estimate i).score = (r.estimate j).score ∧ old.count j < old.count i)

theorem ranksBefore_preference (r : Request) (old : SkipTable) :
    Preference (ranksBefore r old) where
  trans x y z := by
    rintro (h₁ | ⟨h₁, h₁'⟩) (h₂ | ⟨h₂, h₂'⟩)
    · exact Or.inl (h₁.trans h₂)
    · exact Or.inl (h₂ ▸ h₁)
    · exact Or.inl (h₁ ▸ h₂)
    · exact Or.inr ⟨h₁.trans h₂, by omega⟩
  cotrans x y z := by
    rintro (h | ⟨h, h'⟩)
    · rcases lt_or_ge (r.estimate x).score (r.estimate y).score with hxy | hxy
      · exact Or.inl (Or.inl hxy)
      · exact Or.inr (Or.inl (hxy.trans_lt h))
    · rcases lt_trichotomy (r.estimate x).score (r.estimate y).score with hxy | hxy | hxy
      · exact Or.inl (Or.inl hxy)
      · rcases lt_or_ge (old.count y) (old.count x) with hc | hc
        · exact Or.inl (Or.inr ⟨hxy, hc⟩)
        · exact Or.inr (Or.inr ⟨hxy ▸ h, by omega⟩)
      · exact Or.inr (Or.inl (h ▸ hxy))

/-- `i` has missed more selections than `j`. -/
def missedMore (old : SkipTable) (i j : SocketId) : Prop := old.count j < old.count i

theorem missedMore_preference (old : SkipTable) : Preference (missedMore old) where
  trans x y z := by unfold missedMore; omega
  cotrans x y z := by unfold missedMore; omega

/-- The members of `l` that have reached the threshold. -/
def overdueAmong (r : Request) (old : SkipTable) (l : List SocketId) : List SocketId :=
  l.filter (fun s => decide (r.base.CWND_MAX_SKIPPED_BURSTS ≤ old.count s))

/-- The loop invariant, after the subflows `seen`. -/
structure ScanInv (r : Request) (old : SkipTable) (seen : List SocketId) (sc : Scan) : Prop where
  eligible : sc.eligible = seen.filter r.isEligible
  visited : ∀ s ∈ seen, sc.skipped s = if r.isEligible s then some (old.count s) else none
  untouched : ∀ s, s ∉ seen → sc.skipped s = old s
  noBest : sc.bestSubflow = none → sc.eligible = []
  best : ∀ b p, sc.bestSubflow = some (b, p) →
    p = r.estimate b ∧ FirstBest (ranksBefore r old) sc.eligible b
  noOverdue : sc.overdueSubflow = none → overdueAmong r old sc.eligible = []
  overdue : ∀ o p, sc.overdueSubflow = some (o, p) →
    p = r.estimate o ∧ FirstBest (missedMore old) (overdueAmong r old sc.eligible) o

section Loop

variable {r : Request} {old : SkipTable} {seen : List SocketId} {sc : Scan}

theorem ScanInv.init : ScanInv r old [] (Scan.init old) where
  eligible := rfl
  visited := fun _ h => absurd h List.not_mem_nil
  untouched := fun _ _ => rfl
  noBest := fun _ => rfl
  best := fun _ _ h => by simp [Scan.init] at h
  noOverdue := fun _ => rfl
  overdue := fun _ _ h => by simp [Scan.init] at h

/-- The table still holds the old count of whatever is eligible so far. -/
theorem ScanInv.count (h : ScanInv r old seen sc) {s : SocketId} (hs : s ∈ sc.eligible) :
    sc.skipped.count s = old.count s := by
  rw [h.eligible, List.mem_filter] at hs
  simp [SkipTable.count, h.visited s hs.1, hs.2]

theorem ScanInv.count_new (h : ScanInv r old seen sc) {s : SocketId} (hs : s ∉ seen) :
    sc.skipped.count s = old.count s := by
  simp [SkipTable.count, h.untouched s hs]

/-- A subflow that fails a test only loses its entry. -/
theorem ScanInv.skip (h : ScanInv r old seen sc) {s : SocketId} (hs : s ∉ seen)
    (hel : r.isEligible s = false) :
    ScanInv r old (seen ++ [s]) { sc with skipped := sc.skipped.erase s } where
  eligible := by simp [h.eligible, hel]
  visited i hi := by
    show sc.skipped.erase s i = _
    rw [SkipTable.erase_apply]
    rcases List.mem_append.1 hi with hi | hi
    · have hne : i ≠ s := fun he => hs (he ▸ hi)
      rw [if_neg hne, h.visited i hi]
    · rw [List.mem_singleton.1 hi, if_pos rfl, hel]; rfl
  untouched i hi := by
    rw [List.mem_append, not_or, List.mem_singleton] at hi
    show sc.skipped.erase s i = _
    rw [SkipTable.erase_apply, if_neg hi.2, h.untouched i hi.1]
  noBest := h.noBest
  best := h.best
  noOverdue := h.noOverdue
  overdue := h.overdue

theorem updateBest_spec (h : ScanInv r old seen sc) {s : SocketId} (hs : s ∉ seen) {b : SocketId}
    {p : PathEstimate} (hb : updateBest sc.bestSubflow (sc.skipped.touch s) s (r.estimate s) =
      some (b, p)) :
    p = r.estimate b ∧ FirstBest (ranksBefore r old) (sc.eligible ++ [s]) b := by
  unfold updateBest at hb
  split at hb
  · rename_i hnone
    cases hb
    rw [h.noBest hnone]
    exact ⟨rfl, FirstBest.single s⟩
  · rename_i b₀ p₀ hsome
    obtain ⟨rfl, hfirst⟩ := h.best b₀ p₀ hsome
    have hsnoc := hfirst.snoc (x := s) (ranksBefore_preference r old)
    simp only [SkipTable.count_touch, h.count hfirst.mem, h.count_new hs] at hb
    split at hb
    · rename_i hlt
      cases hb
      exact ⟨rfl, hsnoc.1 hlt⟩
    · rename_i hlt
      cases hb
      exact ⟨rfl, hsnoc.2 hlt⟩

theorem updateOverdue_spec (h : ScanInv r old seen sc) {s : SocketId} (hs : s ∉ seen)
    {o : SocketId} {p : PathEstimate}
    (ho : updateOverdue r.base.CWND_MAX_SKIPPED_BURSTS sc.overdueSubflow (sc.skipped.touch s) s
      (r.estimate s) = some (o, p)) :
    p = r.estimate o ∧
      FirstBest (missedMore old) (overdueAmong r old (sc.eligible ++ [s])) o := by
  unfold updateOverdue at ho
  simp only [SkipTable.count_touch, h.count_new hs] at ho
  simp only [overdueAmong, List.filter_append]
  split at ho
  · rename_i hdue
    have hone : [s].filter (fun s => decide (r.base.CWND_MAX_SKIPPED_BURSTS ≤ old.count s)) =
        [s] := by simp [hdue]
    rw [hone]
    split at ho
    · rename_i hnone
      cases ho
      have hempty := h.noOverdue hnone
      unfold overdueAmong at hempty
      rw [hempty]
      exact ⟨rfl, FirstBest.single s⟩
    · rename_i o₀ p₀ hsome
      obtain ⟨rfl, hfirst⟩ := h.overdue o₀ p₀ hsome
      have hsnoc := hfirst.snoc (x := s) (missedMore_preference old)
      rw [h.count (List.mem_of_mem_filter hfirst.mem)] at ho
      split at ho
      · rename_i hlt
        cases ho
        exact ⟨rfl, hsnoc.1 hlt⟩
      · rename_i hlt
        cases ho
        exact ⟨rfl, hsnoc.2 hlt⟩
  · rename_i hdue
    have hnil : [s].filter (fun s => decide (r.base.CWND_MAX_SKIPPED_BURSTS ≤ old.count s)) =
        [] := by simp [hdue]
    rw [hnil, List.append_nil]
    exact h.overdue o p ho

theorem updateBest_ne_none (best : Option (SocketId × PathEstimate)) (t : SkipTable)
    (s : SocketId) (path : PathEstimate) : updateBest best t s path ≠ none := by
  unfold updateBest
  split
  · simp
  · split <;> simp

theorem updateOverdue_none {threshold : ℕ} {overdue : Option (SocketId × PathEstimate)}
    {t : SkipTable} {s : SocketId} {path : PathEstimate}
    (h : updateOverdue threshold overdue t s path = none) :
    overdue = none ∧ t.count s < threshold := by
  unfold updateOverdue at h
  split at h
  · split at h
    · cases h
    · split at h <;> cases h
  · rename_i hlt
    exact ⟨h, by omega⟩

/-- A subflow that passes the tests is recorded and compared with both winners. -/
theorem ScanInv.take (h : ScanInv r old seen sc) {s : SocketId} (hs : s ∉ seen)
    (hel : r.isEligible s = true) :
    ScanInv r old (seen ++ [s])
      { bestSubflow := updateBest sc.bestSubflow (sc.skipped.touch s) s (r.estimate s)
        overdueSubflow := updateOverdue r.base.CWND_MAX_SKIPPED_BURSTS sc.overdueSubflow
          (sc.skipped.touch s) s (r.estimate s)
        eligible := sc.eligible ++ [s]
        skipped := sc.skipped.touch s } where
  eligible := by simp [h.eligible, hel]
  visited i hi := by
    show sc.skipped.touch s i = _
    rw [SkipTable.touch_apply]
    by_cases he : i = s
    · rw [if_pos he, he, hel, h.count_new hs]; rfl
    · rw [if_neg he]
      rcases List.mem_append.1 hi with hi | hi
      · exact h.visited i hi
      · exact absurd (List.mem_singleton.1 hi) he
  untouched i hi := by
    rw [List.mem_append, not_or, List.mem_singleton] at hi
    show sc.skipped.touch s i = _
    rw [SkipTable.touch_apply, if_neg hi.2, h.untouched i hi.1]
  noBest hnone := absurd hnone (updateBest_ne_none _ _ _ _)
  best _ _ hb := updateBest_spec h hs hb
  noOverdue hnone := by
    obtain ⟨hprev, hlt⟩ := updateOverdue_none hnone
    rw [SkipTable.count_touch, h.count_new hs] at hlt
    have hempty := h.noOverdue hprev
    unfold overdueAmong at hempty ⊢
    simp [List.filter_append, hempty, hlt]
  overdue _ _ ho := updateOverdue_spec h hs ho

/-- **One iteration of the loop.** -/
theorem ScanInv.visit (h : ScanInv r old seen sc) {s : SocketId} (hs : s ∉ seen) :
    ScanInv r old (seen ++ [s]) (sc.visit r (some s)) := by
  unfold Scan.visit
  simp only
  split
  · rename_i hact
    exact h.skip hs (by unfold Request.isEligible; simp at hact; simp [hact])
  · rename_i hact
    split
    · rename_i hfail
      refine h.skip hs ?_
      simp only [Bool.or_eq_true, decide_eq_true_eq, Bool.not_eq_true'] at hfail
      unfold Request.isEligible
      rcases hfail with hspace | hrate
      · simp [Nat.not_le.2 hspace]
      · simp [hrate]
    · rename_i hfail
      refine h.take hs ?_
      simp only [Bool.or_eq_true, decide_eq_true_eq, Bool.not_eq_true', not_or] at hfail hact
      unfold Request.isEligible
      simp at hact hfail
      simp [hact, hfail]

theorem ScanInv.foldl (h : ScanInv r old seen sc) :
    ∀ {subflows : List (Option SocketId)}, (seen ++ subflows.reduceOption).Nodup →
      ScanInv r old (seen ++ subflows.reduceOption) (subflows.foldl (Scan.visit r) sc) := by
  intro subflows
  induction subflows generalizing seen sc with
  | nil => intro _; simpa [List.reduceOption_nil] using h
  | cons o rest ih =>
    intro hnd
    cases o with
    | none =>
      rw [List.reduceOption_cons_of_none] at hnd ⊢
      exact ih h hnd
    | some s =>
      rw [List.reduceOption_cons_of_some, List.append_cons] at hnd ⊢
      have hs : s ∉ seen := by
        have hnew := (List.nodup_append.1 (List.nodup_append.1 hnd).1).2.2
        intro hmem
        exact hnew s hmem s (by simp) rfl
      exact ih (h.visit hs) hnd

/-- **The loop invariant after the whole subflow list.** -/
theorem scan_inv (r : Request) (old : SkipTable) (connection : MpTcpConnection) :
    ScanInv r old connection.members (scan r connection.getSubflows old) := by
  have h : ScanInv r old ([] ++ connection.getSubflows.reduceOption)
      (connection.getSubflows.foldl (Scan.visit r) (Scan.init old)) :=
    ScanInv.init.foldl connection.nodup
  exact h

end Loop

/-! ## The skip counts after a selection -/

/-- The new count of an eligible subflow. -/
def agedCount (winner : SocketId) (old : SkipTable) (s : SocketId) : ℕ :=
  if s = winner then 0
  else if old.count s < UINT32_MAX then old.count s + 1
  else old.count s

theorem ageSkipped_cons (s : SocketId) (eligible : List SocketId) (winner : SocketId)
    (t : SkipTable) :
    ageSkipped (s :: eligible) winner t =
      ageSkipped eligible winner (t.set s (agedCount winner t s)) := by
  unfold ageSkipped agedCount SkipTable.touch
  rw [List.foldl_cons]
  split
  · rfl
  · split <;> rfl

theorem ageSkipped_apply {eligible : List SocketId} (hnd : eligible.Nodup) (winner : SocketId)
    (t : SkipTable) (s : SocketId) :
    ageSkipped eligible winner t s = if s ∈ eligible then some (agedCount winner t s) else t s := by
  induction eligible generalizing t with
  | nil => rfl
  | cons i rest ih =>
    obtain ⟨hi, hrest⟩ := List.nodup_cons.1 hnd
    rw [ageSkipped_cons, ih hrest]
    by_cases hs : s ∈ rest
    · have hne : s ≠ i := fun he => hi (he ▸ hs)
      rw [if_pos hs, if_pos (List.mem_cons_of_mem _ hs)]
      simp [agedCount, SkipTable.count_set, hne]
    · rw [if_neg hs, SkipTable.set_apply]
      by_cases he : s = i
      · simp [he]
      · simp [he, hs]

/-! ## One call -/

/-- The eligible subflows of a call, in list order. -/
def eligibleSubflows (r : Request) (connection : MpTcpConnection) : List SocketId :=
  connection.members.filter r.isEligible

theorem eligibleSubflows_nodup (r : Request) (connection : MpTcpConnection) :
    (eligibleSubflows r connection).Nodup :=
  connection.nodup.filter _

theorem mem_eligibleSubflows {r : Request} {connection : MpTcpConnection} {s : SocketId} :
    s ∈ eligibleSubflows r connection ↔ s ∈ connection.members ∧ r.isEligible s = true :=
  List.mem_filter

/-- A call that starts a burst on `winner`. -/
structure Selected (r : Request) (connection : MpTcpConnection) (st : SchedulerState)
    (winner : SocketId) (st' : SchedulerState) : Prop where
  ranked : overdueAmong r st.skippedCwndBursts (eligibleSubflows r connection) = [] →
    FirstBest (ranksBefore r st.skippedCwndBursts) (eligibleSubflows r connection) winner
  overdue : overdueAmong r st.skippedCwndBursts (eligibleSubflows r connection) ≠ [] →
    FirstBest (missedMore st.skippedCwndBursts)
      (overdueAmong r st.skippedCwndBursts (eligibleSubflows r connection)) winner
  burst : st'.toBurst = r.base.startBurst st.toBurst winner (r.view winner).queuedBytes
    (r.view winner).pacingRate (burstLimit r.base r.bytes (r.estimate winner).space
      (decide (overdueAmong r st.skippedCwndBursts (eligibleSubflows r connection) ≠ [])))
  counted : ∀ s ∈ eligibleSubflows r connection,
    st'.skippedCwndBursts s = some (agedCount winner st.skippedCwndBursts s)
  forgotten : ∀ s ∈ connection.members, s ∉ eligibleSubflows r connection →
    st'.skippedCwndBursts s = none

/-- A call that finds no eligible path. -/
structure NothingEligible (r : Request) (connection : MpTcpConnection) (st st' : SchedulerState) :
    Prop where
  empty : eligibleSubflows r connection = []
  burst : st'.toBurst = st.toBurst
  forgotten : ∀ s ∈ connection.members, st'.skippedCwndBursts s = none

section Dispatch

variable {r : Request} {connection : MpTcpConnection} {st : SchedulerState} {sc : Scan}

theorem ScanInv.overdue_isSome {old : SkipTable} {seen : List SocketId}
    (h : ScanInv r old seen sc) :
    sc.overdueSubflow.isSome = decide (overdueAmong r old sc.eligible ≠ []) := by
  cases ho : sc.overdueSubflow with
  | none => simp [h.noOverdue ho]
  | some o =>
    have hmem := (h.overdue o.1 o.2 ho).2.mem
    simp [List.ne_nil_of_mem hmem]

/-- The subflow the loop ends with, overdue or best, with its own estimate. -/
theorem ScanInv.winner {old : SkipTable} {seen : List SocketId} (h : ScanInv r old seen sc)
    {best : SocketId × PathEstimate} (hbest : sc.bestSubflow = some best) {winner : SocketId}
    {path : PathEstimate} (hw : sc.overdueSubflow.getD best = (winner, path)) :
    path = r.estimate winner ∧
      (overdueAmong r old sc.eligible = [] → FirstBest (ranksBefore r old) sc.eligible winner) ∧
      (overdueAmong r old sc.eligible ≠ [] →
        FirstBest (missedMore old) (overdueAmong r old sc.eligible) winner) := by
  cases ho : sc.overdueSubflow with
  | none =>
    rw [ho, Option.getD_none] at hw
    obtain ⟨hpath, hfirst⟩ := h.best winner path (hw ▸ hbest)
    exact ⟨hpath, fun _ => hfirst, fun hne => absurd (h.noOverdue ho) hne⟩
  | some o =>
    rw [ho, Option.getD_some] at hw
    obtain ⟨hpath, hfirst⟩ := h.overdue winner path (hw ▸ ho)
    exact ⟨hpath, fun hem => absurd hem (List.ne_nil_of_mem hfirst.mem), fun _ => hfirst⟩

/-- A listed subflow that is not eligible has lost its entry. -/
theorem ScanInv.skipped_none (h : ScanInv r st.skippedCwndBursts connection.members sc)
    {s : SocketId} (hs : s ∈ connection.members) (hel : s ∉ eligibleSubflows r connection) :
    sc.skipped s = none := by
  have hnot : ¬ r.isEligible s = true := fun h => hel (mem_eligibleSubflows.2 ⟨hs, h⟩)
  rw [h.visited s hs, if_neg hnot]

theorem dispatch_nothing (h : ScanInv r st.skippedCwndBursts connection.members sc)
    (hbest : sc.bestSubflow = none) :
    ∃ st', dispatch r st sc = (none, st') ∧ NothingEligible r connection st st' := by
  have hempty : eligibleSubflows r connection = [] := h.eligible.symm.trans (h.noBest hbest)
  refine ⟨{ st with skippedCwndBursts := sc.skipped }, by rw [dispatch, hbest], hempty, rfl, ?_⟩
  intro s hs
  exact h.skipped_none hs (by rw [hempty]; exact List.not_mem_nil)

theorem dispatch_selected (h : ScanInv r st.skippedCwndBursts connection.members sc)
    {best : SocketId × PathEstimate} (hbest : sc.bestSubflow = some best) :
    ∃ winner st', dispatch r st sc = (some winner, st') ∧
      Selected r connection st winner st' := by
  obtain ⟨⟨winner, path⟩, hw⟩ : ∃ o, sc.overdueSubflow.getD best = o := ⟨_, rfl⟩
  obtain ⟨rfl, hranked, hoverdue⟩ := h.winner hbest hw
  have heligible : sc.eligible = eligibleSubflows r connection := h.eligible
  have hdue := h.overdue_isSome
  rw [heligible] at hranked hoverdue hdue
  refine ⟨winner, _, by simp only [dispatch, hbest, hw]; rfl, hranked, hoverdue, by rw [hdue],
    fun s hs => ?_, fun s hs hel => ?_⟩
  · show ageSkipped sc.eligible winner sc.skipped s = _
    rw [heligible, ageSkipped_apply (eligibleSubflows_nodup r connection), if_pos hs]
    simp only [agedCount, h.count (heligible ▸ hs)]
  · show ageSkipped sc.eligible winner sc.skipped s = _
    rw [heligible, ageSkipped_apply (eligibleSubflows_nodup r connection), if_neg hel]
    exact h.skipped_none hs hel

end Dispatch

/-- **Everything one call of `selectDefaultSubflow` can do.** -/
theorem select_cases (base : PacketScheduler) (connection : MpTcpConnection)
    (view : SocketId → Subflow) (st : SchedulerState) (bytes : ℕ) :
    (∃ last, cachedBurst base view st.toBurst bytes = some last ∧
      selectDefaultSubflow base connection view st bytes = (some last, st)) ∨
    (cachedBurst base view st.toBurst bytes = none ∧ ∃ st',
      selectDefaultSubflow base connection view st bytes = (none, st') ∧
      NothingEligible ⟨base, view, st.avgPacingRates, bytes⟩ connection st st') ∨
    (cachedBurst base view st.toBurst bytes = none ∧ ∃ winner st',
      selectDefaultSubflow base connection view st bytes = (some winner, st') ∧
      Selected ⟨base, view, st.avgPacingRates, bytes⟩ connection st winner st') := by
  cases hcache : cachedBurst base view st.toBurst bytes with
  | some last => exact Or.inl ⟨last, rfl, by rw [selectDefaultSubflow, hcache]⟩
  | none =>
    right
    have hinv := scan_inv ⟨base, view, st.avgPacingRates, bytes⟩ st.skippedCwndBursts connection
    simp only [selectDefaultSubflow, hcache]
    cases hbest : (scan ⟨base, view, st.avgPacingRates, bytes⟩ connection.getSubflows
        st.skippedCwndBursts).bestSubflow with
    | none => exact Or.inl ⟨trivial, dispatch_nothing hinv hbest⟩
    | some best => exact Or.inr ⟨trivial, dispatch_selected hinv hbest⟩

theorem Selected.mem {r : Request} {connection : MpTcpConnection} {st st' : SchedulerState}
    {winner : SocketId} (h : Selected r connection st winner st') :
    winner ∈ eligibleSubflows r connection := by
  by_cases hdue : overdueAmong r st.skippedCwndBursts (eligibleSubflows r connection) = []
  · exact (h.ranked hdue).mem
  · exact List.mem_of_mem_filter (h.overdue hdue).mem

/-- **A selection is one round of ageing**: the abstract selector over the listed subflows. -/
theorem Selected.ageStep {r : Request} {connection : MpTcpConnection} {st st' : SchedulerState}
    {winner : SocketId} (h : Selected r connection st winner st') :
    Ageing.Step r.base.CWND_MAX_SKIPPED_BURSTS UINT32_MAX connection.members.toFinset
      (eligibleSubflows r connection).toFinset winner st.skippedCwndBursts.count
      st'.skippedCwndBursts.count where
  present := by
    intro s hs
    exact List.mem_toFinset.2 (mem_eligibleSubflows.1 (List.mem_toFinset.1 hs)).1
  mem := List.mem_toFinset.2 h.mem
  winner := by simp [SkipTable.count, h.counted winner h.mem, agedCount]
  aged s hs hne := by
    simp [SkipTable.count, h.counted s (List.mem_toFinset.1 hs), agedCount, hne]
  absent s hs hel := by
    simp [SkipTable.count, h.forgotten s (List.mem_toFinset.1 hs) (by simpa using hel)]
  oldest s hs hK := by
    have hmem : s ∈ overdueAmong r st.skippedCwndBursts (eligibleSubflows r connection) :=
      List.mem_filter.2 ⟨List.mem_toFinset.1 hs, decide_eq_true hK⟩
    have hfirst := h.overdue (List.ne_nil_of_mem hmem)
    exact Nat.not_lt.1 (hfirst.not_better (fun _ => lt_irrefl _) (missedMore_preference _) s hmem)

end MpOrb
