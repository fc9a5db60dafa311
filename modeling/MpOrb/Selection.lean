import MpOrb.Admission
import Mathlib.Order.Bounds.Defs

/-!
# The ranking rule of the default selection

The declarative rule of `selectDefaultSubflow` for a call that does not return its cached burst.

* `Oldest` — the first of the eligible subflows with the largest skip count.
* `RanksFirst` — minimal for the score, then for the larger skip count, then for the list position.
* `burstLimit_isGreatest` — the burst is the largest whole number of segments within its bounds.
* `RankingSpec` — the rule; `select_ranking` — the code follows it.
-/

set_option autoImplicit false

namespace MpOrb

section Rule

variable (r : Request) (connection : MpTcpConnection) (old : SkipTable)

/-- Some eligible subflow has missed `CWND_MAX_SKIPPED_BURSTS` selections. -/
def FairnessTurn : Prop :=
  ∃ s ∈ eligibleSubflows r connection, r.base.CWND_MAX_SKIPPED_BURSTS ≤ old.count s

/-- The first eligible subflow, in list order, with the largest skip count. -/
def Oldest (w : SocketId) : Prop :=
  w ∈ eligibleSubflows r connection ∧ ∀ s ∈ eligibleSubflows r connection, s ≠ w →
    old.count s < old.count w ∨
      (old.count s = old.count w ∧ connection.members.idxOf w < connection.members.idxOf s)

/-- The eligible subflow that comes first by score ascending, skip count descending, list
position ascending. -/
def RanksFirst (w : SocketId) : Prop :=
  w ∈ eligibleSubflows r connection ∧ ∀ s ∈ eligibleSubflows r connection, s ≠ w →
    (r.estimate w).score < (r.estimate s).score ∨
      ((r.estimate w).score = (r.estimate s).score ∧
        (old.count s < old.count w ∨
          (old.count s = old.count w ∧
            connection.members.idxOf w < connection.members.idxOf s)))

/-- The burst that a call starts. -/
def Starts (st st' : SchedulerState) (w : SocketId) (limit : ℕ) : Prop :=
  st'.toBurst = r.base.startBurst st.toBurst w (r.view w).queuedBytes (r.view w).pacingRate limit

/-- The burst lengths that are whole segments within the target and the space of the path. -/
def burstChoices (w : SocketId) : Set ℕ :=
  {k | r.bytes ∣ k ∧ k ≤ min (max r.base.DEFAULT_SEND_BURST_SIZE r.bytes) (r.estimate w).space}

end Rule

/-- The rule for one call that ranks the subflows. -/
structure RankingSpec (r : Request) (connection : MpTcpConnection) (st : SchedulerState)
    (selected : Option SocketId) (st' : SchedulerState) : Prop where
  nothing : selected = none ↔ eligibleSubflows r connection = []
  quiet : selected = none → st'.toBurst = st.toBurst
  overdue : ∀ w, selected = some w → FairnessTurn r connection st.skippedCwndBursts →
    Oldest r connection st.skippedCwndBursts w ∧ Starts r st st' w r.bytes
  ranked : ∀ w, selected = some w → ¬ FairnessTurn r connection st.skippedCwndBursts →
    RanksFirst r connection st.skippedCwndBursts w ∧
      ∃ limit, Starts r st st' w limit ∧ IsGreatest (burstChoices r w) limit ∧ r.bytes ≤ limit
  winner : ∀ w, selected = some w → st'.skippedCwndBursts w = some 0
  aged : ∀ w, selected = some w → ∀ s ∈ eligibleSubflows r connection, s ≠ w →
    st'.skippedCwndBursts s = some (min (st.skippedCwndBursts.count s + 1) UINT32_MAX)
  forgotten : ∀ s ∈ connection.members, s ∉ eligibleSubflows r connection →
    st'.skippedCwndBursts s = none

/-! ## The winner -/

section Winner

variable {r : Request} {connection : MpTcpConnection} {old : SkipTable} {w : SocketId}

theorem overdueAmong_eq_nil :
    overdueAmong r old (eligibleSubflows r connection) = [] ↔
      ¬ FairnessTurn r connection old := by
  simp [overdueAmong, FairnessTurn]

theorem ranksFirst_of_firstBest
    (h : FirstBest (ranksBefore r old) (eligibleSubflows r connection) w) :
    RanksFirst r connection old w := by
  refine ⟨h.mem, ?_⟩
  intro s hs hne
  rcases h.before_idxOf connection.nodup s hs hne with hbetter | ⟨hworse, hpos⟩
  · rcases hbetter with hscore | ⟨hscore, hcount⟩
    · exact Or.inl hscore
    · exact Or.inr ⟨hscore, Or.inl hcount⟩
  · obtain ⟨hscore, hcount⟩ := not_or.1 hworse
    rcases (not_lt.1 hscore).lt_or_eq with hlt | heq
    · exact Or.inl hlt
    · refine Or.inr ⟨heq, ?_⟩
      have hle : old.count s ≤ old.count w := not_lt.1 fun hlt => hcount ⟨heq.symm, hlt⟩
      rcases hle.lt_or_eq with hlt | hsame
      · exact Or.inl hlt
      · exact Or.inr ⟨hsame, hpos⟩

/-- A subflow below the threshold has missed less than the overdue one. -/
theorem oldest_of_firstBest
    (h : FirstBest (missedMore old) (overdueAmong r old (eligibleSubflows r connection)) w) :
    Oldest r connection old w := by
  obtain ⟨hmem, hdue⟩ := List.mem_filter.1 h.mem
  have hdue : r.base.CWND_MAX_SKIPPED_BURSTS ≤ old.count w := of_decide_eq_true hdue
  refine ⟨hmem, ?_⟩
  intro s hs hne
  by_cases hsdue : r.base.CWND_MAX_SKIPPED_BURSTS ≤ old.count s
  · have hsmem : s ∈ overdueAmong r old (eligibleSubflows r connection) :=
      List.mem_filter.2 ⟨hs, decide_eq_true hsdue⟩
    have hle : old.count s ≤ old.count w := Nat.not_lt.1
      (h.not_better (fun _ => lt_irrefl _) (missedMore_preference old) s hsmem)
    unfold overdueAmong eligibleSubflows at h hsmem
    rw [List.filter_filter] at h hsmem
    rcases h.before_idxOf connection.nodup s hsmem hne with hmissed | ⟨-, hpos⟩
    · exact Or.inl hmissed
    · rcases hle.lt_or_eq with hlt | hsame
      · exact Or.inl hlt
      · exact Or.inr ⟨hsame, hpos⟩
  · exact Or.inl (by omega)

/-! ## The burst -/

/-- **The burst is the largest whole number of segments within its bounds.** -/
theorem burstLimit_isGreatest (r : Request) (w : SocketId) :
    IsGreatest (burstChoices r w) (burstLimit r.base r.bytes (r.estimate w).space false) := by
  unfold burstChoices burstLimit
  simp only [Bool.false_eq_true, if_false]
  generalize min (max r.base.DEFAULT_SEND_BURST_SIZE r.bytes) (r.estimate w).space = limit
  refine ⟨⟨Nat.dvd_sub_mod limit, Nat.sub_le _ _⟩, ?_⟩
  rintro k ⟨hdvd, hle⟩
  have hmod : k % r.bytes = 0 := Nat.mod_eq_zero_of_dvd hdvd
  have hdiv : k / r.bytes ≤ limit / r.bytes := Nat.div_le_div_right hle
  calc k = r.bytes * (k / r.bytes) := by have := Nat.div_add_mod k r.bytes; omega
    _ ≤ r.bytes * (limit / r.bytes) := Nat.mul_le_mul_left _ hdiv
    _ = limit - limit % r.bytes := by have := Nat.div_add_mod limit r.bytes; omega

theorem agedCount_other {s : SocketId} (hne : s ≠ w) (hrange : old.count s ≤ UINT32_MAX) :
    agedCount w old s = min (old.count s + 1) UINT32_MAX := by
  unfold agedCount
  rw [if_neg hne]
  split <;> omega

end Winner

/-! ## The rule holds -/

theorem NothingEligible.ranking {r : Request} {connection : MpTcpConnection}
    {st st' : SchedulerState} (h : NothingEligible r connection st st') :
    RankingSpec r connection st none st' where
  nothing := iff_of_true rfl h.empty
  quiet _ := h.burst
  overdue _ hw := by cases hw
  ranked _ hw := by cases hw
  winner _ hw := by cases hw
  aged _ hw := by cases hw
  forgotten s hs _ := h.forgotten s hs

theorem Selected.ranking {r : Request} {connection : MpTcpConnection} {st st' : SchedulerState}
    {w : SocketId} (h : Selected r connection st w st')
    (hrange : ∀ s, st.skippedCwndBursts.count s ≤ UINT32_MAX) :
    RankingSpec r connection st (some w) st' where
  nothing := iff_of_false (by simp) (List.ne_nil_of_mem h.mem)
  quiet hnone := by cases hnone
  overdue _ hw hturn := by
    cases hw
    have hdue := mt overdueAmong_eq_nil.1 (not_not_intro hturn)
    refine ⟨oldest_of_firstBest (h.overdue hdue), ?_⟩
    simpa [Starts, hdue, burstLimit] using h.burst
  ranked _ hw hturn := by
    cases hw
    have hdue := overdueAmong_eq_nil.2 hturn
    refine ⟨ranksFirst_of_firstBest (h.ranked hdue), _, ?_, burstLimit_isGreatest r w,
      burstLimit_ge h.space.2 false⟩
    simpa [Starts, hdue] using h.burst
  winner _ hw := by
    cases hw
    simp [h.counted w h.mem, agedCount]
  aged _ hw s hs hne := by
    cases hw
    rw [h.counted s hs, agedCount_other hne (hrange s)]
  forgotten := h.forgotten

/-- **Every call that does not return its cached burst follows the ranking rule.**  The counts are
`uint32_t` values. -/
theorem select_ranking (base : PacketScheduler) (connection : MpTcpConnection)
    (view : SocketId → Subflow) (st : SchedulerState) (bytes : ℕ+)
    (hcache : cachedBurst base view st.toBurst bytes = none)
    (hrange : ∀ s, st.skippedCwndBursts.count s ≤ UINT32_MAX) :
    RankingSpec ⟨base, view, st.avgPacingRates, bytes⟩ connection st
      (selectDefaultSubflow base connection view st bytes).1
      (selectDefaultSubflow base connection view st bytes).2 := by
  rcases select_cases base connection view st bytes with
    ⟨last, hc, -⟩ | ⟨-, st', hsel, hnothing⟩ | ⟨-, w, st', hsel, hselected⟩
  · rw [hcache] at hc
    cases hc
  · rw [hsel]
    exact hnothing.ranking
  · rw [hsel]
    exact hselected.ranking hrange

/-- Path 2 has missed eight selections: it gets one segment although path 1 scores better. -/
theorem select_ranking_overdue :
    let base := documentedScheduler 8 (by decide)
    let st : SchedulerState := ⟨.idle, SkipTable.empty.set 2 8⟩
    RankingSpec ⟨base, idleView, st.avgPacingRates, 1448⟩ twoPaths st
        (selectDefaultSubflow base twoPaths idleView st 1448).1
        (selectDefaultSubflow base twoPaths idleView st 1448).2 ∧
      (selectDefaultSubflow base twoPaths idleView st 1448).1 = some 2 := by
  refine ⟨select_ranking _ _ _ _ 1448 rfl ?_, by decide +kernel⟩
  intro s
  rw [SkipTable.count_set, SkipTable.count_empty]
  split <;> decide

end MpOrb
