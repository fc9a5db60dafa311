import MpOrb.Ranking
import Mathlib.Data.Fintype.Basic
import Mathlib.Data.Fintype.Card

/-!
# No eligible subflow starves

A run of the scheduler is a list of calls.  Every call brings its own request size, the current
state of every subflow and the current dispatch state of the base class, all of them arbitrary: so
activity, space, rates, delays and backlogs change freely between calls, and cached bursts may be
returned at any point.  Only the table of skip counts is carried from one call to the next.

* `call_cases` — a call leaves the table alone, forgets every count, or ages it by one round.
* `tableAfter_spread` — in every run the counts stay spread out (`Ageing.Spread`).
* `waiting_window` — a subflow that keeps losing keeps waiting (`Ageing.Waiting`).
* `starvation_bound` — the two together: no skip count exceeds `K + N - 2`, and a subflow that is
  eligible in `K + N - 1` consecutive non-cached selections is returned by one of them.
-/

set_option autoImplicit false

namespace MpOrb

/-- One call of `selectDefaultSubflow` as its surroundings present it. -/
structure Call where
  bytes : ℕ
  view : SocketId → Subflow
  burst : Burst

namespace Call

/-- The call returns the running burst without ranking. -/
def isCached (base : PacketScheduler) (c : Call) : Bool :=
  (cachedBurst base c.view c.burst c.bytes).isSome

/-- `s` passes the tests of the ranking loop: active, enough space, a usable rate. -/
def isEligible (base : PacketScheduler) (c : Call) (s : SocketId) : Bool :=
  (⟨base, c.view, c.burst.avgPacingRates, c.bytes⟩ : Request).isEligible s

/-- The returned subflow and the table after the call. -/
def run (base : PacketScheduler) (connection : MpTcpConnection) (skipped : SkipTable) (c : Call) :
    Option SocketId × SkipTable :=
  let r := selectDefaultSubflow base connection c.view ⟨c.burst, skipped⟩ c.bytes
  (r.1, r.2.skippedCwndBursts)

end Call

/-- The table after a sequence of calls. -/
def tableAfter (base : PacketScheduler) (connection : MpTcpConnection) (skipped : SkipTable)
    (calls : List Call) : SkipTable :=
  calls.foldl (fun t c => (c.run base connection t).2) skipped

theorem MpTcpConnection.members_length (connection : MpTcpConnection) :
    connection.members.toFinset.card = connection.members.length :=
  List.toFinset_card_of_nodup connection.nodup

theorem MpTcpConnection.members_length_le (connection : MpTcpConnection) :
    connection.members.length ≤ UINT32_MAX + 1 := by
  rw [← connection.members_length, ← Finset.card_range (UINT32_MAX + 1)]
  refine Finset.card_le_card_of_injOn BitVec.toNat (fun s _ => ?_) (fun s _ t _ h => ?_)
  · exact Finset.mem_coe.2 (Finset.mem_range.2 s.isLt)
  · exact BitVec.eq_of_toNat_eq h

section Runs

variable {base : PacketScheduler} {connection : MpTcpConnection}

/-- **What one call does to the table.** -/
theorem call_cases (base : PacketScheduler) (connection : MpTcpConnection) (t : SkipTable)
    (c : Call) :
    (c.isCached base = true ∧ (c.run base connection t).2 = t) ∨
    (c.isCached base = false ∧ (∀ s ∈ connection.members, c.isEligible base s = false) ∧
      ∀ s ∈ connection.members, (c.run base connection t).2.count s = 0) ∨
    (c.isCached base = false ∧ ∃ E winner, (c.run base connection t).1 = some winner ∧
      (∀ s ∈ connection.members, c.isEligible base s = true → s ∈ E) ∧
      Ageing.Step base.CWND_MAX_SKIPPED_BURSTS UINT32_MAX connection.members.toFinset E winner
        t.count (c.run base connection t).2.count) := by
  rcases select_cases base connection c.view ⟨c.burst, t⟩ c.bytes with
    ⟨last, hc, hsel⟩ | ⟨hc, st', hsel, hnone⟩ | ⟨hc, winner, st', hsel, hwin⟩
  · exact Or.inl ⟨by simp [Call.isCached, hc], by simp [Call.run, hsel]⟩
  · refine Or.inr (Or.inl ⟨by simp [Call.isCached, hc], fun s hs => ?_, fun s hs => ?_⟩)
    · by_contra hel
      have hmem := mem_eligibleSubflows.2 ⟨hs, Bool.eq_true_of_not_eq_false hel⟩
      rw [hnone.empty] at hmem
      exact List.not_mem_nil hmem
    · simp [Call.run, hsel, SkipTable.count, hnone.forgotten s hs]
  · refine Or.inr (Or.inr ⟨by simp [Call.isCached, hc],
      (eligibleSubflows ⟨base, c.view, c.burst.avgPacingRates, c.bytes⟩ connection).toFinset,
      winner, by simp [Call.run, hsel], fun s hs hel => ?_, ?_⟩)
    · exact List.mem_toFinset.2 (mem_eligibleSubflows.2 ⟨hs, hel⟩)
    · simpa only [Call.run, hsel] using hwin.ageStep

theorem call_spread (hK : 1 ≤ base.CWND_MAX_SKIPPED_BURSTS) {t : SkipTable}
    (h : Ageing.Spread base.CWND_MAX_SKIPPED_BURSTS connection.members.toFinset t.count)
    (c : Call) : Ageing.Spread base.CWND_MAX_SKIPPED_BURSTS connection.members.toFinset
      (c.run base connection t).2.count := by
  rcases call_cases base connection t c with
    ⟨-, ht⟩ | ⟨-, -, hzero⟩ | ⟨-, E, winner, -, -, hstep⟩
  · rw [ht]; exact h
  · exact Ageing.Spread.zero hK fun s hs => hzero s (List.mem_toFinset.1 hs)
  · exact hstep.spread hK h

/-- **The counts stay spread out in every run.** -/
theorem tableAfter_spread (hK : 1 ≤ base.CWND_MAX_SKIPPED_BURSTS) {t : SkipTable}
    (h : Ageing.Spread base.CWND_MAX_SKIPPED_BURSTS connection.members.toFinset t.count)
    (calls : List Call) : Ageing.Spread base.CWND_MAX_SKIPPED_BURSTS connection.members.toFinset
      (tableAfter base connection t calls).count := by
  induction calls generalizing t with
  | nil => exact h
  | cons c rest ih => exact ih (call_spread hK h c)

/-- A non-cached call that `s` could win but does not extends the wait of `s` by one. -/
theorem call_waiting (hK : 1 ≤ base.CWND_MAX_SKIPPED_BURSTS) {s : SocketId}
    (hs : s ∈ connection.members) {t : SkipTable} {n : ℕ} {D : Finset SocketId}
    (hw : Ageing.Waiting base.CWND_MAX_SKIPPED_BURSTS UINT32_MAX connection.members.toFinset s n
      t.count D)
    {c : Call} (hcache : c.isCached base = false) (hel : c.isEligible base s = true)
    (hlost : (c.run base connection t).1 ≠ some s) :
    ∃ D', Ageing.Waiting base.CWND_MAX_SKIPPED_BURSTS UINT32_MAX connection.members.toFinset s
      (n + 1) (c.run base connection t).2.count D' := by
  rcases call_cases base connection t c with
    ⟨hc, -⟩ | ⟨-, hnone, -⟩ | ⟨-, E, winner, hret, hE, hstep⟩
  · rw [hcache] at hc; cases hc
  · rw [hnone s hs] at hel; cases hel
  · have hne : s ≠ winner := fun he => hlost (he ▸ hret)
    refine hw.next hK base.maxSkipped_le ?_ (List.mem_toFinset.2 hs) hstep (hE s hs hel) hne
    rw [connection.members_length]
    exact connection.members_length_le

/-- A window of calls in which `s` could win every non-cached one and wins none. -/
theorem waiting_window (hK : 1 ≤ base.CWND_MAX_SKIPPED_BURSTS) {s : SocketId}
    (hs : s ∈ connection.members) (window : List Call) :
    ∀ {t : SkipTable} {n : ℕ} {D : Finset SocketId},
      Ageing.Waiting base.CWND_MAX_SKIPPED_BURSTS UINT32_MAX connection.members.toFinset s n
        t.count D →
      (∀ c ∈ window, c.isCached base = false → c.isEligible base s = true) →
      (∀ before c after, window = before ++ c :: after → c.isCached base = false →
        (c.run base connection (tableAfter base connection t before)).1 ≠ some s) →
      ∃ D', Ageing.Waiting base.CWND_MAX_SKIPPED_BURSTS UINT32_MAX connection.members.toFinset s
        (n + (window.filter (fun c => !c.isCached base)).length)
        (tableAfter base connection t window).count D' := by
  induction window with
  | nil =>
    intro t n D hw _ _
    exact ⟨D, hw⟩
  | cons c rest ih =>
    intro t n D hw hel hlost
    have hel' : ∀ d ∈ rest, d.isCached base = false → d.isEligible base s = true :=
      fun d hd => hel d (List.mem_cons_of_mem _ hd)
    have hlost' : ∀ before d after, rest = before ++ d :: after → d.isCached base = false →
        (d.run base connection
          (tableAfter base connection (c.run base connection t).2 before)).1 ≠ some s :=
      fun before d after he => hlost (c :: before) d after (by rw [he]; rfl)
    cases hcache : c.isCached base with
    | true =>
      have ht : (c.run base connection t).2 = t := by
        rcases call_cases base connection t c with
          ⟨-, ht⟩ | ⟨hc, -⟩ | ⟨hc, -⟩
        · exact ht
        · rw [hcache] at hc; cases hc
        · rw [hcache] at hc; cases hc
      obtain ⟨D', hw'⟩ := ih (ht.symm ▸ hw) hel' hlost'
      have hlen : ((c :: rest).filter (fun c => !c.isCached base)).length =
          (rest.filter (fun c => !c.isCached base)).length := by simp [hcache]
      rw [hlen]
      exact ⟨D', hw'⟩
    | false =>
      obtain ⟨D₁, hw₁⟩ := call_waiting hK hs hw hcache (hel c (List.mem_cons_self ..) hcache)
        (hlost [] c rest rfl hcache)
      obtain ⟨D', hw'⟩ := ih hw₁ hel' hlost'
      refine ⟨D', ?_⟩
      have hlen : ((c :: rest).filter (fun c => !c.isCached base)).length =
          1 + (rest.filter (fun c => !c.isCached base)).length := by
        simp [hcache, Nat.add_comm]
      rw [hlen, ← Nat.add_assoc]
      exact hw'

end Runs

/-- **Starvation bound.**  In every run from an empty table, no subflow's skip count exceeds
`K + N - 2`; and whatever happened before (`calls`), a subflow that is eligible in every non-cached
call of a window with at least `K + N - 1` of them is returned by one of those calls. -/
theorem starvation_bound (base : PacketScheduler) (connection : MpTcpConnection)
    (hK : 1 ≤ base.CWND_MAX_SKIPPED_BURSTS) (calls : List Call) (s : SocketId)
    (hs : s ∈ connection.members) :
    (tableAfter base connection .empty calls).count s ≤
        base.CWND_MAX_SKIPPED_BURSTS + connection.members.length - 2 ∧
      ∀ window : List Call,
        (∀ c ∈ window, c.isCached base = false → c.isEligible base s = true) →
        base.CWND_MAX_SKIPPED_BURSTS + connection.members.length - 1 ≤
          (window.filter (fun c => !c.isCached base)).length →
        ∃ before c after, window = before ++ c :: after ∧ c.isCached base = false ∧
          (c.run base connection (tableAfter base connection .empty (calls ++ before))).1 =
            some s := by
  have hs' : s ∈ connection.members.toFinset := List.mem_toFinset.2 hs
  constructor
  · have hzero : Ageing.Spread base.CWND_MAX_SKIPPED_BURSTS connection.members.toFinset
        SkipTable.empty.count := Ageing.Spread.zero hK fun i _ => SkipTable.count_empty i
    rw [← connection.members_length]
    exact (tableAfter_spread hK hzero calls).age_le hK hs'
  · intro window hel hlen
    by_contra hnever
    obtain ⟨D, hw⟩ := waiting_window hK hs window
      (t := tableAfter base connection .empty calls) (Ageing.Waiting.start hK) hel
      (fun before c after he hc hret => hnever ⟨before, c, after, he, hc, by
        rw [tableAfter, List.foldl_append]; exact hret⟩)
    have hle := hw.rounds_le hs'
    rw [connection.members_length] at hle
    have hN : 0 < connection.members.length := List.length_pos_of_mem hs
    omega

/-- A request for one segment while no burst is running. -/
def segmentCall : Call := ⟨1448, idleView, .idle⟩

/-- With a threshold of one skipped burst the slower path waits for at most one selection. -/
theorem starvation_bound_two_paths :
    (tableAfter (documentedScheduler 1 (by decide)) twoPaths .empty [segmentCall]).count 2 ≤ 1 ∧
      ∃ before c after, [segmentCall, segmentCall] = before ++ c :: after ∧
        c.isCached (documentedScheduler 1 (by decide)) = false ∧
        (c.run (documentedScheduler 1 (by decide)) twoPaths
          (tableAfter (documentedScheduler 1 (by decide)) twoPaths .empty
            ([segmentCall] ++ before))).1 = some 2 := by
  have h := starvation_bound (documentedScheduler 1 (by decide)) twoPaths (le_refl 1)
    [segmentCall] 2 (by decide)
  exact ⟨h.1, h.2 [segmentCall, segmentCall] (by decide +kernel) (by decide +kernel)⟩

end MpOrb
