import MpOrb.DeltaQueue
import MpOrb.DeltaSender
import Mathlib.Data.List.Induction

/-!
# Feedback belongs to the final bottleneck

A data packet crosses a list of hops: plain PINT queues and Delta queues, disabled or enabled, in
any state.  The base queue, outside the repository, replaces the INT record at a selected hop and
stamps the hop's node id on it.

* `Hop.carry`, `carryPath` — one hop and a path, through the code of the Delta queue.
* `Hop.carry_cases` — what a hop does to the tag: nothing, clear it, or write its own feedback.
* `PathInv` — the joint invariant of the tag and the INT record over the hops passed so far.
* `feedback_of_final_bottleneck` — the echo is accepted exactly if the last selected hop is an
  enabled Delta queue, and then carries that hop's values.
-/

set_option autoImplicit false

namespace MpOrb

/-! ## Paths -/

/-- The queue of a hop. -/
inductive HopQueue where
  | pint (nodeId : ℤ)
  | delta (q : MpOrbDeltaQueue)

/-- A hop as one packet meets it; `record` is the INT record of the hop, up to its node id. -/
structure Hop where
  queue : HopQueue
  arrival : SimTime
  bandwidth : ℚ
  selectedBottleneck : Bool
  record : IntData

/-- What the packet carries: the INT record and the Delta tag. -/
structure Carried where
  int : Option IntData := none
  tag : DeltaShuffleTag

def Hop.nodeId (hop : Hop) : ℤ :=
  match hop.queue with
  | .pint nodeId => nodeId
  | .delta q => q.nodeId

/-- The INT record behind the hop. -/
def Hop.recordAfter (hop : Hop) (int : Option IntData) : Option IntData :=
  if hop.selectedBottleneck then some { hop.record with hopId := hop.nodeId } else int

/-- A packet crosses a hop. -/
def Hop.carry (tcpPayloadBytes : ℕ) (c : Carried) (hop : Hop) : Except SimError Carried :=
  match hop.queue with
  | .pint _ => .ok { c with int := hop.recordAfter c.int }
  | .delta q => do
    let (_, tag) ← q.processTelemetryExtension hop.arrival (some c.tag) tcpPayloadBytes
      hop.bandwidth hop.selectedBottleneck
    return { int := hop.recordAfter c.int, tag := tag.getD c.tag }

/-- A packet crosses the hops of a path, in order. -/
def carryPath (tcpPayloadBytes : ℕ) (c : Carried) (path : List Hop) : Except SimError Carried :=
  path.foldlM (Hop.carry tcpPayloadBytes) c

/-- The hop that became the packet's bottleneck last. -/
def lastSelected (path : List Hop) : Option Hop :=
  (path.filter (·.selectedBottleneck)).getLast?

/-- The hop writes Delta feedback. -/
def Hop.IsEnabledDelta (hop : Hop) : Prop :=
  ∃ q, hop.queue = .delta q ∧ 0 < q.params.deltaShuffleFraction

/-- The feedback in `tag` is what the hop's queue computes for the packet `sent`. -/
def Hop.Computed (hop : Hop) (tcpPayloadBytes : ℕ) (sent tag : DeltaShuffleTag) : Prop :=
  ∃ q q', hop.queue = .delta q ∧ q.openRound hop.arrival = .ok q' ∧
    tag.packetMass = q'.packetMass sent tcpPayloadBytes ∧
    tag.meanConnectionRate = q'.deltaShuffle.previousMeanRate ∧
    tag.rateAllowance = q'.rateAllowance hop.bandwidth

/-! ## One hop -/

/-- A data tag with the rates `stampTelemetry` writes. -/
structure DataTag (tag : DeltaShuffleTag) : Prop where
  data : tag.echoed = false
  subflowRate : 0 ≤ tag.subflowRate
  connectionRate : tag.subflowRate ≤ tag.connectionRate

theorem SameStamp.dataTag {sent tag : DeltaShuffleTag} (h : SameStamp sent tag)
    (hsent : DataTag sent) : DataTag tag :=
  ⟨h.echoed.trans hsent.data, h.subflowRate ▸ hsent.subflowRate,
    h.connectionRate ▸ h.subflowRate ▸ hsent.connectionRate⟩

/-- **What a hop does to a data packet.** -/
theorem Hop.carry_cases {hop : Hop} {c c' : Carried} {tcpPayloadBytes : ℕ}
    (hbytes : tcpPayloadBytes ≠ 0) (hdata : DataTag c.tag)
    (hcarry : hop.carry tcpPayloadBytes c = .ok c') :
    SameStamp c.tag c'.tag ∧ c'.int = hop.recordAfter c.int ∧
      ((c'.tag = c.tag ∧ (hop.selectedBottleneck = false ∨ ¬ hop.IsEnabledDelta)) ∨
        (c'.tag.hops = 0 ∧ hop.selectedBottleneck = true ∧ ¬ hop.IsEnabledDelta) ∨
        (0 < c'.tag.hops ∧ c'.tag.bottleneckId = hop.nodeId ∧
          hop.Computed tcpPayloadBytes c.tag c'.tag ∧ hop.selectedBottleneck = true ∧
          hop.IsEnabledDelta)) := by
  unfold Hop.carry at hcarry
  cases hqueue : hop.queue with
  | pint nodeId =>
    simp only [hqueue, Except.ok.injEq] at hcarry
    subst hcarry
    refine ⟨.refl _, rfl, Or.inl ⟨rfl, Or.inr ?_⟩⟩
    rintro ⟨q, hq, -⟩
    rw [hqueue] at hq
    cases hq
  | delta q =>
    simp only [hqueue] at hcarry
    by_cases hon : 0 < q.params.deltaShuffleFraction
    · have hen : hop.IsEnabledDelta := ⟨q, hqueue, hon⟩
      have hid : hop.nodeId = q.nodeId := by rw [Hop.nodeId, hqueue]
      cases hproc : q.processTelemetryExtension hop.arrival (some c.tag) tcpPayloadBytes
        hop.bandwidth hop.selectedBottleneck with
      | error e =>
        rw [hproc] at hcarry
        cases hcarry
      | ok result =>
        obtain ⟨q', hopen, rfl⟩ := MpOrbDeltaQueue.process_enabled_inv hbytes hdata.data hon
          hdata.subflowRate hdata.connectionRate hproc
        rw [hproc] at hcarry
        cases hsel : hop.selectedBottleneck with
        | false =>
          rw [hsel] at hcarry
          cases hcarry
          exact ⟨.refl _, rfl, Or.inl ⟨rfl, Or.inl rfl⟩⟩
        | true =>
          rw [hsel] at hcarry
          cases hcarry
          exact ⟨⟨rfl, rfl, rfl, rfl⟩, rfl, Or.inr (Or.inr ⟨Nat.one_pos, hid.symm,
            ⟨q, q', hqueue, hopen, rfl, rfl, rfl⟩, rfl, hen⟩)⟩
    · have hen : ¬ hop.IsEnabledDelta := by
        rintro ⟨q₁, hq₁, hon₁⟩
        rw [hqueue] at hq₁
        cases hq₁
        exact hon hon₁
      rw [MpOrbDeltaQueue.process_disabled hbytes hdata.data (not_lt.1 hon)] at hcarry
      cases hsel : hop.selectedBottleneck with
      | false =>
        rw [hsel] at hcarry
        cases hcarry
        exact ⟨.refl _, rfl, Or.inl ⟨rfl, Or.inl rfl⟩⟩
      | true =>
        rw [hsel] at hcarry
        cases hcarry
        exact ⟨⟨rfl, rfl, rfl, rfl⟩, rfl, Or.inr (Or.inl ⟨rfl, rfl, hen⟩)⟩

theorem Hop.carry_ok {hop : Hop} {c : Carried} {tcpPayloadBytes : ℕ}
    (hbytes : tcpPayloadBytes ≠ 0) (hrtt : ∀ q, hop.queue = .delta q → 0 < q.pintInitialRtt)
    (hdata : DataTag c.tag) : ∃ c', hop.carry tcpPayloadBytes c = .ok c' := by
  unfold Hop.carry
  cases hqueue : hop.queue with
  | pint nodeId => exact ⟨_, rfl⟩
  | delta q =>
    obtain ⟨r, hr⟩ : ∃ r, q.processTelemetryExtension hop.arrival (some c.tag) tcpPayloadBytes
        hop.bandwidth hop.selectedBottleneck = .ok r := by
      by_cases hon : 0 < q.params.deltaShuffleFraction
      · obtain ⟨q', hopen⟩ : ∃ q', q.openRound hop.arrival = .ok q' := by
          cases htimer : q.deltaShuffleTimer with
          | none =>
            have hround := MpOrbDeltaQueue.roundInterval_pos (hrtt q hqueue)
            exact ⟨_, MpOrbDeltaQueue.openRound_idle hround htimer⟩
          | some d => exact ⟨_, MpOrbDeltaQueue.openRound_pending htimer⟩
        exact ⟨_, MpOrbDeltaQueue.process_enabled hbytes hdata.data hon hdata.subflowRate
          hdata.connectionRate hopen⟩
      · exact ⟨_, MpOrbDeltaQueue.process_disabled hbytes hdata.data (not_lt.1 hon)⟩
    simp only [hr]
    exact ⟨_, rfl⟩

/-! ## The whole path -/

theorem lastSelected_snoc (path : List Hop) (hop : Hop) :
    lastSelected (path ++ [hop]) =
      if hop.selectedBottleneck then some hop else lastSelected path := by
  unfold lastSelected
  cases hsel : hop.selectedBottleneck <;> simp [List.filter_append, hsel]

theorem Hop.Computed.of_sameStamp {hop : Hop} {tcpPayloadBytes : ℕ}
    {sent sent' tag : DeltaShuffleTag} (h : hop.Computed tcpPayloadBytes sent' tag)
    (hsame : SameStamp sent sent') : hop.Computed tcpPayloadBytes sent tag := by
  obtain ⟨q, q', hqueue, hopen, hmass, hmean, hallowance⟩ := h
  refine ⟨q, q', hqueue, hopen, ?_, hmean, hallowance⟩
  rw [hmass, MpOrbDeltaQueue.packetMass, MpOrbDeltaQueue.packetMass, MpOrbDeltaQueue.massDivisor,
    MpOrbDeltaQueue.massDivisor, hsame.subflowRate]

theorem carryPath_snoc {tcpPayloadBytes : ℕ} {path : List Hop} {hop : Hop} {c c' : Carried}
    (h : carryPath tcpPayloadBytes c (path ++ [hop]) = .ok c') :
    ∃ c₁, carryPath tcpPayloadBytes c path = .ok c₁ ∧ hop.carry tcpPayloadBytes c₁ = .ok c' := by
  rw [carryPath, List.foldlM_append] at h
  cases hbefore : carryPath tcpPayloadBytes c path with
  | error e =>
    rw [carryPath] at hbefore
    rw [hbefore] at h
    cases h
  | ok c₁ =>
    rw [carryPath] at hbefore
    rw [hbefore] at h
    simp only [List.foldlM_cons, List.foldlM_nil, bind_pure] at h
    exact ⟨c₁, rfl, h⟩

/-- Tag and INT record agree on the hops passed so far. -/
structure PathInv (tcpPayloadBytes : ℕ) (sent : DeltaShuffleTag) (path : List Hop) (c : Carried) :
    Prop where
  stamp : SameStamp sent c.tag
  origin : 0 < c.tag.hops → c.tag.bottleneckId ∈ path.map Hop.nodeId
  unselected : lastSelected path = none → c.int = none ∧ c.tag.hops = 0
  record : ∀ hop, lastSelected path = some hop → ∃ r, c.int = some r ∧ r.hopId = hop.nodeId
  enabled : ∀ hop, lastSelected path = some hop → hop.IsEnabledDelta →
    0 < c.tag.hops ∧ c.tag.bottleneckId = hop.nodeId ∧ hop.Computed tcpPayloadBytes sent c.tag
  foreign : ∀ hop, lastSelected path = some hop → ¬ hop.IsEnabledDelta → 0 < c.tag.hops →
    c.tag.bottleneckId ≠ hop.nodeId

section Path

variable {tcpPayloadBytes : ℕ} {sent : DeltaShuffleTag} {path : List Hop} {c c' : Carried}

theorem PathInv.snoc (hinv : PathInv tcpPayloadBytes sent path c)
    (hbytes : tcpPayloadBytes ≠ 0) (hsent : DataTag sent) {hop : Hop}
    (hid : hop.nodeId ∉ path.map Hop.nodeId) (hcarry : hop.carry tcpPayloadBytes c = .ok c') :
    PathInv tcpPayloadBytes sent (path ++ [hop]) c' := by
  obtain ⟨hstamp, hint, hcase⟩ := Hop.carry_cases hbytes (hinv.stamp.dataTag hsent) hcarry
  have hlast := lastSelected_snoc path hop
  have hmap : (path ++ [hop]).map Hop.nodeId = path.map Hop.nodeId ++ [hop.nodeId] := by simp
  cases hsel : hop.selectedBottleneck with
  | false =>
    -- a hop that is not the bottleneck changes neither the record nor the tag
    have htag : c'.tag = c.tag := by
      rcases hcase with ⟨htag, -⟩ | ⟨-, hsel', -⟩ | ⟨-, -, -, hsel', -⟩
      · exact htag
      · rw [hsel] at hsel'; cases hsel'
      · rw [hsel] at hsel'; cases hsel'
    have hsame : lastSelected (path ++ [hop]) = lastSelected path := by
      rw [hlast, hsel]; rfl
    have hrec : c'.int = c.int := by rw [hint, Hop.recordAfter, hsel]; rfl
    refine ⟨hinv.stamp.trans hstamp, ?_, ?_, ?_, ?_, ?_⟩
    · rw [htag, hmap]
      intro hpos
      exact List.mem_append_left _ (hinv.origin hpos)
    · rw [hsame, hrec, htag]; exact hinv.unselected
    · rw [hsame, hrec]; exact hinv.record
    · rw [hsame, htag]; exact hinv.enabled
    · rw [hsame, htag]; exact hinv.foreign
  | true =>
    have hnow : lastSelected (path ++ [hop]) = some hop := by rw [hlast, hsel]; rfl
    have hrec : ∃ r, c'.int = some r ∧ r.hopId = hop.nodeId := by
      rw [hint, Hop.recordAfter, hsel]
      exact ⟨_, rfl, rfl⟩
    have horigin : 0 < c'.tag.hops → c'.tag.bottleneckId ∈ (path ++ [hop]).map Hop.nodeId := by
      intro hpos
      rw [hmap]
      rcases hcase with ⟨htag, -⟩ | ⟨hzero, -⟩ | ⟨-, hbottleneck, -⟩
      · rw [htag] at hpos ⊢
        exact List.mem_append_left _ (hinv.origin hpos)
      · omega
      · rw [hbottleneck]
        exact List.mem_append_right _ (List.mem_singleton_self _)
    refine ⟨hinv.stamp.trans hstamp, horigin, ?_, ?_, ?_, ?_⟩ <;> rw [hnow]
    · intro hnone
      cases hnone
    · rintro _ ⟨⟩
      exact hrec
    · rintro _ ⟨⟩ hen
      rcases hcase with ⟨-, hsel' | hen'⟩ | ⟨-, -, hen'⟩ | ⟨hpos, hbottleneck, hcomp, -, -⟩
      · rw [hsel] at hsel'; cases hsel'
      · exact absurd hen hen'
      · exact absurd hen hen'
      · exact ⟨hpos, hbottleneck, hcomp.of_sameStamp hinv.stamp⟩
    · rintro _ ⟨⟩ hen hpos
      rcases hcase with ⟨htag, -⟩ | ⟨hzero, -⟩ | ⟨-, -, -, -, hen'⟩
      · -- a plain winner leaves older feedback alone, but its id is new on the path
        rw [htag] at hpos ⊢
        intro heq
        exact hid (heq ▸ hinv.origin hpos)
      · omega
      · exact absurd hen' hen

theorem PathInv.of_carryPath (hbytes : tcpPayloadBytes ≠ 0) (hsent : DataTag sent)
    (hfresh : sent.hops = 0) (hids : (path.map Hop.nodeId).Nodup)
    (hcarry : carryPath tcpPayloadBytes { tag := sent } path = .ok c) :
    PathInv tcpPayloadBytes sent path c := by
  induction path using List.reverseRecOn generalizing c with
  | nil =>
    cases hcarry
    refine ⟨.refl _, fun h => ?_, fun _ => ⟨rfl, hfresh⟩, ?_, ?_, ?_⟩
    · exact absurd hfresh h.ne'
    all_goals exact fun _ h => nomatch h
  | append_singleton path hop ih =>
    rw [List.map_append, List.map_singleton] at hids
    obtain ⟨hpath, -, hnew⟩ := List.nodup_append.1 hids
    obtain ⟨c₁, hbefore, hlast⟩ := carryPath_snoc hcarry
    have hid : hop.nodeId ∉ path.map Hop.nodeId := by
      intro hmem
      exact hnew _ hmem _ (List.mem_singleton_self _) rfl
    exact (ih hpath hbefore).snoc hbytes hsent hid hlast

theorem carryPath_disabled (hbytes : tcpPayloadBytes ≠ 0) (hsent : DataTag sent)
    (hfresh : sent.hops = 0) (hoff : ∀ hop ∈ path, ¬ hop.IsEnabledDelta)
    (hcarry : carryPath tcpPayloadBytes { tag := sent } path = .ok c) :
    SameStamp sent c.tag ∧ c.tag.hops = 0 := by
  induction path using List.reverseRecOn generalizing c with
  | nil =>
    cases hcarry
    exact ⟨.refl _, hfresh⟩
  | append_singleton path hop ih =>
    obtain ⟨c₁, hbefore, hlast⟩ := carryPath_snoc hcarry
    obtain ⟨hstamp, hzero⟩ := ih (fun h hh => hoff h (List.mem_append_left _ hh)) hbefore
    obtain ⟨hstamp', -, hcase⟩ := Hop.carry_cases hbytes (hstamp.dataTag hsent) hlast
    refine ⟨hstamp.trans hstamp', ?_⟩
    rcases hcase with ⟨htag, -⟩ | ⟨hzero', -⟩ | ⟨-, -, -, -, hen⟩
    · rw [htag]; exact hzero
    · exact hzero'
    · exact absurd hen (hoff hop (List.mem_append_right _ (List.mem_singleton_self _)))

/-- A packet gets through when every queue on its path can time a round. -/
theorem carryPath_ok (hbytes : tcpPayloadBytes ≠ 0)
    (hrtt : ∀ hop ∈ path, ∀ q, hop.queue = .delta q → 0 < q.pintInitialRtt)
    (hdata : DataTag c.tag) : ∃ c', carryPath tcpPayloadBytes c path = .ok c' := by
  induction path generalizing c with
  | nil => exact ⟨c, rfl⟩
  | cons hop rest ih =>
    obtain ⟨c₁, hone⟩ := Hop.carry_ok hbytes (hrtt hop List.mem_cons_self) hdata
    have hdata₁ := (Hop.carry_cases hbytes hdata hone).1.dataTag hdata
    obtain ⟨c', hrest⟩ := ih (fun h hh => hrtt h (List.mem_cons_of_mem _ hh)) hdata₁
    refine ⟨c', ?_⟩
    rw [carryPath] at hrest ⊢
    rw [List.foldlM_cons, hone]
    exact hrest

end Path

theorem stampTelemetry_dataTag {α : Type} (d : MpOrbDelta α) (subflows : Option (List Sibling)) :
    DataTag (d.stampTelemetry subflows).2 :=
  ⟨rfl, (d.stampTelemetry_rates subflows).1, (d.stampTelemetry_rates subflows).2⟩

/-- **Feedback belongs to the final bottleneck.**  A tag is stamped, carried over a path of distinct
nodes, echoed and handed to a sender that has not taken its serial yet. -/
theorem feedback_of_final_bottleneck {α : Type} (sender later : MpOrbDelta α)
    (subflows : Option (List Sibling)) {path : List Hop} (hids : (path.map Hop.nodeId).Nodup)
    {tcpPayloadBytes : ℕ} (hbytes : tcpPayloadBytes ≠ 0) {c : Carried}
    (hcarry : carryPath tcpPayloadBytes { tag := (sender.stampTelemetry subflows).2 } path = .ok c)
    (hnew : later.lastShuffleSerial < (sender.stampTelemetry subflows).2.serial) :
    (later.accepts c.tag.echo c.int.toList = true ↔
        ∃ hop, lastSelected path = some hop ∧ hop.IsEnabledDelta) ∧
      (later.accepts c.tag.echo c.int.toList = true →
        (∃ hop, lastSelected path = some hop ∧
          hop.Computed tcpPayloadBytes (sender.stampTelemetry subflows).2 c.tag.echo) ∧
        c.tag.echo.subflowRate = (sender.stampTelemetry subflows).2.subflowRate ∧
        c.tag.echo.connectionRate = (sender.stampTelemetry subflows).2.connectionRate ∧
        c.tag.echo.serial = (sender.stampTelemetry subflows).2.serial) := by
  have hinv := PathInv.of_carryPath hbytes (stampTelemetry_dataTag sender subflows) rfl hids hcarry
  have hiff : later.accepts c.tag.echo c.int.toList = true ↔
      ∃ hop, lastSelected path = some hop ∧ hop.IsEnabledDelta := by
    rw [MpOrbDelta.accepts_iff]
    constructor
    · rintro ⟨front, rest, hdata, -, hhops, hbottleneck, -⟩
      cases hlast : lastSelected path with
      | none =>
        rw [(hinv.unselected hlast).1] at hdata
        cases hdata
      | some hop =>
        refine ⟨hop, rfl, ?_⟩
        by_contra hen
        obtain ⟨r, hr, hid⟩ := hinv.record hop hlast
        rw [hr] at hdata
        cases hdata
        exact hinv.foreign hop hlast hen hhops (hbottleneck.trans hid)
    · rintro ⟨hop, hlast, hen⟩
      obtain ⟨r, hr, hid⟩ := hinv.record hop hlast
      obtain ⟨hhops, hbottleneck, -⟩ := hinv.enabled hop hlast hen
      refine ⟨r, [], by rw [hr]; rfl, rfl, hhops, hbottleneck.trans hid.symm, ?_⟩
      show later.lastShuffleSerial < c.tag.serial
      rw [hinv.stamp.serial]
      exact hnew
  refine ⟨hiff, fun hacc => ⟨?_, hinv.stamp.subflowRate, hinv.stamp.connectionRate,
    hinv.stamp.serial⟩⟩
  obtain ⟨hop, hlast, hen⟩ := hiff.1 hacc
  exact ⟨hop, hlast, (hinv.enabled hop hlast hen).2.2⟩

/-- The enabled queue takes over from the first hop; the last hop is not the bottleneck. -/
def threeHops : List Hop :=
  let record : IntData := ⟨0, 125000, .fin (9 / 10), 1 / 100, 0, 3, 3, false⟩
  [⟨.pint 5, 1 / 100, 125000, true, record⟩,
    ⟨.delta measuringQueue, 2 / 100, 125000, true, record⟩,
    ⟨.pint 9, 3 / 100, 125000, false, record⟩]

theorem feedback_of_second_hop :
    ∃ c, carryPath 1448 { tag := (freshSender.stampTelemetry none).2 } threeHops = .ok c ∧
      freshSender.accepts c.tag.echo c.int.toList = true := by
  have hrtt : ∀ hop ∈ threeHops, ∀ q, hop.queue = .delta q → 0 < q.pintInitialRtt := by
    intro hop hhop q hq
    simp only [threeHops, List.mem_cons, List.not_mem_nil, or_false] at hhop
    rcases hhop with rfl | rfl | rfl <;> cases hq
    decide +kernel
  obtain ⟨c, hcarry⟩ := carryPath_ok (c := { tag := (freshSender.stampTelemetry none).2 })
    (by decide : 1448 ≠ 0) hrtt (stampTelemetry_dataTag freshSender none)
  exact ⟨c, hcarry, (feedback_of_final_bottleneck freshSender freshSender none (by decide)
    (by decide) hcarry (by decide)).1.2 ⟨_, rfl, measuringQueue, rfl, by decide +kernel⟩⟩

/-! ### A bottleneck inside a round -/

/-- A queue inside a round, after one with this mean rate. -/
def nodeQueue (nodeId : ℤ) (previousMeanRate : ℚ) : MpOrbDeltaQueue :=
  { measuringQueue with
    nodeId
    deltaShuffle := { epoch := 1, previousMass := 10, previousMeanRate }
    deltaShuffleTimer := some (1 / 10)
    deltaInterval := 1 / 10 }

/-- The hop of such a queue, where the packet finds its bottleneck. -/
def nodeHop (nodeId : ℤ) (previousMeanRate : ℚ) : Hop where
  queue := .delta (nodeQueue nodeId previousMeanRate)
  arrival := 1 / 100
  bandwidth := 125000
  selectedBottleneck := true
  record := ⟨nodeId, 125000, .fin (9 / 10), 1 / 100, 0, 3, 3, false⟩

/-- The tag of a packet that has crossed such a hop. -/
def nodeTag (nodeId : ℤ) (previousMeanRate : ℚ) (sent : DeltaShuffleTag) : DeltaShuffleTag :=
  let q := nodeQueue nodeId previousMeanRate
  (q.observePacket (q.claimTag sent) 1448 125000 true).2

theorem carry_nodeHop (nodeId : ℤ) (previousMeanRate : ℚ) {c : Carried} (hdata : DataTag c.tag) :
    (nodeHop nodeId previousMeanRate).carry 1448 c =
      .ok ⟨some (nodeHop nodeId previousMeanRate).record,
        nodeTag nodeId previousMeanRate c.tag⟩ := by
  have hcross : (nodeQueue nodeId previousMeanRate).processTelemetryExtension (1 / 100)
      (some c.tag) 1448 125000 true = .ok (_, some (nodeTag nodeId previousMeanRate c.tag)) :=
    MpOrbDeltaQueue.process_enabled (by decide) hdata.data
      (show (0 : ℚ) < 1 / 20 by decide +kernel) hdata.subflowRate hdata.connectionRate
      (MpOrbDeltaQueue.openRound_pending rfl)
  simp only [Hop.carry, nodeHop, hcross]
  rfl

end MpOrb
