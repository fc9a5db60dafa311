import MpOrb.DeltaPath
import Mathlib.Data.Sign.Basic

/-!
# The rate stamps of one connection

Every Delta subflow of a meta connection sums the rates of the same subflows, so all of them stamp
the total rate of the connection.

* `MetaMember` — a subflow in a snapshot of its connection, with its algorithm if that is Delta.
* `siblingRate_eq_sum` — the loop of `stampTelemetry`; `connectionTotal` — the sum of `cwnd/srtt`
  that it computes.
* `rateCorrection_sign` — the sign of a correction compares the stamped rate with the mean.
* `carryPath_stamped` — no queue rejects a stamp, and the stamped rates arrive as they were.
* `stamps_consistent` — the active subflows of a connection stamp one rate and are corrected in one
  direction.
-/

set_option autoImplicit false

namespace MpOrb

/-! ## The total rate -/

/-- What the loop of `stampTelemetry` counts. -/
def Sibling.counts (sf : Sibling) : Bool :=
  sf.isDelta && sf.isTransportActiveForScheduler && !sf.isSchedulerStale

def Sibling.rate (sf : Sibling) : ℚ := nominalRate sf.snd_cwnd sf.srtt

/-- **The loop over the siblings is a sum.** -/
theorem siblingRate_eq_sum (subflows : List Sibling) :
    siblingRate subflows = ((subflows.filter Sibling.counts).map Sibling.rate).sum := by
  have hloop : ∀ total : ℚ, subflows.foldl (fun total sf =>
      if sf.counts then total + sf.rate else total) total =
      total + ((subflows.filter Sibling.counts).map Sibling.rate).sum := by
    induction subflows with
    | nil => simp
    | cons sf rest ih =>
      intro total
      rw [List.foldl_cons, ih]
      cases hsf : sf.counts <;> simp [hsf, add_assoc]
  exact (hloop 0).trans (zero_add _)

theorem rate_le_siblingRate {subflows : List Sibling} {sf : Sibling} (hmem : sf ∈ subflows)
    (hcounts : sf.counts = true) : sf.rate ≤ siblingRate subflows := by
  rw [siblingRate_eq_sum]
  refine List.single_le_sum ?_ _ (List.mem_map_of_mem (List.mem_filter.2 ⟨hmem, hcounts⟩))
  exact List.forall_mem_map.2 fun u _ => nominalRate_nonneg u.snd_cwnd u.srtt

/-! ## Corrections -/

/-- **The stamped rate decides the sign of a correction.** -/
theorem rateCorrection_sign {mass allowance meanX : ℚ} (X : ℚ) (hmass : 0 < mass)
    (hallowance : 0 < allowance) (hmean : 0 < meanX) :
    SignType.sign (rateCorrection mass allowance X meanX) = SignType.sign (meanX - X) := by
  have hscale : rateCorrection mass allowance X meanX =
      mass * allowance / meanX * (meanX - X) := by
    rw [rateCorrection, if_pos hmean, one_sub_div hmean.ne']
    ring
  rw [hscale, sign_mul, sign_pos (by positivity), one_mul]

/-! ## Stamps on a path -/

/-- The validity check of `processTelemetryExtension` fails. -/
def invalidRateTelemetry : SimError := .runtime "Invalid Delta sender rate telemetry"

namespace MpOrbDeltaQueue

variable {q : MpOrbDeltaQueue} {now : SimTime}

/-- Opening a round can only fail in the simulator. -/
theorem openRound_error {e : SimError} (h : q.openRound now = .error e) :
    e ≠ invalidRateTelemetry := by
  rintro rfl
  cases htimer : q.deltaShuffleTimer with
  | some deadline =>
    rw [openRound_pending htimer] at h
    cases h
  | none =>
    by_cases hpast : now + q.roundInterval < now
    · simp only [openRound, startDeltaShuffleRound, scheduleAt, htimer, hpast] at h
      cases h
    · simp only [openRound, startDeltaShuffleRound, htimer, scheduleAt_idle (not_lt.1 hpast)] at h
      cases h

/-- A queue passes a data tag on with its stamp or fails in the simulator. -/
theorem process_stamped (q : MpOrbDeltaQueue) (now : SimTime) {tag : DeltaShuffleTag}
    (hdata : DataTag tag) (tcpPayloadBytes : ℕ) (bandwidth : ℚ) (selected : Bool) :
    (∃ q' tag', q.processTelemetryExtension now (some tag) tcpPayloadBytes bandwidth selected =
        .ok (q', some tag') ∧ SameStamp tag tag') ∨
      ∃ e, q.processTelemetryExtension now (some tag) tcpPayloadBytes bandwidth selected =
        .error e ∧ e ≠ invalidRateTelemetry := by
  by_cases hbytes : tcpPayloadBytes = 0
  · exact Or.inl ⟨q, tag, process_unmeasured fun h => h.1 hbytes, .refl _⟩
  · by_cases hon : 0 < q.params.deltaShuffleFraction
    · cases hopen : q.openRound now with
      | ok q' =>
        refine Or.inl ⟨_, _, process_enabled hbytes hdata.data hon hdata.subflowRate
          hdata.connectionRate hopen, ?_⟩
        cases selected <;> exact ⟨rfl, rfl, rfl, rfl⟩
      | error e =>
        exact Or.inr ⟨e, process_error hbytes hdata.data hon hopen, openRound_error hopen⟩
    · refine Or.inl ⟨_, _, process_disabled hbytes hdata.data (not_lt.1 hon), ?_⟩
      cases selected <;> exact ⟨rfl, rfl, rfl, rfl⟩

end MpOrbDeltaQueue

theorem Hop.carry_stamped (hop : Hop) {c : Carried} (hdata : DataTag c.tag)
    (tcpPayloadBytes : ℕ) :
    (∃ c', hop.carry tcpPayloadBytes c = .ok c' ∧ SameStamp c.tag c'.tag) ∨
      ∃ e, hop.carry tcpPayloadBytes c = .error e ∧ e ≠ invalidRateTelemetry := by
  unfold Hop.carry
  cases hop.queue with
  | pint nodeId => exact Or.inl ⟨_, rfl, .refl _⟩
  | delta q =>
    rcases q.process_stamped hop.arrival hdata tcpPayloadBytes hop.bandwidth
      hop.selectedBottleneck with ⟨q', tag', hproc, hstamp⟩ | ⟨e, hproc, he⟩
    · simp only [hproc]
      exact Or.inl ⟨_, rfl, hstamp⟩
    · simp only [hproc]
      exact Or.inr ⟨e, rfl, he⟩

/-- **No queue rejects a stamp, and its rates arrive.** -/
theorem carryPath_stamped {c : Carried} (hdata : DataTag c.tag) (tcpPayloadBytes : ℕ)
    (path : List Hop) :
    carryPath tcpPayloadBytes c path ≠ .error invalidRateTelemetry ∧
      ∀ c', carryPath tcpPayloadBytes c path = .ok c' → SameStamp c.tag c'.tag := by
  induction path generalizing c with
  | nil =>
    refine ⟨fun h => ?_, fun c' h => ?_⟩ <;> cases h
    exact .refl _
  | cons hop rest ih =>
    rw [carryPath, List.foldlM_cons]
    rcases hop.carry_stamped hdata tcpPayloadBytes with ⟨c₁, hone, hstamp⟩ | ⟨e, hone, he⟩
    · obtain ⟨hnever, harrives⟩ := ih (hstamp.dataTag hdata)
      rw [hone]
      exact ⟨hnever, fun c' h => hstamp.trans (harrives c' h)⟩
    · rw [hone]
      refine ⟨fun h => he ?_, fun c' h => ?_⟩ <;> cases h
      rfl

/-! ## One connection -/

/-- A subflow of the meta connection; `delta` is its algorithm if `dynamic_cast<MpOrbDelta *>`
succeeds. -/
structure MetaMember (α : Type) where
  sibling : Sibling
  delta : Option (MpOrbDelta α)
  isDelta : sibling.isDelta = delta.isSome
  snd_cwnd : ∀ d ∈ delta, d.state.snd_cwnd = sibling.snd_cwnd
  srtt : ∀ d ∈ delta, d.state.srtt = sibling.srtt

section Connection

variable {α : Type}

/-- The tag that a Delta sender of the connection stamps. -/
def stampFor (members : List (MetaMember α)) (d : MpOrbDelta α) : DeltaShuffleTag :=
  (d.stampTelemetry (some (members.map MetaMember.sibling))).2

theorem stampFor_dataTag (members : List (MetaMember α)) (d : MpOrbDelta α) :
    DataTag (stampFor members d) :=
  stampTelemetry_dataTag d _

/-- A Delta subflow that is transport-active and not stale. -/
def MetaMember.active (m : MetaMember α) : Bool :=
  m.delta.isSome && m.sibling.isTransportActiveForScheduler && !m.sibling.isSchedulerStale

/-- The rate of a connection: the sum of `cwnd/srtt` over its active Delta subflows, with 20 ms
where there is no RTT sample. -/
def connectionTotal (members : List (MetaMember α)) : ℚ :=
  ((members.filter MetaMember.active).map fun m =>
    (m.sibling.snd_cwnd.toNat : ℚ) / (if 0 < m.sibling.srtt then m.sibling.srtt else 1 / 50)).sum

theorem siblingRate_eq_connectionTotal (members : List (MetaMember α)) :
    siblingRate (members.map MetaMember.sibling) = connectionTotal members := by
  have hactive : (fun m : MetaMember α => m.sibling.counts) = MetaMember.active := by
    funext m
    rw [Sibling.counts, m.isDelta]
    rfl
  rw [siblingRate_eq_sum, List.filter_map, List.map_map]
  show ((members.filter fun m => m.sibling.counts).map _).sum = _
  rw [hactive]
  rfl

/-- A Delta subflow of the connection that is transport-active and not stale. -/
def ActiveSender (members : List (MetaMember α)) (d : MpOrbDelta α) : Prop :=
  ∃ m ∈ members, m.delta = some d ∧ m.active = true

/-- **An active sender stamps the rate of the connection.** -/
theorem stampFor_connectionRate {members : List (MetaMember α)} {d : MpOrbDelta α}
    (hactive : ActiveSender members d) :
    (stampFor members d).connectionRate = connectionTotal members := by
  obtain ⟨m, hmem, hd, hactive⟩ := hactive
  have hcounts : m.sibling.counts = true := by
    rw [Sibling.counts, m.isDelta]
    exact hactive
  have hrate : (stampFor members d).subflowRate = m.sibling.rate := by
    show nominalRate d.state.snd_cwnd d.state.srtt = _
    rw [m.snd_cwnd d hd, m.srtt d hd, Sibling.rate]
  have hle : m.sibling.rate ≤ siblingRate (members.map MetaMember.sibling) :=
    rate_le_siblingRate (List.mem_map_of_mem hmem) hcounts
  rw [← siblingRate_eq_connectionTotal]
  rw [← hrate] at hle
  exact max_eq_right hle

/-- The feedback an active sender reads off a returned tag moves it with its connection. -/
theorem correction_sign {members : List (MetaMember α)} {d : MpOrbDelta α}
    (hactive : ActiveSender members d) {tcpPayloadBytes : ℕ} {path : List Hop} {c : Carried}
    (hcarry : carryPath tcpPayloadBytes { tag := stampFor members d } path = .ok c)
    (hmass : 0 < c.tag.packetMass) (hallowance : 0 < c.tag.rateAllowance)
    (hmean : 0 < c.tag.meanConnectionRate) :
    SignType.sign c.tag.echo.correction =
      SignType.sign (c.tag.meanConnectionRate - connectionTotal members) := by
  have hstamp := (carryPath_stamped (c := { tag := stampFor members d })
    (stampFor_dataTag members d) tcpPayloadBytes path).2 c hcarry
  have hrate : c.tag.connectionRate = connectionTotal members :=
    hstamp.connectionRate.trans (stampFor_connectionRate hactive)
  rw [← hrate]
  exact rateCorrection_sign _ hmass hallowance hmean

/-- **Rate stamps are consistent across a connection.**  Every stamp has the rate of its sender and
is valid at every queue; the active senders stamp the sum of their rates, so one feedback corrects
all of them in one direction, whatever the rates of their paths. -/
theorem stamps_consistent (members : List (MetaMember α)) :
    (∀ d : MpOrbDelta α,
      (stampFor members d).subflowRate =
        (d.state.snd_cwnd.toNat : ℚ) / (if 0 < d.state.srtt then d.state.srtt else 1 / 50) ∧
      0 ≤ (stampFor members d).subflowRate ∧
      (stampFor members d).subflowRate ≤ (stampFor members d).connectionRate ∧
      ∀ tcpPayloadBytes path,
        carryPath tcpPayloadBytes { tag := stampFor members d } path ≠
          .error invalidRateTelemetry) ∧
    (∀ d, ActiveSender members d →
      (stampFor members d).connectionRate = connectionTotal members ∧
      (∀ mass allowance meanX : ℚ, 0 < mass → 0 < allowance → 0 < meanX →
        SignType.sign (rateCorrection mass allowance (stampFor members d).connectionRate meanX) =
          SignType.sign (meanX - connectionTotal members)) ∧
      ∀ tcpPayloadBytes path c,
        carryPath tcpPayloadBytes { tag := stampFor members d } path = .ok c →
        0 < c.tag.packetMass → 0 < c.tag.rateAllowance → 0 < c.tag.meanConnectionRate →
        SignType.sign c.tag.echo.correction =
          SignType.sign (c.tag.meanConnectionRate - connectionTotal members)) ∧
    ∀ d d', ActiveSender members d → ActiveSender members d' →
      (stampFor members d).connectionRate = (stampFor members d').connectionRate := by
  refine ⟨fun d => ?_, fun d hactive => ?_, fun d d' hactive hactive' => ?_⟩
  · have hdata := stampFor_dataTag members d
    exact ⟨rfl, hdata.subflowRate, hdata.connectionRate, fun tcpPayloadBytes path =>
      (carryPath_stamped (c := { tag := stampFor members d }) hdata tcpPayloadBytes path).1⟩
  · have htotal := stampFor_connectionRate hactive
    refine ⟨htotal, fun mass allowance meanX hmass hallowance hmean => ?_, ?_⟩
    · rw [htotal]
      exact rateCorrection_sign _ hmass hallowance hmean
    · intro tcpPayloadBytes path c hcarry
      exact correction_sign hactive hcarry
  · rw [stampFor_connectionRate hactive, stampFor_connectionRate hactive']

end Connection

/-! ### Two active siblings -/

/-- A Delta subflow in a snapshot. -/
def MetaMember.ofDelta (d : MpOrbDelta Unit) (isSchedulerStale : Bool) : MetaMember Unit where
  sibling := ⟨true, true, isSchedulerStale, d.state.snd_cwnd, d.state.srtt⟩
  delta := some d
  isDelta := rfl
  snd_cwnd _ h := by cases h; rfl
  srtt _ h := by cases h; rfl

/-- A sender of two segments without an RTT sample. -/
def bootstrapSender : MpOrbDelta Unit := { state := ⟨2896, 1448, 2896, 1448, 0⟩, parent := () }

/-- Two active Delta subflows, a stale one and one of another flavour. -/
def mixedMembers : List (MetaMember Unit) :=
  [.ofDelta freshSender false, .ofDelta bootstrapSender false, .ofDelta freshSender true,
    ⟨⟨false, true, false, 14480, 1 / 10⟩, none, rfl, nofun, nofun⟩]

/-- Both stamp `14480 / 0.1 + 2896 / 0.02` bytes per second.  Each alone is below the mean of the
queue, but the connection is above it, so both are slowed down. -/
theorem stamps_consistent_two_siblings : ∀ d ∈ [freshSender, bootstrapSender],
    (stampFor mixedMembers d).subflowRate = 144800 ∧
      (stampFor mixedMembers d).connectionRate = 289600 ∧
      ∃ c, carryPath 1448 { tag := stampFor mixedMembers d } [nodeHop 7 200000] = .ok c ∧
        SignType.sign c.tag.echo.correction = -1 := by
  have htotal : connectionTotal mixedMembers = 289600 := by decide +kernel
  have hactive : ∀ d ∈ [freshSender, bootstrapSender], ActiveSender mixedMembers d := by
    simp only [List.forall_mem_cons]
    exact ⟨⟨_, .head _, rfl, rfl⟩, ⟨_, .tail _ (.head _), rfl, rfl⟩, nofun⟩
  have hhalf : ∀ d ∈ [freshSender, bootstrapSender], (d.state.snd_cwnd.toNat : ℚ) /
      (if 0 < d.state.srtt then d.state.srtt else 1 / 50) = 144800 := by decide +kernel
  have hfed : ∀ d ∈ [freshSender, bootstrapSender],
      0 < (nodeTag 7 200000 (stampFor mixedMembers d)).packetMass ∧
        0 < (nodeTag 7 200000 (stampFor mixedMembers d)).rateAllowance := by decide +kernel
  obtain ⟨hrates, hstamps, -⟩ := stamps_consistent mixedMembers
  intro d hd
  obtain ⟨hconnection, -, hsign⟩ := hstamps d (hactive d hd)
  obtain ⟨hmass, hallowance⟩ := hfed d hd
  have hcarry : carryPath 1448 { tag := stampFor mixedMembers d } [nodeHop 7 200000] =
      .ok ⟨some (nodeHop 7 200000).record, nodeTag 7 200000 (stampFor mixedMembers d)⟩ := by
    rw [carryPath, List.foldlM_cons, carry_nodeHop (c := { tag := stampFor mixedMembers d }) 7
      200000 (stampFor_dataTag mixedMembers d)]
    rfl
  have hmean : (0 : ℚ) < 200000 := by norm_num
  refine ⟨(hrates d).1.trans (hhalf d hd), hconnection.trans htotal, _, hcarry, ?_⟩
  rw [hsign 1448 _ _ hcarry hmass hallowance hmean, htotal]
  show SignType.sign ((200000 : ℚ) - 289600) = -1
  decide +kernel

end MpOrb
