import MpOrb.ProjectionClock
import MpOrb.WindowCodec

/-!
# Ranges and causality in the packet projection

* `Values` — the ranges of the arrays, with one lemma for each stage that changes them.
* `Due`, `Waiting` — when a pending event takes place and what it carries; packets at a link.
* `Sane` — the invariant of every head; `Sane.advance` moves the clock to the next event.
* `projection_sane` — at the head of every iteration.
-/

set_option autoImplicit false

namespace MpOrb.FluidModel

open PyFloat

variable {n m : ℕ}

theorem update_range {ι : Type} [DecidableEq ι] {β : Type} {P : ι → β → Prop} {f : ι → β} {i : ι}
    {b : β} (hf : ∀ k, P k (f k)) (hb : P i b) : ∀ k, P k (Function.update f i b k) := by
  intro k
  by_cases hk : k = i
  · subst hk
    rwa [Function.update_self]
  · rw [Function.update_of_ne hk]
    exact hf k

theorem mss_pos : 0 < MSS := by decide

theorem encodeCwndRoundtrip_pos {w : ℤ} (hw : MSS ≤ w) : 0 < encodeCwndRoundtrip w := by
  have hmss : (MSS.toNat : ℤ) = MSS := rfl
  have hle : MSS.toNat ≤ w.toNat := Int.toNat_le_toNat hw
  have hmono := Significand.round_mono (p := 12) (by decide) hle
  rw [Significand.round_of_lt (p := 12) (w := MSS.toNat) (by decide)] at hmono
  rw [encodeCwndRoundtrip_eq (mss_pos.le.trans hw)]
  have := mss_pos
  omega

theorem weights_nonneg {case : Case ℚ n m} {W : Fin n → ℤ} {s : Fin n → ℚ}
    (hW : ∀ i, MSS ≤ W i) (hs : ∀ i, 0 < s i) (i : Fin n) : 0 ≤ weights W s case i := by
  have hrate : ∀ k, 0 ≤ (W k : ℚ) / s k := fun k =>
    div_nonneg (Int.cast_nonneg (mss_pos.le.trans (hW k))) (hs k).le
  unfold weights
  simp only
  split
  · exact zero_le_one
  · rw [sum_rat]
    refine div_nonneg (hrate i) (List.sum_nonneg fun x hx => ?_)
    obtain ⟨k, -, rfl⟩ := List.mem_map.1 hx
    exact hrate k

/-! ## Values -/

/-- The sender stamped a whole number of microseconds and a window. -/
structure Packet.Stamped (packet : Packet ℚ n) : Prop where
  base : ∃ k : ℕ, packet.taggedBase = k * (1 / 1000000)
  window : 0 < packet.taggedW

namespace Projection

/-- No measurement interval is shorter. -/
def leastHorizon (p : Projection ℚ n m) (j : Fin m) : ℚ := min (1 / 1000000) (p.initial.H j)

/-- The ranges of the arrays. -/
structure Values (p : Projection ℚ n m) (st : State ℚ n m) : Prop where
  srtt : ∀ i, 0 < st.s i
  base : ∀ i, 0 < st.baseR i
  window : ∀ i, MSS ≤ st.W i
  saved : ∀ i, MSS ≤ st.V i
  residual : ∀ i, 0 ≤ st.residual i ∧ st.residual i < 1
  interval : ∀ i, 0 < st.interval i
  utilization : ∀ j, 0 ≤ st.U j
  horizon : ∀ j, p.leastHorizon j ≤ st.H j
  count : ∀ j, 1 ≤ st.N j ∧ st.N j ≤ p.case.counts j
  ids : ∀ j, st.ids j ⊆ p.case.connections j
  /-- Stamped round-trip times are zero or at least a microsecond. -/
  moments : ∀ j, 0 ≤ (st.moments j).1 ∧ (st.moments j).1 * (1 / 1000000) ≤ (st.moments j).2

variable {p : Projection ℚ n m} {t : ℚ} {st st' : State ℚ n m}

theorem Valid.counts_pos (hp : p.Valid) (j : Fin m) : 1 ≤ p.case.counts j := by
  obtain ⟨i, hi⟩ := hp.used j
  exact Finset.card_pos.2 ⟨p.case.connection i, Finset.mem_image_of_mem _ (by simp [hi])⟩

theorem mem_connections (p : Projection ℚ n m) (i : Fin n) :
    p.case.connection i ∈ p.case.connections (p.case.pathLink i) :=
  Finset.mem_image_of_mem _ (by simp)

theorem Valid.horizon_pos (hp : p.Valid) (j : Fin m) : 0 < p.initial.H j := by
  obtain ⟨i, hi⟩ := hp.used j
  have hmem : i ∈ (List.finRange n).filter fun i => p.case.pathLink i = j := by simp [hi]
  show 0 < PyFloat.sum _ / _
  rw [sum_rat]
  refine div_pos (List.sum_pos _ ?_ ?_) ?_
  · intro x hx
    obtain ⟨k, -, rfl⟩ := List.mem_map.1 hx
    exact hp.propagation k
  · exact List.ne_nil_of_mem (List.mem_map_of_mem hmem)
  · rw [ofInt_rat, List.length_map]
    exact_mod_cast List.length_pos_of_mem hmem

theorem Valid.leastHorizon_pos (hp : p.Valid) (j : Fin m) : 0 < p.leastHorizon j :=
  lt_min (by norm_num) (hp.horizon_pos j)

theorem Valid.initial_values (hp : p.Valid) : p.Values p.initial where
  srtt := hp.propagation
  base := hp.propagation
  window := hp.window
  saved := hp.window
  residual _ := ⟨le_rfl, zero_lt_one⟩
  interval i := by
    have hW : (0 : ℚ) < p.initial.W i := Int.cast_pos.2 (mss_pos.trans_le (hp.window i))
    have hmss : (0 : ℚ) < MSS := Int.cast_pos.2 mss_pos
    exact div_pos (mul_pos hmss (hp.propagation i)) (mul_pos (by norm_num) hW)
  utilization _ := le_rfl
  horizon _ := min_le_right _ _
  count j := ⟨le_rfl, Int.ofNat_le.2 (hp.counts_pos j)⟩
  ids _ := Finset.empty_subset _
  moments _ := ⟨le_rfl, (zero_mul _).le⟩

/-- What an acknowledgment does to the estimates; a base without support is reset. -/
theorem updateRtt_exact {i : Fin n} {sent qdelay : ℚ}
    (h : updateRtt t i sent qdelay st = some st') :
    ∃ rawR s baseR, rawR = ((⌊t * 1000⌋ - ⌊sent * 1000⌋ : ℤ) : ℚ) / 1000 ∧
      s = st.s i + RTT_GAIN * (rawR - st.s i) ∧ (baseR = s ∨ 0 < baseR) ∧
      st' = { st with
        rawR := Function.update st.rawR i rawR
        s := Function.update st.s i s
        baseR := Function.update st.baseR i baseR } := by
  cases h
  refine ⟨_, _, _, rfl, rfl, ?_, rfl⟩
  simp only [le_rat]
  split
  · exact Or.inl rfl
  · rename_i hpositive
    refine Or.inr (not_le.1 fun hle => hpositive ?_)
    exact Bool.or_eq_true_iff.2 (Or.inr (decide_eq_true hle))

/-- Estimates stay positive: a packet is not acknowledged before it is sent. -/
theorem Values.updateRtt {i : Fin n} {sent qdelay : ℚ} (hv : p.Values st) (hsent : sent ≤ t)
    (h : updateRtt t i sent qdelay st = some st') : p.Values st' := by
  obtain ⟨rawR, s, baseR, hrawR, hs, hbase, rfl⟩ := updateRtt_exact h
  have hraw : 0 ≤ rawR := by
    have hfloor : ⌊sent * 1000⌋ ≤ ⌊t * 1000⌋ := Int.floor_mono (by linarith)
    rw [hrawR]
    exact div_nonneg (Int.cast_nonneg (sub_nonneg.2 hfloor)) (by norm_num)
  have hpos : 0 < s := by
    have := hv.srtt i
    rw [hs]
    unfold RTT_GAIN
    linarith
  have hbase' : 0 < baseR := by
    rcases hbase with rfl | hbase
    · exact hpos
    · exact hbase
  exact { hv with
    srtt := update_range (P := fun _ x => 0 < x) hv.srtt hpos
    base := update_range (P := fun _ x => 0 < x) hv.base hbase' }

theorem Values.additiveIncrease (hp : p.Valid) {i : Fin n} {count a : ℤ} {residual : ℚ}
    (hv : p.Values st) (hraw : 0 ≤ st.rawR i) (hcount : 1 ≤ count)
    (h : p.additiveIncrease i count st = some (a, residual)) :
    0 ≤ a ∧ 0 ≤ residual ∧ residual < 1 := by
  have hcount' : (0 : ℚ) < count := Int.cast_pos.2 (by omega)
  have hexact : 0 ≤ AI_GAIN * p.case.capacity (p.case.pathLink i) / count * st.rawR i :=
    mul_nonneg (div_nonneg (mul_nonneg (by decide +kernel) (hp.capacity _).le) hcount'.le) hraw
  have hfloor : 0 ≤ Truncation.truncate
      (AI_GAIN * p.case.capacity (p.case.pathLink i) / count * st.rawR i) := by
    rw [Truncation.truncate_of_nonneg hexact]
    exact Int.floor_nonneg.2 hexact
  unfold Projection.additiveIncrease at h
  simp only [lit_rat, ofInt_rat, int_rat, Option.bind_eq_bind, Option.bind_some] at h
  split at h
  · have hdue : 0 ≤ (Truncation.truncate
        (AI_GAIN * p.case.capacity (p.case.pathLink i) / count * st.rawR i) : ℚ) *
          weights st.W st.s p.case i + st.residual i :=
      add_nonneg (mul_nonneg (Int.cast_nonneg hfloor) (weights_nonneg hv.window hv.srtt i))
        (hv.residual i).1
    cases h
    rw [Truncation.truncate_of_nonneg hdue]
    exact ⟨Int.floor_nonneg.2 hdue, Int.fract_nonneg _, Int.fract_lt_one _⟩
  · cases h
    exact ⟨hfloor, hv.residual i⟩

theorem Values.updateWindow (hp : p.Valid) {i : Fin n} {u : ℚ} {count : ℤ} (hv : p.Values st)
    (hraw : 0 ≤ st.rawR i) (hcount : 1 ≤ count) (h : p.updateWindow i u count st = some st') :
    p.Values st' := by
  unfold Projection.updateWindow at h
  split at h
  · obtain ⟨⟨a, residual⟩, hincrease, h⟩ := Option.bind_eq_some_iff.1 h
    obtain ⟨target, -, h⟩ := Option.bind_eq_some_iff.1 h
    have hresidual := (hv.additiveIncrease hp hraw hcount hincrease).2
    have hwindow : ∀ target : ℤ, ∀ k, MSS ≤ Function.update st.W i (max MSS target) k :=
      fun target => update_range (P := fun _ w => MSS ≤ w) hv.window (le_max_left _ _)
    have hfraction : ∀ k, 0 ≤ Function.update st.residual i residual k ∧
        Function.update st.residual i residual k < 1 :=
      update_range (P := fun _ r => 0 ≤ r ∧ r < 1) hv.residual hresidual
    simp only at h
    split at h
    · cases h
      exact { hv with
        window := hwindow _
        saved := update_range (P := fun _ w => MSS ≤ w) hv.saved (le_max_left _ _)
        residual := hfraction }
    · cases h
      exact { hv with window := hwindow _, residual := hfraction }
  · cases h
    exact hv

theorem Values.paced (i : Fin n) (hv : p.Values st) : p.Values (paced i st) := by
  have hmss : (0 : ℚ) < MSS := Int.cast_pos.2 mss_pos
  have hW : (0 : ℚ) < (max (st.W i) (st.F i) : ℤ) :=
    Int.cast_pos.2 (lt_max_of_lt_left (mss_pos.trans_le (hv.window i)))
  exact { hv with
    interval := update_range (P := fun _ x => 0 < x) hv.interval
      (div_pos (mul_pos hmss (hv.srtt i)) (mul_pos (by norm_num) hW)) }

/-- The filter mixes non-negative samples. -/
theorem Values.measureUtilization (hp : p.Valid) (j : Fin m) (waiting : ℕ) (hv : p.Values st) :
    p.Values (p.measureUtilization t j waiting st) := by
  have hB := hp.capacity j
  have hH : 0 < st.H j := (hp.leastHorizon_pos j).trans_le (hv.horizon j)
  have hqterm : (0 : ℚ) ≤ ((waiting * p.case.chargedPacketBytes : ℤ) : ℚ) /
      (p.case.capacity j * st.H j) :=
    div_nonneg (Int.cast_nonneg (mul_nonneg (Int.natCast_nonneg _) hp.charged.le))
      (mul_pos hB hH).le
  have hmix : ∀ tau : ℚ, 0 < tau → 0 ≤ (1 - QUEUE_ALPHA) * st.U j + QUEUE_ALPHA *
      (((waiting * p.case.chargedPacketBytes : ℤ) : ℚ) / (p.case.capacity j * st.H j) +
        MSS / (p.case.capacity j * tau)) := by
    intro tau htau
    have hterm : (0 : ℚ) ≤ MSS / (p.case.capacity j * tau) :=
      div_nonneg (Int.cast_nonneg mss_pos.le) (mul_pos hB htau).le
    have hU := hv.utilization j
    have hold : 0 ≤ (1 - QUEUE_ALPHA) * st.U j := mul_nonneg (by decide +kernel) hU
    have hnew := mul_nonneg (a := QUEUE_ALPHA) (by decide +kernel) (add_nonneg hqterm hterm)
    exact add_nonneg hold hnew
  have htau : ∀ last : ℚ, 0 < PyFloat.max (t - last) ((MSS : ℚ) / p.case.capacity j) := by
    intro last
    rw [max_rat]
    exact lt_max_of_lt_right (div_pos (Int.cast_pos.2 mss_pos) hB)
  unfold Projection.measureUtilization
  cases st.last j with
  | none => exact { hv with
      utilization := update_range (P := fun _ u => 0 ≤ u) hv.utilization hqterm }
  | some last =>
    have hmixed := update_range (P := fun _ u => 0 ≤ u) (i := j) hv.utilization
      (hmix _ (htau last))
    simp only
    split
    · exact { hv with utilization := hmixed }
    · exact { hv with utilization := hmixed }

/-- A measurement takes the number of connections seen and the ratio of the moments. -/
theorem Values.measure (hp : p.Valid) (j : Fin m) (hv : p.Values st) :
    p.Values (measure t j st) := by
  unfold Projection.measure
  simp only
  split
  · rename_i hids
    refine { hv with
      horizon := update_range (P := fun j x => p.leastHorizon j ≤ x) hv.horizon ?_
      count := update_range (P := fun j N => 1 ≤ N ∧ N ≤ (p.case.counts j : ℤ)) hv.count ?_
      ids := update_range (P := fun j ids => ids ⊆ p.case.connections j) hv.ids
        (Finset.empty_subset _)
      moments := update_range (f := st.moments)
        (P := fun _ (x : ℚ × ℚ) => 0 ≤ x.1 ∧ x.1 * (1 / 1000000) ≤ x.2) hv.moments
        ⟨le_rfl, (zero_mul _).le⟩ }
    · obtain ⟨-, hmoments⟩ := hv.moments j
      split
      · rename_i hpos
        have hfirst : 0 < (st.moments j).1 := by
          simp only [lt_rat, Bool.and_eq_true, decide_eq_true_eq] at hpos
          exact hpos.1
        refine (min_le_left _ _).trans ?_
        rw [le_div_iff₀ hfirst, mul_comm]
        exact hmoments
      · exact hv.horizon j
    · have hcard : (st.ids j).card ≤ p.case.counts j := Finset.card_le_card (hv.ids j)
      have hone := hp.counts_pos j
      exact ⟨le_max_left _ _, by omega⟩
  · exact { hv with }

/-- An arrival adds a connection of the link and the moments of its packet. -/
theorem Values.arrive {packet : Packet ℚ n} (hstamped : packet.Stamped) (hv : p.Values st) :
    p.Values (p.arrive t (p.case.pathLink packet.subflow) packet st) := by
  obtain ⟨k, hk⟩ := hstamped.base
  have hw : (0 : ℚ) < packet.taggedW := Int.cast_pos.2 hstamped.window
  have hmss : (0 : ℚ) < MSS := Int.cast_pos.2 mss_pos
  have hfirst : 0 ≤ packet.taggedBase * MSS / packet.taggedW := by
    rw [hk]
    positivity
  -- a whole number is at most its square
  have hsquare : packet.taggedBase * (1 / 1000000) ≤ packet.taggedBase ^ 2 := by
    have hle : (k : ℚ) ≤ k ^ 2 := by exact_mod_cast Nat.le_self_pow two_ne_zero k
    rw [hk, mul_pow]
    nlinarith
  have hsecond : packet.taggedBase * MSS / packet.taggedW * (1 / 1000000) ≤
      packet.taggedBase ^ 2 * MSS / packet.taggedW := by
    have hscale := mul_le_mul_of_nonneg_right hsquare (div_pos hmss hw).le
    calc packet.taggedBase * MSS / packet.taggedW * (1 / 1000000)
        = packet.taggedBase * (1 / 1000000) * (MSS / packet.taggedW) := by ring
      _ ≤ packet.taggedBase ^ 2 * (MSS / packet.taggedW) := hscale
      _ = packet.taggedBase ^ 2 * MSS / packet.taggedW := by ring
  refine { hv with
    ids := update_range (P := fun j ids => ids ⊆ p.case.connections j) hv.ids ?_
    moments := update_range (f := st.moments)
      (P := fun _ (x : ℚ × ℚ) => 0 ≤ x.1 ∧ x.1 * (1 / 1000000) ≤ x.2) hv.moments ?_ }
  · exact Finset.insert_subset (p.mem_connections _) (hv.ids _)
  · obtain ⟨hnonneg, hmoments⟩ := hv.moments (p.case.pathLink packet.subflow)
    refine ⟨add_nonneg hnonneg hfirst, ?_⟩
    rw [add_mul]
    exact add_le_add hmoments hsecond

/-! ## Packets and times -/

/-- A pending event is not over and comes at its time. -/
def Due (p : Projection ℚ n m) (now t : ℚ) (kind : EventKind ℚ n m) : Prop :=
  now ≤ t ∧ match kind with
    | .arrival j packet =>
      p.case.pathLink packet.subflow = j ∧ packet.Stamped ∧ packet.sent ≤ now ∧
        t = packet.sent + p.case.propagation packet.subflow / 2
    | .ack packet u count _ =>
      packet.sent + p.case.propagation packet.subflow +
          p.serviceTime (p.case.pathLink packet.subflow) ≤ t ∧
        t ≤ now + p.serviceTime (p.case.pathLink packet.subflow) +
          p.case.propagation packet.subflow / 2 ∧
        0 ≤ u ∧ 1 ≤ count ∧ count ≤ p.case.counts (p.case.pathLink packet.subflow)
    | .finish j => t ≤ now + p.serviceTime j
    | _ => True

/-- A packet in a queue, with the time it arrived. -/
structure Waiting (p : Projection ℚ n m) (now : ℚ) (j : Fin m) (x : Packet ℚ n × ℚ) : Prop where
  link : p.case.pathLink x.1.subflow = j
  stamped : x.1.Stamped
  arrived : x.2 = x.1.sent + p.case.propagation x.1.subflow / 2
  past : x.2 ≤ now

/-- The invariant of every head, `now` being the time of the event before it. -/
structure Sane (p : Projection ℚ n m) (now : ℚ) (st : State ℚ n m) : Prop where
  values : p.Values st
  events : ∀ e ∈ st.events, p.Due now e.t e.kind
  queues : ∀ j, ∀ x ∈ st.queues j, p.Waiting now j x

theorem Due.later {now now' t : ℚ} {kind : EventKind ℚ n m} (h : p.Due now t kind)
    (hnow : now ≤ now') (ht : now' ≤ t) : p.Due now' t kind := by
  refine ⟨ht, ?_⟩
  have hrest := h.2
  cases kind with
  | arrival j packet =>
    obtain ⟨hlink, hstamped, hsent, htime⟩ := hrest
    exact ⟨hlink, hstamped, hsent.trans hnow, htime⟩
  | ack packet u count qdelay =>
    obtain ⟨hearly, hlate, hvalues⟩ := hrest
    exact ⟨hearly, by linarith, hvalues⟩
  | finish j => exact hrest.trans (add_le_add_left hnow _)
  | _ => trivial

/-- **The clock moves to the next event.** -/
theorem Sane.advance {now : ℚ} {e : Event ℚ n m} {events : List (Event ℚ n m)}
    (h : p.Sane now st) (hpop : EventLoop.pop Event.before st.events = some (e, events)) :
    now ≤ e.t ∧ p.Due e.t e.t e.kind ∧ p.Sane e.t { st with events } := by
  have hperm := EventLoop.pop_perm hpop
  have hfirst := Event.pop_key hpop
  have hdue := h.events e (hperm.subset List.mem_cons_self)
  refine ⟨hdue.1, hdue.later hdue.1 le_rfl, { h.values with }, fun f hf => ?_, fun j x hx => ?_⟩
  · have hf' := h.events f (hperm.subset (List.mem_cons_of_mem _ hf))
    exact hf'.later hdue.1 (Event.time_le_of_key_le (hfirst f hf))
  · have hx' := h.queues j x hx
    exact { hx' with past := hx'.past.trans hdue.1 }

theorem Sane.event {kind : EventKind ℚ n m} {due : ℚ} (h : p.Sane t st)
    (hdue : p.Due t due kind) : p.Sane t (st.event due kind) :=
  ⟨{ h.values with }, List.forall_mem_cons.2 ⟨hdue, h.events⟩, h.queues⟩

/-! ## Handlers -/

theorem Values.stamped (hv : p.Values st) (t : ℚ) (i : Fin n) : (stampedPacket t i st).Stamped := by
  have hcode : 0 ≤ ⌊st.baseR i * 1000000 + 1 / 2⌋ := by
    have := hv.base i
    exact Int.floor_nonneg.2 (by positivity)
  refine ⟨⟨⌊st.baseR i * 1000000 + 1 / 2⌋.toNat, ?_⟩, encodeCwndRoundtrip_pos (hv.window i)⟩
  have hcast : ((⌊st.baseR i * 1000000 + 1 / 2⌋.toNat : ℤ) : ℚ) =
      (⌊st.baseR i * 1000000 + 1 / 2⌋ : ℤ) := by rw [Int.toNat_of_nonneg hcode]
  rw [← Int.cast_natCast, hcast]
  rfl

theorem Sane.send (hp : p.Valid) {i : Fin n} (h : p.Sane t st) (hsend : p.send t i st = some st') :
    p.Sane t st' := by
  rcases send_exact hsend with ⟨rfl, -⟩ | ⟨-, -, rfl⟩
  · exact h
  · have hD := hp.propagation i
    refine ⟨{ h.values with }, List.forall_mem_cons.2 ⟨⟨?_, trivial⟩,
      List.forall_mem_cons.2 ⟨⟨?_, rfl, h.values.stamped t i, le_rfl, rfl⟩, h.events⟩⟩, h.queues⟩
    · have := h.values.interval i
      show t ≤ t + st.interval i
      linarith
    · show t ≤ t + p.case.propagation i / 2
      linarith

/-- A service keeps the packet and its time, and returns the utilization it measured. -/
theorem Sane.startService (hp : p.Valid) {j : Fin m} (h : p.Sane t st)
    (hstart : p.startService t j st = some st') : p.Sane t st' := by
  rcases startService_exact hstart with ⟨rfl, -⟩ |
    ⟨packet, arrived, queue, qdelay, -, hqueue, rfl⟩
  · exact h
  · have hvalues := h.values.measureUtilization (t := t) hp j queue.length
    have hfirst := h.queues j (packet, arrived) (hqueue ▸ List.mem_cons_self)
    have hlink : p.case.pathLink packet.subflow = j := hfirst.link
    have harrived : arrived = packet.sent + p.case.propagation packet.subflow / 2 := hfirst.arrived
    have hpast : arrived ≤ t := hfirst.past
    have hservice := hp.serviceTime_pos j
    have hD := hp.propagation packet.subflow
    refine ⟨{ hvalues with }, List.forall_mem_cons.2 ⟨⟨?_, ?_, ?_, hvalues.utilization j, ?_⟩,
      List.forall_mem_cons.2 ⟨⟨?_, le_rfl⟩, h.events⟩⟩, ?_⟩
    · show t ≤ t + p.serviceTime j + p.case.propagation packet.subflow / 2
      linarith
    · rw [hlink]
      show _ ≤ t + p.serviceTime j + p.case.propagation packet.subflow / 2
      linarith
    · rw [hlink]
    · rw [hlink]
      exact h.values.count j
    · show t ≤ t + p.serviceTime j
      linarith
    · refine update_range (P := fun j queue => ∀ x ∈ queue, p.Waiting t j x) h.queues ?_
      intro x hx
      exact h.queues j x (hqueue ▸ List.mem_cons_of_mem _ hx)

theorem Sane.arrive {j : Fin m} {packet : Packet ℚ n} (h : p.Sane t st)
    (hdue : p.Due t t (.arrival j packet)) : p.Sane t (p.arrive t j packet st) := by
  obtain ⟨-, rfl, hstamped, -, htime⟩ := hdue
  refine ⟨h.values.arrive hstamped, h.events, ?_⟩
  refine update_range (P := fun j queue => ∀ x ∈ queue, p.Waiting t j x) h.queues fun x hx => ?_
  rcases List.mem_append.1 hx with hx | hx
  · exact h.queues _ x hx
  · cases List.mem_singleton.1 hx
    exact ⟨rfl, hstamped, htime, le_rfl⟩

/-- After the window rule an acknowledgment sends, and may start the reaction timer. -/
theorem Sane.acknowledge_send (hp : p.Valid) {packet : Packet ℚ n} {u qdelay : ℚ} {count : ℤ}
    (h : p.Sane t st) (hdue : p.Due t t (.ack packet u count qdelay))
    (hack : p.acknowledge t packet u count qdelay st = some st') :
    ∃ st₂ st₃, p.Sane t st₂ ∧ st₂.toTraffic = st.toTraffic.settle packet ∧
      p.send t packet.subflow st₂ = some st₃ ∧
      ((st' = st₃ ∧ st₃.reactScheduled packet.subflow = true) ∨
        (st' = startReaction t packet.subflow st₃ ∧
          st₃.reactScheduled packet.subflow = false)) := by
  obtain ⟨-, hearly, -, -, hcount, -⟩ := hdue
  have hsent : packet.sent ≤ t := by
    have hD := hp.propagation packet.subflow
    have hservice := hp.serviceTime_pos (p.case.pathLink packet.subflow)
    linarith
  obtain ⟨st₁, st₂, st₃, h₁, h₂, h₃, hlast⟩ := acknowledge_split hack
  have hvalues : p.Values { st with toTraffic := st.toTraffic.settle packet } :=
    { h.values with }
  have hvalues₁ := hvalues.updateRtt hsent h₁
  have hraw : 0 ≤ st₁.rawR packet.subflow := by
    obtain ⟨rawR, s, baseR, hrawR, -, -, rfl⟩ := updateRtt_exact h₁
    have hfloor : ⌊packet.sent * 1000⌋ ≤ ⌊t * 1000⌋ := Int.floor_mono (by linarith)
    show 0 ≤ Function.update st.rawR packet.subflow rawR packet.subflow
    rw [Function.update_self, hrawR]
    exact div_nonneg (Int.cast_nonneg (sub_nonneg.2 hfloor)) (by norm_num)
  have hvalues₂ := (hvalues₁.updateWindow hp hraw hcount h₂).paced packet.subflow
  have htraffic : (paced packet.subflow st₂).toTraffic = st.toTraffic.settle packet :=
    (updateWindow_toTraffic h₂).trans (updateRtt_toTraffic h₁)
  refine ⟨_, st₃, ⟨hvalues₂, ?_, ?_⟩, htraffic, h₃, hlast⟩
  · rw [htraffic]
    exact h.events
  · rw [htraffic]
    exact h.queues

theorem Sane.acknowledge (hp : p.Valid) {packet : Packet ℚ n} {u qdelay : ℚ} {count : ℤ}
    (h : p.Sane t st) (hdue : p.Due t t (.ack packet u count qdelay))
    (hack : p.acknowledge t packet u count qdelay st = some st') : p.Sane t st' := by
  obtain ⟨st₂, st₃, hsane₂, -, hsend, hlast⟩ := h.acknowledge_send hp hdue hack
  have hsane₃ := hsane₂.send hp hsend
  rcases hlast with ⟨rfl, -⟩ | ⟨rfl, -⟩
  · exact hsane₃
  · have hreact : p.Due t (t + st₃.s packet.subflow) (.react packet.subflow) := by
      have := hsane₃.values.srtt packet.subflow
      exact ⟨by linarith, trivial⟩
    have hflag : p.Sane t { st₃ with
        reactScheduled := Function.update st₃.reactScheduled packet.subflow true } :=
      ⟨{ hsane₃.values with }, hsane₃.events, hsane₃.queues⟩
    exact hflag.event hreact

/-- **One event keeps the invariant, whichever event is due.** -/
theorem Sane.handle (hp : p.Valid) {kind : EventKind ℚ n m} (h : p.Sane t st)
    (hdue : p.Due t t kind) (hhandle : p.handle t kind st = some st') : p.Sane t st' := by
  cases kind with
  | arrival j packet => exact (h.arrive hdue).startService hp hhandle
  | finish j =>
    have hfree : p.Sane t { st with busy := Function.update st.busy j false } :=
      ⟨{ h.values with }, h.events, h.queues⟩
    exact hfree.startService hp hhandle
  | pace i =>
    have hfree : p.Sane t { st with pace := Function.update st.pace i false } :=
      ⟨{ h.values with }, h.events, h.queues⟩
    exact hfree.send hp hhandle
  | measurement j =>
    cases hhandle
    have hvalues := h.values.measure (t := t) hp j
    obtain ⟨N, H, ids, moments, hmeasure⟩ := measure_exact t j st
    rw [hmeasure] at hvalues ⊢
    have hmeasured : p.Sane t { st with N, H, ids, moments } :=
      ⟨{ hvalues with }, h.events, h.queues⟩
    have hH : 0 < H j := (hp.leastHorizon_pos j).trans_le (hvalues.horizon j)
    exact hmeasured.event ⟨by linarith, trivial⟩
  | react i =>
    cases hhandle
    have hcommit : p.Sane t { st with commit := Function.update st.commit i true } :=
      ⟨{ h.values with }, h.events, h.queues⟩
    have := h.values.srtt i
    exact hcommit.event ⟨show t ≤ t + st.s i by linarith, trivial⟩
  | ack packet u count qdelay => exact h.acknowledge hp hdue hhandle
  | record =>
    cases hhandle
    have hrow : p.Sane t { st with rows := (p.recordRow t st).rows } :=
      ⟨{ h.values with }, h.events, h.queues⟩
    exact hrow.event ⟨show t ≤ t + 1 / 100 by norm_num, trivial⟩

/-! ## Every head -/

theorem Valid.start_sane (hp : p.Valid) (h : p.start = some st) : p.Sane 0 st := by
  refine start_induct ⟨hp.initial_values, fun e he => absurd he List.not_mem_nil,
    fun j x hx => absurd hx List.not_mem_nil⟩ (fun st j hst => ?_)
    (fun st st' i hst hsend => hst.send hp hsend) (fun st hst => hst.event ⟨le_rfl, trivial⟩) h
  have hH := (hp.leastHorizon_pos j).trans_le (hst.values.horizon j)
  exact hst.event ⟨hH.le, trivial⟩

/-- An iteration keeps the invariant and does not move the clock back. -/
theorem Sane.clocked (hp : p.Valid) {now now' : ℚ} (h : p.Sane now st)
    (hiter : EventLoop.clocked nextTime p.iteration (now, st) = some (now', st')) :
    now ≤ now' ∧ p.Sane now' st' := by
  obtain ⟨e, events, hpop, rfl, -, hhandle⟩ := clocked_exact hiter
  obtain ⟨hnow, hdue, hsane⟩ := h.advance hpop
  exact ⟨hnow, hsane.handle hp hdue hhandle⟩

theorem Valid.clockedStart_sane (hp : p.Valid) {head : ℚ × State ℚ n m}
    (h : (p.start.map fun st => (0, st)) = some head) : p.Sane head.1 head.2 := by
  obtain ⟨st, hst, rfl⟩ := Option.map_eq_some_iff.1 h
  exact hp.start_sane hst

end Projection

open Projection in
/-- **Every head is sane.**  Estimates are positive, windows hold a segment, residuals are
fractions, utilizations are not negative and no link counts more connections than cross it; a
pending arrival comes half the propagation delay after its send, an acknowledgment at least the
propagation delay and the service time after; and the clock never goes back. -/
theorem projection_sane (p : Projection ℚ n m) (hp : p.Valid) {k l : ℕ} (hkl : k ≤ l) {now now' : ℚ}
    {st st' : State ℚ n m} (hk : p.clockedHead k = some (now, st))
    (hl : p.clockedHead l = some (now', st')) : p.Sane now st ∧ now ≤ now' := by
  have hstep : ∀ head head' : ℚ × State ℚ n m, p.Sane head.1 head.2 →
      EventLoop.clocked nextTime p.iteration head = some head' → p.Sane head'.1 head'.2 :=
    fun _ _ hsane hiter => (hsane.clocked hp hiter).2
  constructor
  · exact EventLoop.heads_inv (fun head : ℚ × State ℚ n m => p.Sane head.1 head.2)
      (fun _ => hp.clockedStart_sane) hstep k _ hk
  · exact EventLoop.heads_rel (fun head : ℚ × State ℚ n m => p.Sane head.1 head.2)
      (R := fun head head' => head.1 ≤ head'.1) (fun _ => le_rfl) (fun _ _ _ => le_trans)
      (fun _ => hp.clockedStart_sane) hstep (fun _ _ hsane hiter => (hsane.clocked hp hiter).1)
      hkl hk hl

theorem onePath_valid : onePath.Valid where
  capacity := by decide +kernel
  propagation := by decide +kernel
  charged := by decide
  used := by decide
  window := by decide +kernel

/-- From the start to the first acknowledgment. -/
theorem projection_sane_one_path :
    ∃ now now' st st', onePath.clockedHead 0 = some (now, st) ∧
      onePath.clockedHead 17 = some (now', st') ∧ onePath.Sane now st ∧ now ≤ now' := by
  have hsome : (onePath.clockedHead 17).isSome = true := by decide +kernel
  obtain ⟨⟨now', st'⟩, h'⟩ := Option.isSome_iff_exists.1 hsome
  obtain ⟨⟨now, st⟩, h⟩ := EventLoop.heads_of_le (Nat.zero_le 17) h'
  exact ⟨now, now', st, st', h, h', projection_sane onePath onePath_valid (Nat.zero_le 17) h h'⟩

end MpOrb.FluidModel
