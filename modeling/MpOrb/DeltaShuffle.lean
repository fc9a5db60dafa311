import MpOrb.Basic

/-!
# The link measurement and the telemetry tag of the Delta shuffle

Rates are payload bytes per second, exact rationals: on them `std::isfinite` always holds.

* `LinkShuffle` — one link's accumulators.  `beginRound` keeps the total mass and the mean of the
  round that ends and clears the accumulators; `observe` adds a packet.
* `rateCorrection` — the sender's fairness correction; without a previous mean it is zero.
* `DeltaShuffleTag` — the telemetry of one packet.  `serial` is an `unsigned long long`.
* `SameStamp` — two tags are equal up to the feedback that queues write.
-/

set_option autoImplicit false

namespace MpOrb

/-- The totals of the running round and what the round before left. -/
structure LinkShuffle where
  epoch : ℤ := -1
  mass : ℚ := 0
  rateMass : ℚ := 0
  previousMass : ℚ := 0
  previousMeanRate : ℚ := 0
  deriving DecidableEq

namespace LinkShuffle

/-- A new epoch clears the totals; they are kept as feedback if it is the next one. -/
def beginRound (link : LinkShuffle) (nextEpoch : ℤ) : LinkShuffle :=
  if nextEpoch ≠ link.epoch then
    let adjacent := nextEpoch = link.epoch + 1 ∧ 0 < link.mass
    { epoch := nextEpoch
      mass := 0
      rateMass := 0
      previousMass := if adjacent then link.mass else 0
      previousMeanRate := if adjacent then link.rateMass / link.mass else 0 }
  else link

/-- A packet adds its mass and its mass-weighted connection rate. -/
def observe (link : LinkShuffle) (packetMass connectionRate : ℚ) : LinkShuffle :=
  { link with
    mass := link.mass + packetMass
    rateMass := link.rateMass + packetMass * connectionRate }

/-- The accumulators after several packets. -/
def accumulate (link : LinkShuffle) (mass rateMass : ℚ) : LinkShuffle :=
  { link with
    mass := link.mass + mass
    rateMass := link.rateMass + rateMass }

theorem accumulate_accumulate (link : LinkShuffle) (mass rateMass mass' rateMass' : ℚ) :
    (link.accumulate mass rateMass).accumulate mass' rateMass' =
      link.accumulate (mass + mass') (rateMass + rateMass') := by
  simp [accumulate, add_assoc]

/-- After a round with an observation the next one is fed its totals. -/
theorem beginRound_busy {link : LinkShuffle} (h : 0 < link.mass) :
    link.beginRound (link.epoch + 1) =
      ⟨link.epoch + 1, 0, 0, link.mass, link.rateMass / link.mass⟩ := by
  simp [beginRound, h]

/-- After a round without an observation the next one is fed nothing. -/
theorem beginRound_idle {link : LinkShuffle} (h : ¬ 0 < link.mass) :
    link.beginRound (link.epoch + 1) = ⟨link.epoch + 1, 0, 0, 0, 0⟩ := by
  simp [beginRound, h]

end LinkShuffle

/-- The rate a packet moves: its part of the allowance, by how far its connection is from the mean.
-/
def rateCorrection (mass allowance X meanX : ℚ) : ℚ :=
  if 0 < meanX then mass * allowance * (1 - X / meanX) else 0

/-- The sender writes the rates and the serial, the bottleneck the feedback, the receiver `echoed`.
-/
structure DeltaShuffleTag where
  subflowRate : ℚ := 0
  connectionRate : ℚ := 0
  serial : ℕ := 0
  hops : ℕ := 0
  bottleneckId : ℤ := -1
  echoed : Bool := false
  meanConnectionRate : ℚ := 0
  rateAllowance : ℚ := 0
  packetMass : ℚ := 0
  deriving DecidableEq

/-- The correction the sender reads off a returned tag. -/
def DeltaShuffleTag.correction (tag : DeltaShuffleTag) : ℚ :=
  rateCorrection tag.packetMass tag.rateAllowance tag.connectionRate tag.meanConnectionRate

/-- The receiver's echo of a tag. -/
def DeltaShuffleTag.echo (tag : DeltaShuffleTag) : DeltaShuffleTag := { tag with echoed := true }

/-- The tag still is what its sender stamped, up to the feedback. -/
structure SameStamp (sent tag : DeltaShuffleTag) : Prop where
  subflowRate : tag.subflowRate = sent.subflowRate
  connectionRate : tag.connectionRate = sent.connectionRate
  serial : tag.serial = sent.serial
  echoed : tag.echoed = sent.echoed

theorem SameStamp.refl (tag : DeltaShuffleTag) : SameStamp tag tag := ⟨rfl, rfl, rfl, rfl⟩

theorem SameStamp.trans {a b c : DeltaShuffleTag} (h : SameStamp a b) (h' : SameStamp b c) :
    SameStamp a c :=
  ⟨h'.subflowRate.trans h.subflowRate, h'.connectionRate.trans h.connectionRate,
    h'.serial.trans h.serial, h'.echoed.trans h.echoed⟩

end MpOrb
