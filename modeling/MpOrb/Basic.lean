import Mathlib.Data.Rat.Defs
import Mathlib.Algebra.Order.Ring.Rat

/-!
# Simulation time, timers and machine integers

* `SimTime` — `simtime_t`, in seconds.  The tick rounding of the simulator is abstracted away;
  `SIMTIME_MAX` is the largest time at its default picosecond resolution.
* `UINT32_MAX` — `std::numeric_limits<uint32_t>::max()`.
* `SocketId` — the 32-bit socket id under which `MpOrb::createSubflowConnection` registers a
  subflow; the model names a `SubflowConnection *` by it.
* `SimError` — what ends a simulation: the errors of `scheduleAt` and a `cRuntimeError`.
* `scheduleAt` — the simulator's rule: a timer is scheduled once and never in the past.
-/

set_option autoImplicit false

namespace MpOrb

/-- OMNeT++'s `simtime_t`, in seconds. -/
abbrev SimTime := ℚ

def SIMTIME_ZERO : SimTime := 0

/-- The largest number of picoseconds in 64 bits. -/
def SIMTIME_MAX : SimTime := (2 ^ 63 - 1) / 10 ^ 12

def UINT32_MAX : ℕ := 2 ^ 32 - 1

/-- What tells subflows apart. -/
abbrev SocketId := BitVec 32

/-- The errors of `scheduleAt`, and `cRuntimeError`. -/
inductive SimError where
  | backInTime
  | alreadyScheduled
  | runtime (message : String)
  deriving DecidableEq

/-- A timer is `none` while idle and carries its arrival time while scheduled. -/
def scheduleAt (now arrival : SimTime) (timer : Option SimTime) :
    Except SimError (Option SimTime) :=
  if arrival < now then .error .backInTime
  else if timer.isSome then .error .alreadyScheduled
  else .ok (some arrival)

theorem scheduleAt_idle {now arrival : SimTime} (h : now ≤ arrival) :
    scheduleAt now arrival none = .ok (some arrival) := by
  unfold scheduleAt
  rw [if_neg (not_lt.2 h)]
  rfl

end MpOrb
