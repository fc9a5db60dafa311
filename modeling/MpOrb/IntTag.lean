import MpOrb.Basic
import MpOrb.Lib.Double

/-!
# In-band telemetry records

`IntData` is one hop's record, restricted to the fields that this repository reads or writes; an
`IntDataVec` is what an ACK returns, the bottleneck's record first.  `IntTag` adds what the sender
tells the hops.
-/

set_option autoImplicit false

namespace MpOrb

/-- A record of in-band telemetry, as far as the subflow reads it. -/
structure IntData where
  hopId : ℤ
  B : ℚ
  pintUtilization : Double
  ts : SimTime
  pathDigest : BitVec 32
  queueingDelayCode : ℕ
  reverseQueueingDelayCode : ℕ
  separateQueueingDelay : Bool
  deriving DecidableEq

abbrev IntDataVec := List IntData

/-- The INT tag of a segment. -/
structure IntTag where
  intData : IntDataVec := []
  connId : ℕ := 0
  rtt : SimTime := SIMTIME_ZERO
  cwnd : UInt32 := 0
  pintBaseRttCode : ℕ := 0
  pintCwndCode : ℕ := 0
  initialPhase : Bool := false
  retrans : Bool := false

end MpOrb
