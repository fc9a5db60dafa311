import MpOrb.Lib.Ageing
import MpOrb.Lib.Double
import MpOrb.Basic
import MpOrb.Lib.FirstBest
import MpOrb.Scheduler
import MpOrb.Ranking
import MpOrb.Lib.Machine
import MpOrb.Starvation
import MpOrb.Admission
import MpOrb.DeltaShuffle
import MpOrb.DeltaQueue
import MpOrb.Lib.Batching
import MpOrb.Lib.Vouchers
import MpOrb.Lib.WeightedMean
import MpOrb.DeltaRounds
import MpOrb.DeltaFairness
import MpOrb.Lib.Truncation
import MpOrb.IntTag
import MpOrb.DeltaSender
import MpOrb.DeltaPath
import MpOrb.DeltaLedger
import MpOrb.DeltaNetwork
import MpOrb.DeltaBottleneck
import MpOrb.DeltaAlpha
import MpOrb.Telemetry
import MpOrb.Subflow
import MpOrb.EchoCoherence
import MpOrb.DelayedAck
import MpOrb.Lib.LeastCost
import MpOrb.Failover
import MpOrb.Selection
import MpOrb.Coupling
import MpOrb.Lib.Carry
import MpOrb.AlphaCredit
import MpOrb.Lib.Shares
import MpOrb.AlphaBudget
import MpOrb.Lib.Champion
import MpOrb.Lib.Tolerance
import MpOrb.Olia
import MpOrb.OliaBestPath
import MpOrb.Lib.BalancedTransfer
import MpOrb.OliaTransfer
import MpOrb.Lib.LocalUpdates
import MpOrb.CouplingOrder
import MpOrb.Omega
import MpOrb.OmegaRuns
import MpOrb.Lib.Fibers
import MpOrb.DeltaPacketisation
import MpOrb.Lib.Contraction
import MpOrb.DeltaConvergence
import MpOrb.DeltaStamps
import MpOrb.Lib.EventLoop
import MpOrb.FluidModel
import MpOrb.PacketProjection
import MpOrb.PacketConservation
import MpOrb.Lib.Bisection
import MpOrb.Lib.PoleSum
import MpOrb.Equilibrium
import MpOrb.Lib.Significand
import MpOrb.WindowCodec
import MpOrb.AlphaAgreement
import MpOrb.ProjectionClock
import MpOrb.ProjectionRanges
import MpOrb.ProjectionCapacity
import MpOrb.ProjectionOrder
import MpOrb.ProjectionTermination
import MpOrb.ProjectionRows
import MpOrb.RealFloat
import MpOrb.Fluid
import MpOrb.FluidEquilibrium
import MpOrb.FluidRates
import MpOrb.Lib.RungeKutta
import MpOrb.FluidRuns
import MpOrb.Lib.Dither
import MpOrb.QuantizedFeedback
