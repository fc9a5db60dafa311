import MpOrb.RealFloat

/-!
# The fluid integration

`fluid` of `orbcc-fluid-model`: windows, queues, utilizations and smoothed round-trip times as a
system of differential equations, integrated with the classical Runge–Kutta method.

* `Entry` — the entries of the state vector; `Quantities` — what is computed from it.
* `rhs` — the right-hand side; `rk4`, `clamp`, `advance` — one step of the integration.
* `stateAt` — the state before every step; `fluid` — the rows.
-/

set_option autoImplicit false

namespace MpOrb.FluidModel

open PyFloat

/-- The entries of the state vector `z`: `W_i, Q_l, u_l, smoothedRTT_i`. -/
inductive Entry (n m : ℕ) where
  | W (subflow : Fin n)
  | Q (link : Fin m)
  | u (link : Fin m)
  | s (subflow : Fin n)

/-- What `quantities` returns. -/
structure Quantities (K : Type) (n m : ℕ) where
  W : Fin n → K
  Q : Fin m → K
  R : Fin n → K
  x : Fin n → K
  incoming : Fin m → K
  service : Fin m → K
  H : Fin m → K

/-- A row of the result. -/
structure FluidRow (K : Type) (n m : ℕ) where
  t : K
  x : Fin n → K
  W : Fin n → K
  Q : Fin m → K
  u : Fin m → K

section Code

variable {K : Type} [NumPy K] {n m : ℕ} (case : Case K n m)

/-- `weights` of an array of floats. -/
def floatWeights (window srtt : Fin n → K) (i : Fin n) : K :=
  let rate (k : Fin n) : K := window k / srtt k
  if !case.alpha then lit 1
  else rate i / PyFloat.sum
    (((List.finRange n).filter fun k => case.connection k = case.connection i).map rate)

/-- The integer windows of the packet projection have the same weights. -/
example (window : Fin n → ℤ) (srtt : Fin n → K) :
    weights window srtt case = floatWeights case (fun i => ofInt (window i)) srtt := rfl

/-- The payload's part of the bytes on the wire. -/
def kappa : K := ofInt MSS / ofInt case.chargedPacketBytes

/-- A row of `incidence @ v`. -/
def incident (v : Fin n → K) (j : Fin m) : K :=
  PyFloat.sum ((List.finRange n).map fun i =>
    (if case.pathLink i = j then lit 1 else lit 0) * v i)

/-- Delays, rates and link loads at a state. -/
def quantities (y : Entry n m → K) : Quantities K n m :=
  let B := case.capacity
  let D := case.propagation
  let W (i : Fin n) := NumPy.maximum (y (.W i)) (ofInt MSS)
  let Q (j : Fin m) := NumPy.maximum (y (.Q j)) (lit 0)
  let R (i : Fin n) := D i + Q (case.pathLink i) / B (case.pathLink i)
  let x (i : Fin n) := W i / R i
  let incoming := incident case x
  { W, Q, R, x, incoming
    service := fun j =>
      if lt (lit 0) (Q j) then kappa case * B j
      else NumPy.minimum (incoming j) (kappa case * B j)
    H := fun j => incident case (fun i => x i * D i * D i / W i) j /
      incident case (fun i => x i * D i / W i) j }

/-- The right-hand side: windows, queues, utilization filters and smoothed delays. -/
def rhs (y : Entry n m → K) : Entry n m → K :=
  let q := quantities case y
  let B := case.capacity
  let link := case.pathLink
  let N (j : Fin m) : K := ofInt (case.counts j)
  let s (i : Fin n) := NumPy.maximum (y (.s i)) (lit (1 / 10 ^ 9))
  let U (j : Fin m) := NumPy.maximum (y (.u j)) (lit (1 / 10 ^ 12))
  let w := floatWeights case q.W s
  fun
  | .W i =>
    let A := lit AI_GAIN * B (link i) / N (link i) * q.R i * w i
    let decrease := q.W i * NumPy.maximum (lit 0) (lit 1 - lit ETA / U (link i))
    let dW := (A - decrease) / s i
    if le (q.W i) (ofInt MSS) && lt dW (lit 0) then lit 0 else dW
  | .Q j =>
    let dQ := (q.incoming j - q.service j) / kappa case
    if le (q.Q j) (lit 0) && lt dQ (lit 0) then lit 0 else dQ
  | .u j =>
    let sample := q.service j / B j + q.Q j / (B j * q.H j)
    let kU := -NumPy.log1p (-lit QUEUE_ALPHA) * q.service j / ofInt MSS
    kU * (sample - U j)
  | .s i =>
    let kR := -NumPy.log1p (-lit RTT_GAIN) * q.x i / ofInt MSS
    kR * (q.R i - s i)

/-- One step of the classical Runge–Kutta method. -/
def rk4 (f : (Entry n m → K) → Entry n m → K) (dt : K) (z : Entry n m → K) : Entry n m → K :=
  let k₁ := f z
  let k₂ := f fun e => z e + dt / lit 2 * k₁ e
  let k₃ := f fun e => z e + dt / lit 2 * k₂ e
  let k₄ := f fun e => z e + dt * k₃ e
  fun e => z e + dt / lit 6 * (k₁ e + lit 2 * k₂ e + lit 2 * k₃ e + k₄ e)

/-- Windows keep a segment and queues are not negative. -/
def clamp (z : Entry n m → K) : Entry n m → K
  | .W i => NumPy.maximum (z (.W i)) (ofInt MSS)
  | .Q j => NumPy.maximum (z (.Q j)) (lit 0)
  | .u j => z (.u j)
  | .s i => z (.s i)

/-- One step of the integration. -/
def advance (dt : K) (z : Entry n m → K) : Entry n m → K := clamp (rk4 (rhs case) dt z)

/-- Empty queues, half utilization, windows at their fraction of the bandwidth-delay product. -/
def startState : Entry n m → K
  | .W i => case.initialFraction i * case.capacity (case.pathLink i) * case.propagation i
  | .Q _ => lit 0
  | .u _ => lit (1 / 2)
  | .s i => case.propagation i

/-- The state at a step. -/
def stateAt (dt : K) (step : ℕ) : Entry n m → K := (advance case dt)^[step] (startState case)

/-- The row of a step. -/
def fluidRow (dt : K) (step : ℕ) : FluidRow K n m :=
  let z := stateAt case dt step
  let q := quantities case z
  { t := ofInt step * dt, x := q.x, W := q.W, Q := q.Q, u := fun j => z (.u j) }

/-- `record_step` is `0.01` unless it is given; `none` is where `round` raises. -/
def fluid (duration dt : K) (recordStep : K := lit (1 / 100)) : Option (List (FluidRow K n m)) := do
  let stride ← NumPy.round (recordStep / dt)
  let stride := Max.max 1 stride
  let steps ← NumPy.round (duration / dt)
  return ((List.range (steps + 1).toNat).filter fun (step : ℕ) =>
    (step : ℤ) % stride = 0 || (step : ℤ) = steps).map (fluidRow case dt)

end Code

end MpOrb.FluidModel
