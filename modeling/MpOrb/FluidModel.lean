import MpOrb.Lib.Truncation
import Mathlib.Algebra.BigOperators.Fin
import Mathlib.Data.Rat.Floor

/-!
# Cases of the OrbCC fluid model

What the fluid integration and the packet projection of `orbcc-fluid-model` share.  Their arithmetic
is a parameter: nothing is assumed of the operations on floats.

* `PyFloat` — Python's floats as far as the model computes with them; the rationals are an instance.
* `Case` — `n` subflows over `m` links; `counts` — how many connections cross each link.
* `weights` — the Alpha weight of every subflow.
* `encodeCwndRoundtrip` — a window behind the sender codec.
-/

set_option autoImplicit false

namespace MpOrb.FluidModel

/-! ## Arithmetic -/

/-- Python's `float`.  `floor`, `ceil`, `int` and `log` can raise; `astype` is NumPy's
conversion. -/
class PyFloat (R : Type) extends Add R, Sub R, Mul R, Div R where
  /-- The float of a literal or of an `int`. -/
  lit : ℚ → R
  lt : R → R → Bool
  eq : R → R → Bool
  isnan : R → Bool
  floor : R → Option ℤ
  ceil : R → Option ℤ
  int : R → Option ℤ
  astype : R → ℤ
  log : R → R → Option R
  pow : R → ℤ → R

namespace PyFloat

variable {R : Type} [PyFloat R]

/-- `x <= y`, false on `nan`. -/
def le (x y : R) : Bool := lt x y || eq x y

def ofInt (k : ℤ) : R := lit k

/-- `max(x, y)` keeps its first argument unless the second is greater. -/
def max (x y : R) : R := if lt x y then y else x

/-- `sum`, from the left. -/
def sum (l : List R) : R := l.foldl (· + ·) (lit 0)

/-- `np.mean`; of nothing it is `0/0`. -/
def mean (l : List R) : R := sum l / ofInt l.length

end PyFloat

/-- Exact arithmetic, without logarithms. -/
instance : PyFloat ℚ where
  lit x := x
  lt x y := decide (x < y)
  eq x y := decide (x = y)
  isnan _ := false
  floor x := some ⌊x⌋
  ceil x := some ⌈x⌉
  int x := some (Truncation.truncate x)
  astype x := Truncation.truncate x
  log _ _ := none
  pow x k := x ^ k

namespace PyFloat

@[simp] theorem lit_rat (x : ℚ) : (lit x : ℚ) = x := rfl

@[simp] theorem ofInt_rat (k : ℤ) : (ofInt k : ℚ) = k := rfl

@[simp] theorem lt_rat (x y : ℚ) : lt x y = decide (x < y) := rfl

@[simp] theorem int_rat (x : ℚ) : int x = some (Truncation.truncate x) := rfl

theorem le_rat (x y : ℚ) : le x y = decide (x ≤ y) := by
  show (decide (x < y) || decide (x = y)) = _
  rw [← Bool.decide_or]
  exact decide_eq_decide.2 le_iff_lt_or_eq.symm

theorem max_rat (x y : ℚ) : PyFloat.max x y = Max.max x y := by
  unfold PyFloat.max
  rw [lt_rat, max_def_lt]
  simp

theorem sum_rat (l : List ℚ) : PyFloat.sum l = l.sum := List.sum_eq_foldl.symm

theorem sum_finRange {k : ℕ} (f : Fin k → ℚ) :
    PyFloat.sum ((List.finRange k).map f) = ∑ i, f i := by
  rw [sum_rat, Fin.sum_univ_def]

end PyFloat

/-! ## Cases -/

/-- Bytes of a segment. -/
def MSS : ℤ := 1448

/-- The target utilization. -/
def ETA : ℚ := 95 / 100

/-- The additive increase as a fraction of the link. -/
def AI_GAIN : ℚ := 5 / 100

/-- The gain of the utilization filter. -/
def QUEUE_ALPHA : ℚ := 3 / 100

/-- The gain of the round-trip estimates. -/
def RTT_GAIN : ℚ := 125 / 1000

/-- Links, subflows with the link of each, and the switches of the model. -/
structure Case (R : Type) (n m : ℕ) where
  capacity : Fin m → R
  pathLink : Fin n → Fin m
  connection : Fin n → ℤ
  propagation : Fin n → R
  initialFraction : Fin n → R
  alpha : Bool := true
  chargedPacketBytes : ℤ := MSS

/-- The connections with a subflow on a link. -/
def Case.connections {R : Type} {n m : ℕ} (case : Case R n m) (j : Fin m) : Finset ℤ :=
  (Finset.univ.filter fun i => case.pathLink i = j).image case.connection

/-- How many there are; the code keeps the numbers as floats. -/
def Case.counts {R : Type} {n m : ℕ} (case : Case R n m) (j : Fin m) : ℕ :=
  (case.connections j).card

section Weights

open PyFloat

variable {R : Type} [PyFloat R] {n m : ℕ}

/-- The Alpha weight: the subflow's part of the rate of its connection. -/
def weights (window : Fin n → ℤ) (srtt : Fin n → R) (case : Case R n m) (i : Fin n) : R :=
  let rate (k : Fin n) : R := ofInt (window k) / srtt k
  if !case.alpha then lit 1
  else rate i / PyFloat.sum
    (((List.finRange n).filter fun k => case.connection k = case.connection i).map rate)

end Weights

/-! ## The window codec -/

/-- `int.bit_length`. -/
def bitLength (w : ℕ) : ℕ := if w = 0 then 0 else w.log2 + 1

/-- 5 exponent and 11 fraction bits. -/
def encodeCwndRoundtrip (w : ℤ) : ℤ :=
  if w ≤ 2047 then w
  else
    let shift := bitLength w.toNat - 12
    let significand := (w.toNat + (1 <<< shift) / 2) >>> shift
    if 4095 < significand then ((significand >>> 1) <<< (shift + 1) : ℕ)
    else (significand <<< shift : ℕ)

end MpOrb.FluidModel
