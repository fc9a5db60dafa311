import Mathlib.Algebra.Order.Floor.Ring
import Mathlib.Tactic.Linarith

/-!
# Paying in whole units with a carry

An exact amount is due; only whole units are paid, and the fraction is carried to the next payment.

* `pay carry due` — what is paid and what is carried on.
* `pay_add` — nothing is lost or invented; `carry_nonneg`, `carry_lt_one` — the new carry is a
  fraction.
* `paid_le` — a payment with a fraction carried stays within whole bounds of what is due.
-/

set_option autoImplicit false

namespace Carry

variable {K : Type*} [Field K] [LinearOrder K] [FloorRing K]

/-- Pay the whole part of what is due and carried; carry the fraction. -/
def pay (carry due : K) : ℤ × K := (⌊due + carry⌋, Int.fract (due + carry))

theorem pay_add (carry due : K) : ((pay carry due).1 : K) + (pay carry due).2 = due + carry :=
  Int.floor_add_fract (due + carry)

variable [IsStrictOrderedRing K]

theorem carry_nonneg (carry due : K) : 0 ≤ (pay carry due).2 := Int.fract_nonneg _

theorem carry_lt_one (carry due : K) : (pay carry due).2 < 1 := Int.fract_lt_one _

variable {carry due : K}

/-- A fraction never lifts a payment above a whole bound of what is due. -/
theorem paid_le {n : ℤ} (hcarry : carry < 1) (hdue : due ≤ n) : (pay carry due).1 ≤ n := by
  apply Int.lt_add_one_iff.1
  apply Int.floor_lt.2
  push_cast
  linarith

end Carry
