import Mathlib.Data.Rat.Defs
import Mathlib.Algebra.Order.Ring.Rat
import Mathlib.Tactic.Common

/-!
# Doubles with exact finite arithmetic

`Double` has the special values of an IEEE double, NaN and the two infinities, over exact
rationals.  It keeps what a program can observe about them: every ordered comparison with NaN is
false, `isFinite` is false on the special values, and `std::min` returns the first of the smallest
arguments, so NaN may win or lose depending on its place.

* `Double.fin_lt_fin`, `Double.fin_le_fin`, `Double.min_fin`, `Double.max_fin` — finite doubles
  compare as rationals.
* `Double.min_max_fin` — a value between a finite floor and a finite ceiling is finite.
* `Double.isFinite_iff` — a finite double is a rational.
* `Double.lt_min3` — a bound below all three arguments is below their minimum.
-/

set_option autoImplicit false

/-- A double: a special value or a rational. -/
inductive Double where
  | nan
  | negInf
  | fin (q : ℚ)
  | posInf
  deriving DecidableEq

namespace Double

/-- `a < b`. -/
def lt : Double → Double → Bool
  | .nan, _ => false
  | _, .nan => false
  | .negInf, .negInf => false
  | .negInf, _ => true
  | _, .negInf => false
  | .posInf, _ => false
  | .fin _, .posInf => true
  | .fin p, .fin q => decide (p < q)

/-- `a <= b`, which is not the negation of `b < a` on NaN. -/
def le (a b : Double) : Bool := lt a b || (decide (a = b) && decide (a ≠ .nan))

/-- `std::isfinite`. -/
def isFinite : Double → Bool
  | .fin _ => true
  | _ => false

/-- The rational value of a finite double. -/
def toRat : Double → ℚ
  | .fin q => q
  | _ => 0

/-- `std::min(a, b)`: `b` only if it is smaller. -/
def min (a b : Double) : Double := if lt b a then b else a

/-- `std::max(a, b)`: `b` only if it is larger. -/
def max (a b : Double) : Double := if lt a b then b else a

/-- `std::min({a, b, c})`. -/
def min3 (a b c : Double) : Double := min (min a b) c

@[simp] theorem fin_lt_fin (p q : ℚ) : lt (.fin p) (.fin q) = decide (p < q) := rfl

theorem fin_le_fin (p q : ℚ) : le (.fin p) (.fin q) = decide (p ≤ q) := by
  unfold le
  rcases lt_trichotomy p q with h | rfl | h
  · simp [h, h.le]
  · simp
  · simp [h.not_gt, h.not_ge, h.ne']

@[simp] theorem min_fin (p q : ℚ) : min (.fin p) (.fin q) = .fin (p ⊓ q) := by
  unfold min
  rw [fin_lt_fin]
  by_cases h : q < p
  · simp [h, h.le]
  · simp [h, not_lt.1 h]

@[simp] theorem max_fin (p q : ℚ) : max (.fin p) (.fin q) = .fin (p ⊔ q) := by
  unfold max
  rw [fin_lt_fin]
  by_cases h : p < q
  · simp [h, h.le]
  · simp [h, not_lt.1 h]

/-- A finite floor and a finite ceiling bound every value, the special ones too. -/
theorem min_max_fin {p q : ℚ} (h : p ≤ q) (a : Double) :
    ∃ r, min (max (.fin p) a) (.fin q) = .fin r ∧ p ≤ r ∧ r ≤ q := by
  cases a with
  | fin x => exact ⟨(p ⊔ x) ⊓ q, by simp, le_inf le_sup_left h, inf_le_right⟩
  | nan => exact ⟨p, by simp [max, lt, h], le_rfl, h⟩
  | negInf => exact ⟨p, by simp [max, lt, h], le_rfl, h⟩
  | posInf => exact ⟨q, by simp [max, min, lt], h, le_rfl⟩

theorem isFinite_iff {a : Double} : a.isFinite = true ↔ ∃ q, a = .fin q := by
  cases a <;> simp [isFinite]

theorem min_eq_or (a b : Double) : min a b = a ∨ min a b = b := by
  unfold min
  split
  · exact .inr rfl
  · exact .inl rfl

theorem lt_min {a b c : Double} (ha : lt c a = true) (hb : lt c b = true) :
    lt c (min a b) = true := by
  obtain h | h := min_eq_or a b
  · rwa [h]
  · rwa [h]

theorem lt_min3 {a b c d : Double} (ha : lt d a = true) (hb : lt d b = true)
    (hc : lt d c = true) : lt d (min3 a b c) = true :=
  lt_min (lt_min ha hb) hc

theorem toRat_pos {a : Double} (h : lt (.fin 0) a = true) (hfinite : a.isFinite = true) :
    0 < a.toRat := by
  obtain ⟨q, rfl⟩ := isFinite_iff.1 hfinite
  exact of_decide_eq_true h

end Double
