import Mathlib.Algebra.Order.Ring.Int
import Mathlib.Data.Nat.Size
import Mathlib.Tactic.Linarith

/-!
# Rounding to a significand

A natural number is rounded, half up, to a multiple of a power of two that leaves it `p` significant
bits.

* `toMultiple d w` — the nearest multiple of `d`; monotone, exact on multiples.
* `exponent p w`, `significand p w`, `round p w` — the step for `w`, how many steps, and the
  rounding.
* `Representable p w` — a significand of `p` bits times a power of two.
* `round_representable`, `round_of_representable` — the range is what is rounded to itself;
  `round_idem`.
* `abs_round_sub_le` — the error is at most `w / 2 ^ p`; `round_mono`.
-/

set_option autoImplicit false

namespace Significand

/-! ## Multiples -/

section Multiples

variable {d v w : ℕ}

/-- The nearest multiple, halves up. -/
def toMultiple (d w : ℕ) : ℕ := (w + d / 2) / d * d

theorem toMultiple_mono (h : v ≤ w) : toMultiple d v ≤ toMultiple d w :=
  Nat.mul_le_mul_right d (Nat.div_le_div_right (Nat.add_le_add_right h _))

theorem toMultiple_of_dvd (hd : 0 < d) (h : d ∣ w) : toMultiple d w = w := by
  obtain ⟨q, rfl⟩ := h
  have hhalf : d / 2 / d = 0 := Nat.div_eq_of_lt (Nat.div_lt_self hd one_lt_two)
  unfold toMultiple
  rw [Nat.mul_add_div hd, hhalf, add_zero, mul_comm]

theorem le_toMultiple (hd : 0 < d) (h : d ∣ v) (hle : v ≤ w) : v ≤ toMultiple d w :=
  (toMultiple_of_dvd hd h).ge.trans (toMultiple_mono hle)

theorem toMultiple_le (hd : 0 < d) (h : d ∣ w) (hle : v ≤ w) : toMultiple d v ≤ w :=
  (toMultiple_mono hle).trans (toMultiple_of_dvd hd h).le

theorem abs_toMultiple_sub_le (hd : 0 < d) (w : ℕ) :
    |(toMultiple d w : ℤ) - w| * 2 ≤ d := by
  have hdiv : toMultiple d w + (w + d / 2) % d = w + d / 2 := by
    rw [add_comm]
    exact Nat.mod_add_div' _ _
  have hmod : (w + d / 2) % d < d := Nat.mod_lt _ hd
  have habs : |(toMultiple d w : ℤ) - w| = toMultiple d w - w ∨
      |(toMultiple d w : ℤ) - w| = w - toMultiple d w := by
    rcases abs_choice ((toMultiple d w : ℤ) - w) with h | h
    · exact Or.inl h
    · exact Or.inr (h.trans (neg_sub _ _))
  omega

end Multiples

/-! ## Significant bits -/

variable {p v w : ℕ}

/-- The bits that `w` has too many. -/
def exponent (p w : ℕ) : ℕ := Nat.size w - p

def significand (p w : ℕ) : ℕ := (w + 2 ^ exponent p w / 2) / 2 ^ exponent p w

/-- The nearest value with a significand of `p` bits. -/
def round (p w : ℕ) : ℕ := toMultiple (2 ^ exponent p w) w

theorem round_eq (p w : ℕ) : round p w = significand p w * 2 ^ exponent p w := rfl

/-- A significand of `p` bits times a power of two. -/
def Representable (p w : ℕ) : Prop := ∃ s k, s < 2 ^ p ∧ w = s * 2 ^ k

theorem exponent_eq_zero (h : w < 2 ^ p) : exponent p w = 0 :=
  Nat.sub_eq_zero_of_le (Nat.size_le.2 h)

/-- A number with too many bits has its top bit at `p + exponent p w - 1`. -/
theorem size_eq (h : ¬ w < 2 ^ p) : Nat.size w = p + exponent p w ∧ 0 < exponent p w := by
  have hsize : p < Nat.size w := Nat.lt_size.2 (not_lt.1 h)
  unfold exponent
  omega

theorem round_of_lt (h : w < 2 ^ p) : round p w = w := by
  unfold round
  rw [exponent_eq_zero h]
  exact toMultiple_of_dvd (by decide) (one_dvd w)

/-- Rounding carries out of the significand at most to the next power of two. -/
theorem significand_le (p w : ℕ) : significand p w ≤ 2 ^ p := by
  have hle : round p w ≤ 2 ^ p * 2 ^ exponent p w := by
    refine toMultiple_le (Nat.two_pow_pos _) (Nat.dvd_mul_left _ _) ?_
    rw [← pow_add]
    refine (Nat.lt_size_self w).le.trans (Nat.pow_le_pow_right two_pos ?_)
    unfold exponent
    omega
  exact Nat.le_of_mul_le_mul_right hle (Nat.two_pow_pos _)

/-- **Every rounded number is representable.** -/
theorem round_representable (hp : 0 < p) (w : ℕ) : Representable p (round p w) := by
  rcases (significand_le p w).lt_or_eq with hlt | hcarry
  · exact ⟨significand p w, exponent p w, hlt, rfl⟩
  · refine ⟨1, p + exponent p w, Nat.one_lt_two_pow hp.ne', ?_⟩
    rw [round_eq, hcarry, one_mul, pow_add]

/-- **Representable numbers are rounded to themselves.** -/
theorem round_of_representable (h : Representable p w) : round p w = w := by
  obtain ⟨s, k, hs, rfl⟩ := h
  apply toMultiple_of_dvd (Nat.two_pow_pos _)
  have hsize : Nat.size (s * 2 ^ k) ≤ p + k := by
    rw [Nat.size_le, pow_add]
    exact Nat.mul_lt_mul_of_pos_right hs (Nat.two_pow_pos k)
  have hk : exponent p (s * 2 ^ k) ≤ k := Nat.sub_le_iff_le_add'.2 hsize
  exact (Nat.pow_dvd_pow 2 hk).mul_left s

theorem round_idem (hp : 0 < p) (w : ℕ) : round p (round p w) = round p w :=
  round_of_representable (round_representable hp w)

/-- **The relative error is at most `1 / 2 ^ p`.** -/
theorem abs_round_sub_le (p w : ℕ) : |(round p w : ℤ) - w| * 2 ^ p ≤ w := by
  by_cases hw : w < 2 ^ p
  · rw [round_of_lt hw]
    simp
  · obtain ⟨hsize, hpos⟩ := size_eq hw
    have herror := abs_toMultiple_sub_le (Nat.two_pow_pos (exponent p w)) w
    have hbit : 2 ^ (p + exponent p w - 1) ≤ w := by
      rw [← Nat.lt_size, hsize]
      omega
    have hdouble : (2 : ℤ) ^ p * 2 ^ exponent p w = 2 * 2 ^ (p + exponent p w - 1) := by
      rw [← pow_add, ← pow_succ']
      congr 1
      omega
    push_cast at herror
    have hscaled := mul_le_mul_of_nonneg_right herror (pow_nonneg zero_le_two p : (0 : ℤ) ≤ 2 ^ p)
    rw [mul_comm ((2 : ℤ) ^ exponent p w), hdouble] at hscaled
    have hbit' : (2 : ℤ) ^ (p + exponent p w - 1) ≤ w := by exact_mod_cast hbit
    show |(toMultiple (2 ^ exponent p w) w : ℤ) - w| * 2 ^ p ≤ w
    linarith

/-- **Rounding is monotone**, also across a change of the exponent: the power of two between the
two numbers separates what they are rounded to. -/
theorem round_mono (hp : 0 < p) (h : v ≤ w) : round p v ≤ round p w := by
  rcases (Nat.size_le_size h).eq_or_lt with hsize | hsize
  · unfold round exponent
    rw [hsize]
    exact toMultiple_mono h
  · have hv : v ≤ 2 ^ (Nat.size w - 1) :=
      (Nat.lt_size_self v).le.trans (Nat.pow_le_pow_right two_pos (by omega))
    have hw : 2 ^ (Nat.size w - 1) ≤ w := Nat.lt_size.1 (by omega)
    have hdvd : ∀ u, Nat.size u ≤ Nat.size w → 2 ^ exponent p u ∣ 2 ^ (Nat.size w - 1) := by
      intro u hu
      apply Nat.pow_dvd_pow 2
      unfold exponent
      omega
    exact (toMultiple_le (Nat.two_pow_pos _) (hdvd v hsize.le) hv).trans
      (le_toMultiple (Nat.two_pow_pos _) (hdvd w le_rfl) hw)

end Significand
