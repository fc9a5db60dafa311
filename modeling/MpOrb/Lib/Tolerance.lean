import Mathlib.Algebra.Order.Ring.Abs
import Mathlib.Tactic.Linarith

/-!
# Comparisons up to a tolerance

Two values are near when their distance is within a tolerance relative to the larger of them and
one.  Nearness is reflexive and symmetric but not transitive.

* `Near tol a b` — the relation; `Near.between`: of three values in order, the middle one is near
  one of the outer two when these are near each other.
* `NearLex` — compare by a key, and by another relation where the keys are near.
* `nearLex_asymm`, `nearLex_cotrans` — where nearness is transitive on the keys compared, such a
  comparison orders like one of its parts.
-/

set_option autoImplicit false

namespace Tolerance

variable {K : Type*} [Field K] [LinearOrder K] {tol a b c : K}

/-- Equality up to a tolerance relative to the larger magnitude, at least 1. -/
def Near (tol a b : K) : Prop := |a - b| ≤ tol * max (max 1 |a|) |b|

instance (tol a b : K) : Decidable (Near tol a b) := inferInstanceAs (Decidable (_ ≤ _))

theorem Near.symm (h : Near tol a b) : Near tol b a := by
  unfold Near at *
  rwa [abs_sub_comm, max_right_comm]

theorem Near.neg_iff : Near tol (-a) (-b) ↔ Near tol a b := by
  unfold Near
  rw [abs_neg, abs_neg, neg_sub_neg, abs_sub_comm]

/-! ## Lexicographic comparison -/

variable {α : Type*} {key : α → K} {next : α → α → Prop} {x y z : α}

/-- The smaller key is first; near keys leave the choice to `next`. -/
def NearLex (tol : K) (key : α → K) (next : α → α → Prop) (x y : α) : Prop :=
  if Near tol (key x) (key y) then next x y else key x < key y

/-- Nearness of the keys is transitive on `S`. -/
def TransitiveOn (tol : K) (key : α → K) (S : Set α) : Prop :=
  ∀ x ∈ S, ∀ y ∈ S, ∀ z ∈ S, Near tol (key x) (key y) → Near tol (key y) (key z) →
    Near tol (key x) (key z)

theorem nearLex_asymm (hnext : next x y → ¬ next y x) (h : NearLex tol key next x y) :
    ¬ NearLex tol key next y x := by
  unfold NearLex at *
  by_cases hnear : Near tol (key x) (key y)
  · rw [if_pos hnear] at h
    rw [if_pos hnear.symm]
    exact hnext h
  · rw [if_neg hnear] at h
    rw [if_neg fun hyx => hnear hyx.symm]
    exact h.not_gt

/-- Near values see the rest of a transitive set alike. -/
theorem near_congr {S : Set α} (htrans : TransitiveOn tol key S) (hx : x ∈ S) (hy : y ∈ S)
    (hz : z ∈ S) (hxy : Near tol (key x) (key y)) :
    Near tol (key z) (key x) ↔ Near tol (key z) (key y) :=
  ⟨fun h => htrans z hz x hx y hy h hxy, fun h => htrans z hz y hy x hx h hxy.symm⟩

/-! ## Convexity -/

variable [IsStrictOrderedRing K]

theorem Near.refl (htol : 0 ≤ tol) (a : K) : Near tol a a := by
  unfold Near
  rw [sub_self, abs_zero]
  exact mul_nonneg htol ((zero_le_one.trans (le_max_left 1 |a|)).trans (le_max_left _ _))

/-- The middle value is near the outer value that sets the scale. -/
theorem Near.between (htol : 0 ≤ tol) (hab : a ≤ b) (hbc : b ≤ c) (h : Near tol a c) :
    Near tol a b ∨ Near tol b c := by
  unfold Near at *
  rw [abs_of_nonpos (by linarith)] at h ⊢
  rw [abs_of_nonpos (show b - c ≤ 0 by linarith)]
  rcases le_total |c| (max 1 |a|) with hscale | hscale
  · left
    rw [max_eq_left hscale] at h
    have hle := mul_le_mul_of_nonneg_left (le_max_left (max 1 |a|) |b|) htol
    linarith
  · right
    rw [max_eq_right hscale] at h
    have hle := mul_le_mul_of_nonneg_left (le_max_right (max 1 |b|) |c|) htol
    linarith

/-- **A comparison up to a tolerance orders like its parts where nearness is transitive.** -/
theorem nearLex_cotrans (htol : 0 ≤ tol) {S : Set α} (htrans : TransitiveOn tol key S)
    (hx : x ∈ S) (hy : y ∈ S) (hz : z ∈ S)
    (hnext : Near tol (key x) (key y) → Near tol (key y) (key z) →
      next x z → next x y ∨ next y z)
    (h : NearLex tol key next x z) : NearLex tol key next x y ∨ NearLex tol key next y z := by
  unfold NearLex at *
  by_cases hxy : Near tol (key x) (key y) <;> by_cases hyz : Near tol (key y) (key z)
  · rw [if_pos (htrans x hx y hy z hz hxy hyz)] at h
    rw [if_pos hxy, if_pos hyz]
    exact hnext hxy hyz h
  · have hxz : ¬ Near tol (key x) (key z) := fun hxz =>
      hyz (htrans y hy x hx z hz hxy.symm hxz)
    rw [if_neg hxz] at h
    right
    rw [if_neg hyz]
    by_contra hle
    rcases Near.between htol h.le (not_lt.1 hle) hxy with hnear | hnear
    · exact hxz hnear
    · exact hyz hnear.symm
  · have hxz : ¬ Near tol (key x) (key z) := fun hxz =>
      hxy (htrans x hx z hz y hy hxz hyz.symm)
    rw [if_neg hxz] at h
    left
    rw [if_neg hxy]
    by_contra hle
    rcases Near.between htol (not_lt.1 hle) h.le hyz with hnear | hnear
    · exact hxy hnear.symm
    · exact hxz hnear
  · rw [if_neg hxy, if_neg hyz]
    by_contra hno
    obtain ⟨hyx, hzy⟩ := not_or.1 hno
    rw [not_lt] at hyx hzy
    by_cases hxz : Near tol (key x) (key z)
    · -- `y` would lie between two near keys
      rcases Near.between htol hzy hyx hxz.symm with hnear | hnear
      · exact hyz hnear.symm
      · exact hxy hnear.symm
    · rw [if_neg hxz] at h
      exact (hzy.trans hyx).not_gt h

end Tolerance
