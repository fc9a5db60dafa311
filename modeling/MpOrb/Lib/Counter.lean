import Mathlib.Data.Nat.ModEq

/-!
# Wrapping counters

A counter with `w` states is incremented before each use; it wraps to zero.

* `issued` — the numbers that `n` uses of the counter hand out.
* `issued_append` — they can be handed out in parts.
* `issued_of_lt` — without a wrap they are consecutive, hence increasing (`issued_increasing`).
* `issued_wrap` — `w + 1` uses hand out a number twice.
-/

set_option autoImplicit false

namespace Counter

variable {w : ℕ}

/-- The numbers handed out by `n` uses of a counter that stands at `k`. -/
def issued (w k n : ℕ) : List ℕ := (List.range' (k + 1) n).map (· % w)

@[simp] theorem length_issued (k n : ℕ) : (issued w k n).length = n := by
  simp [issued]

theorem getElem_issued (k n i : ℕ) (h : i < (issued w k n).length) :
    (issued w k n)[i] = (k + 1 + i) % w := by
  simp [issued]

/-- Only the counter's value matters, not how often it has wrapped. -/
theorem issued_congr {k k' : ℕ} (h : k ≡ k' [MOD w]) (n : ℕ) : issued w k n = issued w k' n := by
  refine List.ext_getElem (by simp) fun i hi hi' => ?_
  rw [getElem_issued, getElem_issued]
  exact (h.add_right 1).add_right i

theorem issued_append {k k' : ℕ} {m : ℕ} (h : k' ≡ k + m [MOD w]) (n : ℕ) :
    issued w k m ++ issued w k' n = issued w k (m + n) := by
  rw [issued_congr h, issued, issued, issued, ← List.map_append, ← List.range'_append_1,
    Nat.add_right_comm]

theorem issued_of_lt {k n : ℕ} (h : k + n < w) : issued w k n = List.range' (k + 1) n := by
  have hid : ∀ s ∈ List.range' (k + 1) n, s % w = s := by
    intro s hs
    obtain ⟨_, hs⟩ := List.mem_range'_1.1 hs
    exact Nat.mod_eq_of_lt (by omega)
  rw [issued, List.map_congr_left hid, List.map_id']

/-- **Without a wrap every number is larger than all handed out before.** -/
theorem issued_increasing {k n : ℕ} (h : k + n < w) :
    (issued w k n).Pairwise (· < ·) ∧ ∀ s ∈ issued w k n, k < s := by
  rw [issued_of_lt h]
  exact ⟨List.pairwise_lt_range', fun s hs => (List.mem_range'_1.1 hs).1⟩

/-- A full turn comes back to the first number. -/
theorem issued_wrap (hw : 0 < w) (k : ℕ) : ¬ (issued w k (w + 1)).Pairwise (· < ·) := by
  intro hpair
  have hlt := List.pairwise_iff_getElem.1 hpair 0 w (by simp) (by simp) hw
  rw [getElem_issued, getElem_issued, Nat.add_mod_right, Nat.add_zero] at hlt
  exact lt_irrefl _ hlt

end Counter
