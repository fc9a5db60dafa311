import Mathlib.Data.Finset.Card
import Mathlib.Tactic.Common

/-!
# Ageing selection: how long can a candidate be passed over?

A selector repeatedly picks one of the candidates that are currently present.  Every candidate
carries an age; one round resets the age of the winner, adds one to every other present
candidate (saturating at `cap`) and forgets the age of the absent ones.  The only thing known
about *who* wins is that a candidate of age at least `K` forces a winner of largest age.

* `Step` — one round as a relation between the ages before and after it.
* `Spread` — at most `N - 1 - j` of the `N` candidates have age `K + j` or more; `Step.spread`
  shows every round keeps it, and `Spread.age_le` reads off the bound `K + N - 2` on every age.
* `Waiting` — what is known of a candidate that was present in its last `t` rounds and won none
  of them; `Waiting.next` extends it by a round and `Waiting.rounds_le` bounds `t` by `K + N - 2`.
  Saturated ages may tie, so this does not compare ages with the bound above: it counts the
  winners met since the candidate was about to become overdue, which are pairwise distinct.
-/

set_option autoImplicit false

namespace Ageing

variable {ι : Type*}

/-- One round over the candidates `S`: `E` are the present ones, `w` the winner, `c` and `c'`
the ages before and after. -/
structure Step (K cap : ℕ) (S E : Finset ι) (w : ι) (c c' : ι → ℕ) : Prop where
  present : E ⊆ S
  mem : w ∈ E
  winner : c' w = 0
  aged : ∀ i ∈ E, i ≠ w → c' i = if c i < cap then c i + 1 else c i
  absent : ∀ i ∈ S, i ∉ E → c' i = 0
  oldest : ∀ i ∈ E, K ≤ c i → c i ≤ c w

/-- The candidates of age at least `a`. -/
def level (S : Finset ι) (c : ι → ℕ) (a : ℕ) : Finset ι := S.filter (fun i => a ≤ c i)

theorem mem_level {S : Finset ι} {c : ι → ℕ} {a : ℕ} {i : ι} :
    i ∈ level S c a ↔ i ∈ S ∧ a ≤ c i := by
  simp [level]

/-- At most `N - 1 - j` candidates have age `K + j` or more. -/
def Spread (K : ℕ) (S : Finset ι) (c : ι → ℕ) : Prop :=
  ∀ j, (level S c (K + j)).card ≤ S.card - 1 - j

theorem Spread.zero {K : ℕ} {S : Finset ι} {c : ι → ℕ} (hK : 1 ≤ K) (h0 : ∀ i ∈ S, c i = 0) :
    Spread K S c := by
  intro j
  have hempty : level S c (K + j) = ∅ := by
    rw [Finset.eq_empty_iff_forall_notMem]
    intro i hi
    have := h0 i (mem_level.1 hi).1
    have := (mem_level.1 hi).2
    omega
  simp [hempty]

/-- Spread ages are bounded: the level `K + N - 1` is empty. -/
theorem Spread.age_le {K : ℕ} {S : Finset ι} {c : ι → ℕ} (hs : Spread K S c) (hK : 1 ≤ K) {i : ι}
    (hi : i ∈ S) : c i ≤ K + S.card - 2 := by
  have hN : 0 < S.card := Finset.card_pos.2 ⟨i, hi⟩
  by_contra hlt
  have hmem : i ∈ level S c (K + (S.card - 1)) := mem_level.2 ⟨hi, by omega⟩
  have hpos : 0 < (level S c (K + (S.card - 1))).card := Finset.card_pos.2 ⟨i, hmem⟩
  have := hs (S.card - 1)
  omega

/-! ## One round -/

section OneRound

variable [DecidableEq ι] {K cap : ℕ} {S E : Finset ι} {w : ι} {c c' : ι → ℕ}

theorem Step.age_le_succ (h : Step K cap S E w c c') {i : ι} (hi : i ∈ S) : c' i ≤ c i + 1 := by
  by_cases hE : i ∈ E
  · by_cases hw : i = w
    · rw [hw, h.winner]; omega
    · rw [h.aged i hE hw]; split <;> omega
  · rw [h.absent i hi hE]; omega

/-- Whoever has a positive age after the round was present and lost it. -/
theorem Step.lost_of_pos (h : Step K cap S E w c c') {i : ι} (hi : i ∈ S) (hpos : 0 < c' i) :
    i ∈ E ∧ i ≠ w := by
  constructor
  · by_contra hE
    have := h.absent i hi hE
    omega
  · rintro rfl
    have := h.winner
    omega

theorem Step.level_zero (h : Step K cap S E w c c') (hK : 1 ≤ K) :
    level S c' K ⊆ S.erase w := by
  intro i hi
  obtain ⟨hS, hage⟩ := mem_level.1 hi
  exact Finset.mem_erase.2 ⟨(h.lost_of_pos hS (by omega)).2, hS⟩

/-- Whoever climbs to `K + j + 1` was at `K + j`, where the winner was too. -/
theorem Step.level_succ (h : Step K cap S E w c c') (j : ℕ) :
    level S c' (K + (j + 1)) ⊆ (level S c (K + j)).erase w := by
  intro i hi
  obtain ⟨hS, hage⟩ := mem_level.1 hi
  have hle := h.age_le_succ hS
  exact Finset.mem_erase.2 ⟨(h.lost_of_pos hS (by omega)).2, mem_level.2 ⟨hS, by omega⟩⟩

theorem Step.winner_mem_level (h : Step K cap S E w c c') {j : ℕ}
    (hne : (level S c' (K + (j + 1))).Nonempty) : w ∈ level S c (K + j) := by
  obtain ⟨i, hi⟩ := hne
  obtain ⟨hS, hage⟩ := mem_level.1 hi
  have hle := h.age_le_succ hS
  have hold := h.oldest i (h.lost_of_pos hS (by omega)).1 (by omega)
  exact mem_level.2 ⟨h.present h.mem, by omega⟩

/-- **One round keeps the ages spread out.** -/
theorem Step.spread (h : Step K cap S E w c c') (hK : 1 ≤ K) (hs : Spread K S c) :
    Spread K S c' := by
  intro j
  cases j with
  | zero =>
    have hcard := Finset.card_le_card (h.level_zero hK)
    rw [Finset.card_erase_of_mem (h.present h.mem)] at hcard
    simpa using hcard
  | succ j =>
    rcases (level S c' (K + (j + 1))).eq_empty_or_nonempty with hem | hne
    · simp [hem]
    · have hcard := Finset.card_le_card (h.level_succ j)
      rw [Finset.card_erase_of_mem (h.winner_mem_level hne)] at hcard
      have := hs j
      omega

end OneRound

/-! ## Waiting for a turn -/

section Waiting

variable [DecidableEq ι] {K cap : ℕ} {S E : Finset ι} {s w : ι} {c c' : ι → ℕ} {t : ℕ}
  {D : Finset ι}

/-- What a candidate `s` that has lost its last `t` rounds knows: its own age is at least `t`
(up to saturation), and the winners `D` of the rounds since it was about to become overdue are
pairwise distinct and all younger than `t - K`. -/
structure Waiting (K cap : ℕ) (S : Finset ι) (s : ι) (t : ℕ) (c : ι → ℕ) (D : Finset ι) :
    Prop where
  age : min cap t ≤ c s
  served : D ⊆ S.erase s
  young : ∀ i ∈ D, c i + K ≤ t
  count : D.card = t + 1 - K

theorem Waiting.start (hK : 1 ≤ K) : Waiting K cap S s 0 c ∅ :=
  ⟨by simp, by simp, by simp, by simp; omega⟩

/-- The recorded winners are rivals of `s`, and there are only `N - 1` of those. -/
theorem Waiting.count_le (hw : Waiting K cap S s t c D) (hs : s ∈ S) :
    t + 1 - K + 1 ≤ S.card := by
  have hcard := Finset.card_le_card hw.served
  rw [Finset.card_erase_of_mem hs, hw.count] at hcard
  have : 0 < S.card := Finset.card_pos.2 ⟨s, hs⟩
  omega

/-- **No candidate is passed over for long.** -/
theorem Waiting.rounds_le (hw : Waiting K cap S s t c D) (hs : s ∈ S) : t ≤ K + S.card - 2 := by
  have := hw.count_le hs
  omega

/-- An overdue candidate is never passed over twice for the same rival. -/
theorem Waiting.winner_fresh (hK : 1 ≤ K) (hKc : K ≤ cap) (hN : S.card ≤ cap + 1) (hs : s ∈ S)
    (hw : Waiting K cap S s t c D) (h : Step K cap S E w c c') (hE : s ∈ E) : w ∉ D := by
  intro hD
  have hyoung := hw.young w hD
  have hcount := hw.count_le hs
  have hage := hw.age
  have hold := h.oldest s hE (by omega)
  omega

/-- **A lost round extends the wait by one.** -/
theorem Waiting.next (hK : 1 ≤ K) (hKc : K ≤ cap) (hN : S.card ≤ cap + 1) (hs : s ∈ S)
    (hw : Waiting K cap S s t c D) (h : Step K cap S E w c c') (hE : s ∈ E) (hlost : s ≠ w) :
    ∃ D', Waiting K cap S s (t + 1) c' D' := by
  have hage : min cap (t + 1) ≤ c' s := by
    rw [h.aged s hE hlost]
    have := hw.age
    split <;> omega
  have hgrow : ∀ i ∈ D, c' i + K ≤ t + 1 := fun i hi => by
    have := hw.young i hi
    have := h.age_le_succ (Finset.mem_of_mem_erase (hw.served hi))
    omega
  by_cases hearly : t + 1 < K
  · -- not yet about to become overdue: nobody is recorded
    exact ⟨D, hage, hw.served, hgrow, by rw [hw.count]; omega⟩
  · refine ⟨insert w D, hage, ?_, ?_, ?_⟩
    · exact Finset.insert_subset (Finset.mem_erase.2 ⟨hlost.symm, h.present h.mem⟩) hw.served
    · intro i hi
      rcases Finset.mem_insert.1 hi with rfl | hi
      · rw [h.winner]; omega
      · exact hgrow i hi
    · rw [Finset.card_insert_of_notMem (hw.winner_fresh hK hKc hN hs h hE), hw.count]
      omega

end Waiting

end Ageing
