import Mathlib.Data.List.Basic
import Mathlib.Tactic.Common

/-!
# First best element of a list

A left-to-right scan that replaces its champion only by a strictly better element ends with the
first of the best ones.

* `Preference` — what "strictly better" must satisfy: it is transitive, and an element better than
  `z` is better than `y` or `y` is better than `z` (so "not better either way" is transitive too).
* `FirstBest better l b` — `b` splits `l` into elements it beats and elements that do not beat it.
* `FirstBest.snoc` — the scan step; `FirstBest.mem`, `FirstBest.not_better` — what it means.
* `FirstBest.before_idxOf` — the champion of a filtered list, by positions in the full list.
-/

set_option autoImplicit false

variable {α : Type*}

/-- A strict preference with ties. -/
structure Preference (better : α → α → Prop) : Prop where
  trans : ∀ x y z, better x y → better y z → better x z
  cotrans : ∀ x y z, better x z → better x y ∨ better y z

/-- `b` is the first best element of `l`. -/
def FirstBest (better : α → α → Prop) (l : List α) (b : α) : Prop :=
  ∃ before after, l = before ++ b :: after ∧ (∀ x ∈ before, better b x) ∧
    ∀ x ∈ after, ¬ better x b

namespace FirstBest

variable {better : α → α → Prop} {l : List α} {b x : α}

theorem single (b : α) : FirstBest better [b] b :=
  ⟨[], [], rfl, fun _ h => absurd h List.not_mem_nil, fun _ h => absurd h List.not_mem_nil⟩

theorem mem (h : FirstBest better l b) : b ∈ l := by
  obtain ⟨before, after, rfl, -, -⟩ := h
  simp

theorem not_better (h : FirstBest better l b) (hirr : ∀ x, ¬ better x x)
    (hp : Preference better) : ∀ x ∈ l, ¬ better x b := by
  obtain ⟨before, after, rfl, hbefore, hafter⟩ := h
  intro x hx hxb
  rcases List.mem_append.1 hx with hx | hx
  · exact hirr x (hp.trans x b x hxb (hbefore x hx))
  · rcases List.mem_cons.1 hx with rfl | hx
    · exact hirr x hxb
    · exact hafter x hx hxb

/-- A later element takes over only if it is better than the champion. -/
theorem snoc (hp : Preference better) (h : FirstBest better l b) :
    (better x b → FirstBest better (l ++ [x]) x) ∧
      (¬ better x b → FirstBest better (l ++ [x]) b) := by
  obtain ⟨before, after, rfl, hbefore, hafter⟩ := h
  constructor
  · intro hxb
    refine ⟨before ++ b :: after, [], rfl, fun y hy => ?_,
      fun _ h => absurd h List.not_mem_nil⟩
    rcases List.mem_append.1 hy with hy | hy
    · exact hp.trans x b y hxb (hbefore y hy)
    · rcases List.mem_cons.1 hy with rfl | hy
      · exact hxb
      · exact (hp.cotrans x y b hxb).resolve_right (hafter y hy)
  · intro hxb
    refine ⟨before, after ++ [x], by simp, hbefore, fun y hy => ?_⟩
    rcases List.mem_append.1 hy with hy | hy
    · exact hafter y hy
    · rw [List.mem_singleton.1 hy]; exact hxb

/-- Where the champion does not beat a candidate, it stands before it in the full list. -/
theorem before_idxOf [DecidableEq α] {p : α → Bool} (hnd : l.Nodup)
    (h : FirstBest better (l.filter p) b) :
    ∀ x ∈ l.filter p, x ≠ b → better b x ∨ (¬ better x b ∧ l.idxOf b < l.idxOf x) := by
  obtain ⟨before, after, hsplit, hbefore, hafter⟩ := h
  intro x hx hne
  rw [hsplit, List.mem_append, List.mem_cons] at hx
  rcases hx with hx | hx | hx
  · exact Or.inl (hbefore x hx)
  · exact absurd hx hne
  · refine Or.inr ⟨hafter x hx, ?_⟩
    obtain ⟨l₁, l₂, rfl, -, htail⟩ := List.filter_eq_append_iff.1 hsplit
    obtain ⟨m₁, m₂, rfl, -, -, rfl⟩ := List.filter_eq_cons_iff.1 htail
    have hx₂ := List.mem_of_mem_filter hx
    rw [← List.append_assoc] at hnd ⊢
    obtain ⟨-, -, hdisjoint⟩ := List.nodup_append.1 hnd
    have hb : b ∉ l₁ ++ m₁ := fun hmem => hdisjoint b hmem b (by simp) rfl
    have hx : x ∉ l₁ ++ m₁ := fun hmem => hdisjoint x hmem x (by simp [hx₂]) rfl
    rw [List.idxOf_append_of_notMem hb, List.idxOf_append_of_notMem hx,
      List.idxOf_cons_eq _ rfl, List.idxOf_cons_ne _ (Ne.symm hne)]
    omega

end FirstBest
