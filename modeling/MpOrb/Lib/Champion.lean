import Mathlib.Data.List.Induction
import Mathlib.Tactic.Common

/-!
# The champion of a scan

A left-to-right scan keeps a champion and replaces it by every challenger that beats it.  The
relation need not be an order on all values; it is enough that it orders the scanned ones.

* `champion better l` — the result of the scan; `champion_snoc` is the scan step.
* `OrdersOn better S` — on `S` no two values beat each other, and a value that beats `z` beats `y`
  or is followed by a `y` that beats `z`.
* `champion_not_beaten` — nothing scanned beats the champion of an ordered scan.
* `champions_tie` — two scans of the same values end with champions that do not beat each other.
-/

set_option autoImplicit false

namespace Champion

variable {α : Type*} {better : α → α → Bool} {l : List α} {b x : α}

/-- One challenge. -/
def challenge (better : α → α → Bool) : Option α → α → Option α
  | none, x => some x
  | some b, x => if better x b then some x else some b

theorem challenge_some (c x : α) :
    challenge better (some c) x = if better x c then some x else some c := rfl

/-- What is left after a pass of challenges. -/
def champion (better : α → α → Bool) (l : List α) : Option α := l.foldl (challenge better) none

theorem champion_snoc (better : α → α → Bool) (l : List α) (x : α) :
    champion better (l ++ [x]) = challenge better (champion better l) x := by
  simp [champion, List.foldl_append]

theorem champion_mem (h : champion better l = some b) : b ∈ l := by
  induction l using List.reverseRecOn generalizing b with
  | nil => cases h
  | append_singleton rest x ih =>
    rw [champion_snoc] at h
    cases hc : champion better rest with
    | none =>
      rw [hc] at h
      cases h
      simp
    | some c =>
      rw [hc, challenge_some] at h
      split at h
      · cases h
        simp
      · cases h
        exact List.mem_append_left _ (ih hc)

theorem champion_eq_none_iff : champion better l = none ↔ l = [] := by
  induction l using List.reverseRecOn with
  | nil => simp [champion]
  | append_singleton rest x ih =>
    rw [champion_snoc]
    cases champion better rest with
    | none => simp [challenge]
    | some c =>
      rw [challenge_some]
      split <;> simp

structure OrdersOn (better : α → α → Bool) (S : Set α) : Prop where
  asymm : ∀ x ∈ S, ∀ y ∈ S, better x y = true → better y x = false
  cotrans : ∀ x ∈ S, ∀ y ∈ S, ∀ z ∈ S, better x z = true → better x y = true ∨ better y z = true

/-- **Nothing scanned beats the champion.** -/
theorem champion_not_beaten {S : Set α} (horder : OrdersOn better S) (hl : ∀ x ∈ l, x ∈ S)
    (h : champion better l = some b) : ∀ x ∈ l, better x b = false := by
  induction l using List.reverseRecOn generalizing b with
  | nil => cases h
  | append_singleton rest x ih =>
    have hrest : ∀ y ∈ rest, y ∈ S := fun y hy => hl y (List.mem_append_left _ hy)
    have hx : x ∈ S := hl x (by simp)
    have hself : better x x = false := by
      cases hxx : better x x with
      | false => rfl
      | true => exact hxx ▸ horder.asymm x hx x hx hxx
    intro y hy
    rw [champion_snoc] at h
    cases hc : champion better rest with
    | none =>
      rw [hc] at h
      cases h
      rw [champion_eq_none_iff.1 hc, List.nil_append, List.mem_singleton] at hy
      rw [hy, hself]
    | some c =>
      have hcS := hrest c (champion_mem hc)
      have hkeep := ih hrest hc
      rw [hc, challenge_some] at h
      rw [List.mem_append, List.mem_singleton] at hy
      split at h
      · -- `x` takes over: whatever beats it would have beaten the old champion
        rename_i hxc
        obtain rfl := Option.some.inj h
        rcases hy with hy | rfl
        · cases hyx : better y x with
          | false => rfl
          | true =>
            rcases horder.cotrans y (hrest y hy) c hcS x hx hyx with hyc | hcx
            · rw [hkeep y hy] at hyc
              cases hyc
            · rw [horder.asymm x hx c hcS hxc] at hcx
              cases hcx
        · exact hself
      · rename_i hxc
        cases h
        rcases hy with hy | rfl
        · exact hkeep y hy
        · simpa using hxc

/-- **Scans of the same values in any order end with champions that tie.** -/
theorem champions_tie {S : Set α} {l' : List α} {b' : α} (horder : OrdersOn better S)
    (hl : ∀ x ∈ l, x ∈ S) (hsame : ∀ x, x ∈ l' ↔ x ∈ l) (h : champion better l = some b)
    (h' : champion better l' = some b') : better b b' = false ∧ better b' b = false := by
  have hl' : ∀ x ∈ l', x ∈ S := fun x hx => hl x ((hsame x).1 hx)
  constructor
  · exact champion_not_beaten horder hl' h' b ((hsame b).2 (champion_mem h))
  · exact champion_not_beaten horder hl h b' ((hsame b').1 (champion_mem h'))

end Champion
