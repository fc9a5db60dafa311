import Mathlib.Data.List.Perm.Basic
import Mathlib.Data.Nat.Init
import Mathlib.Logic.Function.Basic
import Mathlib.Order.Basic

/-!
# Event loops

A loop keeps pending events in a heap, takes the first one out and handles it.

* `pop` — the first pending event under `before` and the others; `pop_perm`, `pop_le`.
* `heads` — the states at the heads of the iterations; `heads_inv`, `heads_rel`.
* `clocked` — an iteration that also keeps the time of its event; `heads_clocked`.
* `heads_terminate` — a loop whose iterations decrease a measure ends; `heads_last`.
-/

set_option autoImplicit false

namespace EventLoop

variable {ε σ τ : Type*}

/-- Take the first event out of a heap. -/
def pop (before : ε → ε → Bool) : List ε → Option (ε × List ε)
  | [] => none
  | e :: rest =>
    match pop before rest with
    | none => some (e, [])
    | some (f, others) => if before f e then some (f, e :: others) else some (e, f :: others)

theorem pop_eq_none {before : ε → ε → Bool} {events : List ε} (h : pop before events = none) :
    events = [] := by
  cases events with
  | nil => rfl
  | cons d rest =>
    unfold pop at h
    split at h
    · cases h
    · split at h <;> cases h

/-- **The event popped and the others are the heap.** -/
theorem pop_perm {before : ε → ε → Bool} {events others : List ε} {e : ε}
    (h : pop before events = some (e, others)) : (e :: others).Perm events := by
  induction events generalizing e others with
  | nil => cases h
  | cons d rest ih =>
    unfold pop at h
    cases hrest : pop before rest with
    | none =>
      rw [hrest] at h
      cases h
      rw [pop_eq_none hrest]
    | some popped =>
      obtain ⟨f, others'⟩ := popped
      rw [hrest] at h
      have hperm := ih hrest
      simp only at h
      split at h
      · cases h
        exact (List.Perm.swap d e others').trans (hperm.cons d)
      · cases h
        exact hperm.cons d

/-- **The event popped is a first one** under any key that `before` compares. -/
theorem pop_le {κ : Type*} [Preorder κ] {key : ε → κ} {before : ε → ε → Bool}
    (hbefore : ∀ e f, before e f = true → key e ≤ key f)
    (hafter : ∀ e f, before e f = false → key f ≤ key e) {events others : List ε} {e : ε}
    (h : pop before events = some (e, others)) : ∀ f ∈ others, key e ≤ key f := by
  induction events generalizing e others with
  | nil => cases h
  | cons d rest ih =>
    unfold pop at h
    cases hrest : pop before rest with
    | none =>
      rw [hrest] at h
      cases h
      exact fun f hf => absurd hf List.not_mem_nil
    | some popped =>
      obtain ⟨f, others'⟩ := popped
      rw [hrest] at h
      have hfirst := ih hrest
      simp only at h
      split at h
      · rename_i hlt
        cases h
        exact List.forall_mem_cons.2 ⟨hbefore _ _ hlt, hfirst⟩
      · rename_i hge
        cases h
        have hle : key d ≤ key f := hafter _ _ (Bool.eq_false_iff.2 hge)
        exact List.forall_mem_cons.2 ⟨hle, fun g hg => hle.trans (hfirst g hg)⟩

/-- The state at the head of every iteration; a loop that ends has no further heads. -/
def heads (iteration : σ → Option σ) (start : Option σ) : ℕ → Option σ
  | 0 => start
  | k + 1 => (heads iteration start k).bind iteration

/-- **An invariant of one iteration holds at every head.** -/
theorem heads_inv (Inv : σ → Prop) {iteration : σ → Option σ} {start : Option σ}
    (hstart : ∀ s, start = some s → Inv s)
    (hstep : ∀ s s', Inv s → iteration s = some s' → Inv s') :
    ∀ k s, heads iteration start k = some s → Inv s := by
  intro k
  induction k with
  | zero => exact hstart
  | succ k ih =>
    intro s' h
    obtain ⟨s, hs, hiter⟩ := Option.bind_eq_some_iff.1 h
    exact hstep s s' (ih s hs) hiter

theorem heads_of_le {iteration : σ → Option σ} {start : Option σ} {k l : ℕ} (hkl : k ≤ l) {s' : σ}
    (h : heads iteration start l = some s') : ∃ s, heads iteration start k = some s := by
  induction l, hkl using Nat.le_induction generalizing s' with
  | base => exact ⟨s', h⟩
  | succ l _ ih =>
    obtain ⟨s, hs, -⟩ := Option.bind_eq_some_iff.1 h
    exact ih hs

/-- **A preorder that every iteration respects relates every head to the later ones.** -/
theorem heads_rel (Inv : σ → Prop) {R : σ → σ → Prop} (hrefl : ∀ s, R s s)
    (htrans : ∀ s s' s'', R s s' → R s' s'' → R s s'') {iteration : σ → Option σ}
    {start : Option σ} (hstart : ∀ s, start = some s → Inv s)
    (hstep : ∀ s s', Inv s → iteration s = some s' → Inv s')
    (hrel : ∀ s s', Inv s → iteration s = some s' → R s s') {k l : ℕ} (hkl : k ≤ l) {s s' : σ}
    (hk : heads iteration start k = some s) (hl : heads iteration start l = some s') : R s s' := by
  induction l, hkl using Nat.le_induction generalizing s' with
  | base =>
    rw [hk] at hl
    cases hl
    exact hrefl s
  | succ l _ ih =>
    obtain ⟨m, hm, hiter⟩ := Option.bind_eq_some_iff.1 hl
    exact htrans s m s' (ih hm) (hrel m s' (heads_inv Inv hstart hstep l m hm) hiter)

/-! ## Clocks -/

/-- An iteration that keeps the time of the event it handles. -/
def clocked (due : σ → Option τ) (iteration : σ → Option σ) (s : τ × σ) : Option (τ × σ) :=
  (due s.2).bind fun t => (iteration s.2).map fun s' => (t, s')

/-- The clock does not disturb the loop. -/
theorem heads_clocked {due : σ → Option τ} {iteration : σ → Option σ}
    (hdue : ∀ s s', iteration s = some s' → ∃ t, due s = some t) (t₀ : τ) (start : Option σ)
    (k : ℕ) : (heads (clocked due iteration) (start.map fun s => (t₀, s)) k).map Prod.snd =
      heads iteration start k := by
  induction k with
  | zero => cases start <;> rfl
  | succ k ih =>
    simp only [heads, ← ih]
    cases heads (clocked due iteration) (start.map fun s => (t₀, s)) k with
    | none => rfl
    | some head =>
      obtain ⟨t, s⟩ := head
      show (clocked due iteration (t, s)).map Prod.snd = iteration s
      unfold clocked
      cases hiter : iteration s with
      | none => cases due s <;> rfl
      | some s' =>
        obtain ⟨t', ht'⟩ := hdue s s' hiter
        simp only [ht']
        rfl

/-! ## Termination -/

/-- **A loop whose iterations decrease a measure ends.** -/
theorem heads_terminate (Inv : σ → Prop) {r : σ → σ → Prop} (hwf : WellFounded r)
    {iteration : σ → Option σ} {start : Option σ} (hstart : ∀ s, start = some s → Inv s)
    (hstep : ∀ s s', Inv s → iteration s = some s' → Inv s')
    (hless : ∀ s s', Inv s → iteration s = some s' → r s' s) :
    ∃ k, heads iteration start k = none := by
  have hfrom : ∀ s k, heads iteration start k = some s → ∃ l, heads iteration start l = none := by
    intro s
    induction s using hwf.induction with
    | _ s ih =>
      intro k hk
      cases hiter : iteration s with
      | none => exact ⟨k + 1, by rw [heads, hk, Option.bind_some, hiter]⟩
      | some s' =>
        have hinv := heads_inv Inv hstart hstep k s hk
        exact ih s' (hless s s' hinv hiter) (k + 1) (by rw [heads, hk, Option.bind_some, hiter])
  cases hs : start with
  | none => exact ⟨0, rfl⟩
  | some s => rw [← hs]; exact hfrom s 0 hs

theorem heads_last {iteration : σ → Option σ} {start : Option σ} {s₀ : σ} (hstart : start = some s₀)
    (hends : ∃ k, heads iteration start k = none) :
    ∃ k s, heads iteration start k = some s ∧ iteration s = none := by
  obtain ⟨k, hk⟩ := hends
  induction k with
  | zero =>
    rw [heads, hstart] at hk
    cases hk
  | succ k ih =>
    cases hs : heads iteration start k with
    | none => exact ih hs
    | some s =>
      rw [heads, hs, Option.bind_some] at hk
      exact ⟨k, s, hs, hk⟩

end EventLoop
