import Mathlib.Algebra.BigOperators.Group.List.Basic
import Mathlib.Tactic.Abel

/-!
# Deterministic machines with outputs

A machine takes one event at a time and emits a list of outputs; `run` chains it over a list of
events.

* `run_inv`, `run_out` — an invariant of one step holds after a whole run, and a property of the
  outputs of one step holds of all outputs.
* `run_congr` — two machines that agree on every step agree on every run.
* `run_balance` — a ledger that every step balances is balanced by a whole run.
* `run_map` — a machine that steps like another one runs like it.
* `drive` — a closed loop: the environment chooses each event from the outputs so far.
* `drive_sim` — two machines that agree step by step under a relation agree in every closed loop.
-/

set_option autoImplicit false

namespace Machine

variable {σ τ ε ο : Type*}

/-- The final state and all outputs, in order. -/
def run (step : σ → ε → σ × List ο) : σ → List ε → σ × List ο
  | s, [] => (s, [])
  | s, e :: rest =>
    let now := step s e
    let later := run step now.1 rest
    (later.1, now.2 ++ later.2)

variable {step : σ → ε → σ × List ο}

@[simp] theorem run_nil (s : σ) : run step s [] = (s, []) := rfl

theorem run_cons (s : σ) (e : ε) (rest : List ε) :
    run step s (e :: rest) =
      ((run step (step s e).1 rest).1, (step s e).2 ++ (run step (step s e).1 rest).2) := rfl

theorem run_inv (Inv : σ → Prop) (hstep : ∀ s e, Inv s → Inv (step s e).1) {s : σ} (hs : Inv s)
    (events : List ε) : Inv (run step s events).1 := by
  induction events generalizing s with
  | nil => exact hs
  | cons e rest ih => exact ih (hstep s e hs)

/-- **What every step says of its outputs, a run says of all of them.** -/
theorem run_out (Inv : σ → Prop) {P : ο → Prop} (hstep : ∀ s e, Inv s → Inv (step s e).1)
    (hout : ∀ s e, Inv s → ∀ o ∈ (step s e).2, P o) {s : σ} (hs : Inv s) (events : List ε) :
    ∀ o ∈ (run step s events).2, P o := by
  induction events generalizing s with
  | nil =>
    intro o ho
    exact absurd ho List.not_mem_nil
  | cons e rest ih =>
    intro o ho
    rcases List.mem_append.1 ho with ho | ho
    · exact hout s e hs o ho
    · exact ih (hstep s e hs) o ho

/-- **Machines that agree on every step agree on every run.** -/
theorem run_congr {step' : σ → ε → σ × List ο} (Inv : σ → Prop)
    (hstep : ∀ s e, Inv s → Inv (step s e).1)
    (hsame : ∀ s e, Inv s → step' s e = step s e) {s : σ} (hs : Inv s) (events : List ε) :
    run step' s events = run step s events := by
  induction events generalizing s with
  | nil => rfl
  | cons e rest ih => rw [run_cons, run_cons, hsame s e hs, ih (hstep s e hs)]

/-- **A balance that every step keeps is kept by a run**: what a step takes out and leaves is what
was there and came in. -/
theorem run_balance {M : Type*} [AddCommGroup M] (Inv : σ → Prop)
    (hstep : ∀ s e, Inv s → Inv (step s e).1) (held : σ → M) (paid due : ο → M)
    (hbalance : ∀ s e, Inv s → held (step s e).1 + ((step s e).2.map paid).sum =
      held s + ((step s e).2.map due).sum) {s : σ} (hs : Inv s) (events : List ε) :
    held (run step s events).1 + ((run step s events).2.map paid).sum =
      held s + ((run step s events).2.map due).sum := by
  induction events generalizing s with
  | nil => simp
  | cons e rest ih =>
    have hnow := hbalance s e hs
    have hlater := ih (hstep s e hs)
    simp only [run_cons, List.map_append, List.sum_append]
    calc held (run step (step s e).1 rest).1 + (((step s e).2.map paid).sum +
          ((run step (step s e).1 rest).2.map paid).sum)
        = held (run step (step s e).1 rest).1 + ((run step (step s e).1 rest).2.map paid).sum +
            ((step s e).2.map paid).sum := by abel
      _ = held (step s e).1 + ((run step (step s e).1 rest).2.map due).sum +
            ((step s e).2.map paid).sum := by rw [hlater]
      _ = held (step s e).1 + ((step s e).2.map paid).sum +
            ((run step (step s e).1 rest).2.map due).sum := by abel
      _ = held s + (((step s e).2.map due).sum +
            ((run step (step s e).1 rest).2.map due).sum) := by rw [hnow, add_assoc]

/-- **A machine that steps like another one runs like it.** -/
theorem run_map {ε' : Type*} {step' : τ → ε' → τ × List ο} (abs : σ → τ) (translate : ε → ε')
    (hstep : ∀ s e, step' (abs s) (translate e) = (abs (step s e).1, (step s e).2)) (s : σ)
    (events : List ε) :
    run step' (abs s) (events.map translate) =
      (abs (run step s events).1, (run step s events).2) := by
  induction events generalizing s with
  | nil => rfl
  | cons e rest ih => rw [List.map_cons, run_cons, hstep, ih, run_cons]

/-! ## Closed loops -/

/-- The state and the outputs after `n` events, each chosen by the environment `env`. -/
def drive (step : σ → ε → σ × List ο) (env : List ο → ε) (s : σ) : ℕ → σ × List ο
  | 0 => (s, [])
  | n + 1 =>
    let now := drive step env s n
    let next := step now.1 (env now.2)
    (next.1, now.2 ++ next.2)

/-- **Agreement step by step is agreement in every closed loop.** -/
theorem drive_sim {τ : Type*} {step' : τ → ε → τ × List ο} {env : List ο → ε} (R : σ → τ → Prop)
    (Ok : σ → ε → Prop)
    (hsim : ∀ s t e, R s t → Ok s e →
      R (step s e).1 (step' t e).1 ∧ (step s e).2 = (step' t e).2)
    {s : σ} {t : τ} (hstart : R s t)
    (hok : ∀ n, Ok (drive step env s n).1 (env (drive step env s n).2)) (n : ℕ) :
    R (drive step env s n).1 (drive step' env t n).1 ∧
      (drive step env s n).2 = (drive step' env t n).2 := by
  induction n with
  | zero => exact ⟨hstart, rfl⟩
  | succ n ih =>
    obtain ⟨hR, hout⟩ := ih
    obtain ⟨hR', hout'⟩ := hsim _ _ (env (drive step env s n).2) hR (hok n)
    simp only [drive]
    rw [← hout]
    exact ⟨hR', congrArg _ hout'⟩

end Machine
