import Mathlib.Algebra.Order.Monoid.Defs
import Mathlib.Algebra.Order.Monoid.Unbundled.Basic

/-!
# Batches with a deadline

Items wait until their batch is closed.  A timer is armed with the first item of a batch, and time
does not run past it.

* `Batch.add`, `Batch.close` — an item joins; the batch and its timer are gone.
* `Batch.Timely` — the timer runs from the oldest item; kept by `Timely.wait`, `Timely.add` and
  `Timely.close`.
* `Batch.Timely.age_le` — no item waits longer than the delay of the timer.
-/

set_option autoImplicit false

variable {K β : Type*}

/-- Items with their arrival times, newest first. -/
structure Batch (K β : Type*) where
  waiting : List (K × β) := []
  timer : Option K := none

namespace Batch

/-- An item joins; the timer is armed unless it runs already. -/
def add [Add K] (delay now : K) (item : β) (b : Batch K β) : Batch K β :=
  { waiting := (now, item) :: b.waiting, timer := some (b.timer.getD (now + delay)) }

/-- Nothing waits any more. -/
def close (_ : Batch K β) : Batch K β := {}

variable [AddCommMonoid K] [PartialOrder K] {delay now now' : K} {b : Batch K β}

/-- The timer is armed exactly while something waits, and nothing waits too long. -/
structure Timely (delay now : K) (b : Batch K β) : Prop where
  idle : b.waiting = [] → b.timer = none
  armed : b.waiting ≠ [] → ∃ oldest, b.timer = some (oldest + delay) ∧
    ∀ w ∈ b.waiting, oldest ≤ w.1
  past : ∀ w ∈ b.waiting, w.1 ≤ now
  pending : ∀ deadline ∈ b.timer, now ≤ deadline

theorem Timely.start (delay now : K) : Timely delay now ({} : Batch K β) := by
  refine ⟨fun _ => rfl, fun h => absurd rfl h, fun w hw => absurd hw List.not_mem_nil, ?_⟩
  intro deadline h
  cases h

theorem Timely.close (delay now : K) (b : Batch K β) : Timely delay now b.close :=
  .start delay now

theorem Timely.wait (h : Timely delay now b) (hlater : now ≤ now')
    (hpending : ∀ deadline ∈ b.timer, now' ≤ deadline) : Timely delay now' b :=
  ⟨h.idle, h.armed, fun w hw => (h.past w hw).trans hlater, hpending⟩

theorem Timely.timer_isSome (h : Timely delay now b) : b.timer.isSome ↔ b.waiting ≠ [] := by
  constructor
  · intro hsome hempty
    rw [h.idle hempty] at hsome
    cases hsome
  · intro hne
    obtain ⟨oldest, htimer, -⟩ := h.armed hne
    rw [htimer]
    rfl

variable [IsOrderedAddMonoid K]

theorem Timely.add (h : Timely delay now b) (hdelay : 0 ≤ delay) (item : β) :
    Timely delay now (b.add delay now item) := by
  have hnow : now ≤ now + delay := le_add_of_nonneg_right hdelay
  refine ⟨fun hempty => absurd hempty (List.cons_ne_nil _ _), fun _ => ?_,
    List.forall_mem_cons.2 ⟨le_rfl, h.past⟩, ?_⟩
  · cases hb : b.waiting with
    | nil =>
      refine ⟨now, by simp [Batch.add, h.idle hb], ?_⟩
      simp [Batch.add, hb]
    | cons w rest =>
      obtain ⟨oldest, htimer, hold⟩ := h.armed (by simp [hb])
      have hw : w ∈ b.waiting := by simp [hb]
      refine ⟨oldest, by simp [Batch.add, htimer], List.forall_mem_cons.2 ⟨?_, hold⟩⟩
      exact (hold w hw).trans (h.past w hw)
  · rintro deadline ⟨⟩
    cases htimer : b.timer with
    | none => exact hnow
    | some d => exact h.pending d htimer

/-- **No item waits longer than the delay.** -/
theorem Timely.age_le (h : Timely delay now b) {w : K × β} (hw : w ∈ b.waiting) :
    now ≤ w.1 + delay := by
  obtain ⟨oldest, htimer, hold⟩ := h.armed (List.ne_nil_of_mem hw)
  calc now ≤ oldest + delay := h.pending _ htimer
    _ ≤ w.1 + delay := add_le_add_left (hold w hw) delay

end Batch
