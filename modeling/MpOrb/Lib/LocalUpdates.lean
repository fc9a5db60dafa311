import Mathlib.Data.List.Nodup
import Mathlib.Data.List.Perm.Basic
import Mathlib.Logic.Function.Basic

/-!
# Members that update themselves

Each member of a family computes a new value for itself.  It reads its own value in full, and of
the values of the others only a part that no update changes: their digest.

* `Local` — the two conditions on an update rule.
* `run`, `digest_run` — updates one after another; the digests stay.
* `run_apply` — without repetitions every member gets what it would get from the first snapshot.
* `run_perm` — the order does not matter.
-/

set_option autoImplicit false

namespace LocalUpdate

variable {ι β δ : Type*}

/-- A rule reads of the others only what it never changes. -/
structure Local (digest : β → δ) (rule : (ι → β) → ι → β) : Prop where
  keeps : ∀ view i, digest (rule view i) = digest (view i)
  reads : ∀ view view' i, (∀ j, digest (view j) = digest (view' j)) → view i = view' i →
    rule view i = rule view' i

variable [DecidableEq ι]

/-- One member updates itself. -/
def visit (rule : (ι → β) → ι → β) (view : ι → β) (i : ι) : ι → β :=
  Function.update view i (rule view i)

/-- The rule applied to one member after the other, on the live view. -/
def run (rule : (ι → β) → ι → β) (view : ι → β) (members : List ι) : ι → β :=
  members.foldl (visit rule) view

variable {digest : β → δ} {rule : (ι → β) → ι → β}

theorem digest_visit (hlocal : Local digest rule) (view : ι → β) (i j : ι) :
    digest (visit rule view i j) = digest (view j) := by
  by_cases hij : j = i
  · subst hij
    unfold visit
    rw [Function.update_self]
    exact hlocal.keeps view j
  · unfold visit
    rw [Function.update_of_ne hij]

theorem digest_run (hlocal : Local digest rule) (view : ι → β) (members : List ι) (j : ι) :
    digest (run rule view members j) = digest (view j) := by
  induction members generalizing view with
  | nil => rfl
  | cons i rest ih => exact (ih (visit rule view i)).trans (digest_visit hlocal view i j)

/-- An update of another member is not noticed. -/
theorem rule_visit (hlocal : Local digest rule) (view : ι → β) {i j : ι} (hij : j ≠ i) :
    rule (visit rule view i) j = rule view j :=
  hlocal.reads _ _ j (digest_visit hlocal view i) (Function.update_of_ne hij _ _)

/-- **Every member gets its update from the first snapshot.** -/
theorem run_apply (hlocal : Local digest rule) {members : List ι} (hnodup : members.Nodup)
    (view : ι → β) (j : ι) :
    run rule view members j = if j ∈ members then rule view j else view j := by
  induction members generalizing view with
  | nil => rfl
  | cons i rest ih =>
    obtain ⟨hi, hrest⟩ := List.nodup_cons.1 hnodup
    show run rule (visit rule view i) rest j = _
    rw [ih hrest]
    by_cases hij : j = i
    · subst hij
      rw [if_neg hi, if_pos List.mem_cons_self]
      exact Function.update_self _ _ _
    · have hmem : j ∈ i :: rest ↔ j ∈ rest := by simp [hij]
      simp only [hmem]
      rw [rule_visit hlocal view hij]
      split
      · rfl
      · exact Function.update_of_ne hij _ _

/-- **The order of the updates does not matter.** -/
theorem run_perm (hlocal : Local digest rule) {members members' : List ι}
    (hnodup : members.Nodup) (hperm : members.Perm members') (view : ι → β) :
    run rule view members = run rule view members' := by
  funext j
  rw [run_apply hlocal hnodup, run_apply hlocal (hperm.nodup_iff.1 hnodup)]
  simp only [hperm.mem_iff]

end LocalUpdate
