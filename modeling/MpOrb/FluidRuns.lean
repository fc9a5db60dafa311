import MpOrb.FluidEquilibrium
import MpOrb.Lib.RungeKutta
import Mathlib.LinearAlgebra.Pi

/-!
# Runs of the fluid integration

What holds at every step of `fluid`, in real arithmetic.

* `rk4_real` — the step of the integration is the Runge–Kutta method.
* `rest_forever` — a state at rest stays.
* `Symmetry` — a relabelling of subflows and links that leaves the case as it is; `rhs_relabel`.
* `fluidRow_symmetric` — a row does not tell apart what a symmetry exchanges; `equal_treatment` —
  nor does any row of a run.
-/

set_option autoImplicit false

namespace MpOrb.FluidModel

open PyFloat

variable {n m : ℕ} {case : Case ℝ n m}

theorem rk4_real (f : (Entry n m → ℝ) → Entry n m → ℝ) (dt : ℝ) (z : Entry n m → ℝ) :
    rk4 f dt z = RungeKutta.step f dt z := by
  have htwo : (lit 2 : ℝ) = (2 : ℕ) := by
    rw [lit_real]
    norm_num
  have hsix : (lit 6 : ℝ) = (6 : ℕ) := by
    rw [lit_real]
    norm_num
  have hdouble : ∀ x : ℝ, ((2 : ℕ) : ℝ) * x = 2 • x := fun x => (nsmul_eq_mul 2 x).symm
  funext e
  simp only [rk4, htwo, hsix, hdouble]
  rfl

/-! ## Rest -/

/-- Windows keep a segment and queues are not negative. -/
structure AboveFloor (z : Entry n m → ℝ) : Prop where
  window : ∀ i, MSS ≤ z (.W i)
  queue : ∀ j, 0 ≤ z (.Q j)

theorem clamp_of_aboveFloor {z : Entry n m → ℝ} (h : AboveFloor z) : clamp z = z := by
  funext e
  cases e with
  | W i =>
    show NumPy.maximum (z (.W i)) (ofInt MSS) = _
    rw [NumPy.maximum_real, ofInt_real]
    exact max_eq_left (h.window i)
  | Q j =>
    show NumPy.maximum (z (.Q j)) (lit 0) = _
    rw [NumPy.maximum_real, lit_real, Rat.cast_zero]
    exact max_eq_left (h.queue j)
  | u j => rfl
  | s i => rfl

theorem Interior.aboveFloor {z : Entry n m → ℝ} (hz : Interior z) : AboveFloor z :=
  ⟨fun i => (hz.window i).le, hz.queue⟩

theorem advance_of_rest {z : Entry n m → ℝ} (hrest : Stationary case z) (hfloor : AboveFloor z)
    (dt : ℝ) : advance case dt z = z := by
  unfold advance
  rw [rk4_real, RungeKutta.step_of_zero (funext hrest), clamp_of_aboveFloor hfloor]

/-- **Rest lasts**, whatever the step of the integration. -/
theorem rest_forever {z : Entry n m → ℝ} (hrest : Stationary case z) (hfloor : AboveFloor z)
    (dt : ℝ) (step : ℕ) : (advance case dt)^[step] z = z :=
  Function.iterate_fixed (advance_of_rest hrest hfloor dt) step

/-! ## Symmetry -/

/-- A relabelling of subflows, links and connections that leaves the case as it is. -/
structure Symmetry (case : Case ℝ n m) where
  subflow : Equiv.Perm (Fin n)
  link : Equiv.Perm (Fin m)
  id : ℤ → ℤ
  injective : Function.Injective id
  capacity : ∀ j, case.capacity (link j) = case.capacity j
  pathLink : ∀ i, case.pathLink (subflow i) = link (case.pathLink i)
  connection : ∀ i, case.connection (subflow i) = id (case.connection i)
  propagation : ∀ i, case.propagation (subflow i) = case.propagation i
  initialFraction : ∀ i, case.initialFraction (subflow i) = case.initialFraction i

namespace Symmetry

variable (g : Symmetry case)

/-- Where a relabelling takes an entry of the state. -/
def entry : Entry n m → Entry n m
  | .W i => .W (g.subflow i)
  | .Q j => .Q (g.link j)
  | .u j => .u (g.link j)
  | .s i => .s (g.subflow i)

/-- The state with its entries relabelled. -/
def relabel : (Entry n m → ℝ) →ₗ[ℝ] Entry n m → ℝ := LinearMap.funLeft ℝ ℝ g.entry

theorem incident_relabel {v v' : Fin n → ℝ} (hv : ∀ i, v' i = v (g.subflow i)) (j : Fin m) :
    incident case v' j = incident case v (g.link j) := by
  rw [incident_real, incident_real, Finset.sum_filter, Finset.sum_filter,
    ← Equiv.sum_comp g.subflow fun i => if case.pathLink i = g.link j then v i else 0]
  refine Finset.sum_congr rfl fun i _ => ?_
  simp only [g.pathLink, g.link.injective.eq_iff, hv]

theorem counts_link (j : Fin m) : case.counts (g.link j) = case.counts j := by
  have himage : case.connections (g.link j) = (case.connections j).image g.id := by
    ext c
    simp only [Case.connections, Finset.mem_image, Finset.mem_filter, Finset.mem_univ, true_and]
    constructor
    · rintro ⟨i, hi, rfl⟩
      obtain ⟨k, rfl⟩ := g.subflow.surjective i
      rw [g.pathLink, g.link.injective.eq_iff] at hi
      exact ⟨_, ⟨k, hi, rfl⟩, (g.connection k).symm⟩
    · rintro ⟨_, ⟨k, rfl, rfl⟩, rfl⟩
      exact ⟨g.subflow k, g.pathLink k, g.connection k⟩
  unfold Case.counts
  rw [himage, Finset.card_image_of_injective _ g.injective]

theorem floatWeights_relabel (W s W' s' : Fin n → ℝ) (hW : ∀ i, W' i = W (g.subflow i))
    (hs : ∀ i, s' i = s (g.subflow i)) (i : Fin n) :
    floatWeights case W' s' i = floatWeights case W s (g.subflow i) := by
  have hsum : ∑ k with case.connection k = case.connection i, W' k / s' k =
      ∑ k with case.connection k = case.connection (g.subflow i), W k / s k := by
    rw [Finset.sum_filter, Finset.sum_filter, ← Equiv.sum_comp g.subflow fun k =>
      if case.connection k = case.connection (g.subflow i) then W k / s k else 0]
    refine Finset.sum_congr rfl fun k _ => ?_
    simp only [g.connection, g.injective.eq_iff, hW, hs]
  rw [floatWeights_real, floatWeights_real, hsum, hW, hs]

/-! Relabelled states have relabelled quantities. -/

section Quantities

variable (z : Entry n m → ℝ)

theorem quantities_W_relabel (i : Fin n) :
    (quantities case (g.relabel z)).W i = (quantities case z).W (g.subflow i) := rfl

theorem quantities_Q_relabel (j : Fin m) :
    (quantities case (g.relabel z)).Q j = (quantities case z).Q (g.link j) := rfl

theorem quantities_R_relabel (i : Fin n) :
    (quantities case (g.relabel z)).R i = (quantities case z).R (g.subflow i) := by
  show case.propagation i + (quantities case z).Q (g.link _) / case.capacity _ =
    case.propagation (g.subflow i) + (quantities case z).Q _ / case.capacity _
  rw [g.propagation, g.pathLink, g.capacity]

theorem quantities_x_relabel (i : Fin n) :
    (quantities case (g.relabel z)).x i = (quantities case z).x (g.subflow i) := by
  show (quantities case z).W (g.subflow i) / (quantities case (g.relabel z)).R i = _
  rw [quantities_R_relabel]
  rfl

theorem quantities_incoming_relabel (j : Fin m) :
    (quantities case (g.relabel z)).incoming j = (quantities case z).incoming (g.link j) :=
  g.incident_relabel (g.quantities_x_relabel z) j

theorem quantities_service_relabel (j : Fin m) :
    (quantities case (g.relabel z)).service j = (quantities case z).service (g.link j) := by
  show (if lt (lit 0) ((quantities case z).Q (g.link j)) then kappa case * case.capacity j
    else NumPy.minimum ((quantities case (g.relabel z)).incoming j)
      (kappa case * case.capacity j)) = _
  rw [quantities_incoming_relabel, ← g.capacity j]
  rfl

theorem quantities_H_relabel (j : Fin m) :
    (quantities case (g.relabel z)).H j = (quantities case z).H (g.link j) := by
  refine congrArg₂ (· / ·) (g.incident_relabel (fun i => ?_) j) (g.incident_relabel (fun i => ?_) j)
  · rw [g.propagation]
    exact congrArg (fun x : ℝ => x * case.propagation i * case.propagation i /
      (quantities case z).W (g.subflow i)) (g.quantities_x_relabel z i)
  · rw [g.propagation]
    exact congrArg (fun x : ℝ => x * case.propagation i / (quantities case z).W (g.subflow i))
      (g.quantities_x_relabel z i)

end Quantities

/-- **The right-hand side does not see labels.** -/
theorem rhs_relabel (z : Entry n m → ℝ) : g.relabel (rhs case z) = rhs case (g.relabel z) := by
  funext e
  cases e with
  | W i =>
    have hweight := g.floatWeights_relabel (quantities case z).W
      (fun i => NumPy.maximum (z (.s i)) (lit (1 / 10 ^ 9))) (quantities case (g.relabel z)).W
      (fun i => NumPy.maximum (g.relabel z (.s i)) (lit (1 / 10 ^ 9)))
      (g.quantities_W_relabel z) (fun _ => rfl) i
    show rhs case z (.W (g.subflow i)) = _
    simp only [rhs, hweight, g.quantities_W_relabel, g.quantities_R_relabel, g.pathLink, g.capacity,
      g.counts_link]
    rfl
  | Q j =>
    show rhs case z (.Q (g.link j)) = _
    simp only [rhs, g.quantities_Q_relabel, g.quantities_incoming_relabel,
      g.quantities_service_relabel]
  | u j =>
    show rhs case z (.u (g.link j)) = _
    simp only [rhs, g.quantities_Q_relabel, g.quantities_service_relabel, g.quantities_H_relabel,
      g.capacity]
    rfl
  | s i =>
    show rhs case z (.s (g.subflow i)) = _
    simp only [rhs, g.quantities_x_relabel, g.quantities_R_relabel]
    rfl

theorem clamp_relabel (z : Entry n m → ℝ) : g.relabel (clamp z) = clamp (g.relabel z) := by
  funext e
  cases e <;> rfl

theorem advance_relabel (dt : ℝ) (z : Entry n m → ℝ) :
    g.relabel (advance case dt z) = advance case dt (g.relabel z) := by
  unfold advance
  rw [clamp_relabel, rk4_real, rk4_real, RungeKutta.step_map _ g.rhs_relabel]

theorem startState_relabel : g.relabel (startState case) = startState case := by
  funext e
  cases e with
  | W i =>
    show case.initialFraction (g.subflow i) * case.capacity (case.pathLink (g.subflow i)) *
      case.propagation (g.subflow i) = _
    rw [g.initialFraction, g.pathLink, g.capacity, g.propagation]
    rfl
  | Q j => rfl
  | u j => rfl
  | s i => exact g.propagation i

/-- **Every state of a run keeps the symmetries of the case.** -/
theorem stateAt_relabel (dt : ℝ) (step : ℕ) :
    g.relabel (stateAt case dt step) = stateAt case dt step := by
  induction step with
  | zero => exact g.startState_relabel
  | succ step ih =>
    have hstep : stateAt case dt (step + 1) = advance case dt (stateAt case dt step) :=
      Function.iterate_succ_apply' _ _ _
    rw [hstep, advance_relabel, ih]

end Symmetry

/-- A row in which subflows and links that a symmetry exchanges have the same values. -/
structure FluidRow.Symmetric (g : Symmetry case) (row : FluidRow ℝ n m) : Prop where
  x : ∀ i, row.x (g.subflow i) = row.x i
  W : ∀ i, row.W (g.subflow i) = row.W i
  Q : ∀ j, row.Q (g.link j) = row.Q j
  u : ∀ j, row.u (g.link j) = row.u j

theorem fluidRow_symmetric (case : Case ℝ n m) (g : Symmetry case) (dt : ℝ) (step : ℕ) :
    (fluidRow case dt step).Symmetric g := by
  have hstate := g.stateAt_relabel dt step
  refine ⟨fun i => ?_, fun i => ?_, fun j => ?_, fun j => ?_⟩
  · have hx := g.quantities_x_relabel (stateAt case dt step) i
    rw [hstate] at hx
    exact hx.symm
  · exact congrArg (NumPy.maximum · _) (congrFun hstate (.W i))
  · exact congrArg (NumPy.maximum · _) (congrFun hstate (.Q j))
  · exact congrFun hstate (.u j)

/-- **Equal treatment.**  Whatever the step, the rows of the integration have the symmetries of the
case: subflows with the same links, delays and siblings up to names have the same rates and
windows, in every state and in every row that `fluid` returns. -/
theorem equal_treatment (case : Case ℝ n m) (g : Symmetry case) (dt : ℝ) :
    (∀ step, (fluidRow case dt step).Symmetric g) ∧
      ∀ duration recordStep rows, fluid case duration dt recordStep = some rows →
        ∀ row ∈ rows, row.Symmetric g := by
  refine ⟨fluidRow_symmetric case g dt, ?_⟩
  intro duration recordStep rows hrows row hrow
  unfold fluid at hrows
  obtain ⟨stride, -, hrows⟩ := Option.bind_eq_some_iff.1 hrows
  obtain ⟨steps, -, hrows⟩ := Option.bind_eq_some_iff.1 hrows
  cases hrows
  obtain ⟨step, -, rfl⟩ := List.mem_map.1 hrow
  exact fluidRow_symmetric case g dt step

/-- Two links of 100 Mbps. -/
def equalLinks : Case ℚ 2 2 :=
  { capacity := fun _ => 12500000
    pathLink := id
    connection := fun _ => 0
    propagation := fun _ => 1 / 25
    initialFraction := fun _ => 1 / 2 }

/-- The links change places. -/
def swapLinks : Symmetry equalLinks.real where
  subflow := Fin.revPerm
  link := Fin.revPerm
  id := id
  injective := Function.injective_id
  capacity _ := rfl
  pathLink _ := rfl
  connection _ := rfl
  propagation _ := rfl
  initialFraction _ := rfl

/-- Ten seconds in steps of a millisecond: the links carry the same rate in every row. -/
theorem equal_treatment_two_links :
    ∃ rows, fluid equalLinks.real 10 (1 / 1000) = some rows ∧ ∀ row ∈ rows, row.x 1 = row.x 0 := by
  obtain ⟨-, hrows⟩ := equal_treatment equalLinks.real swapLinks (1 / 1000)
  exact ⟨_, rfl, fun row hrow => (hrows 10 _ _ rfl row hrow).x 0⟩

end MpOrb.FluidModel
