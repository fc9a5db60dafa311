import MpOrb.RealFloat
import MpOrb.Lib.Bisection
import MpOrb.Lib.PoleSum
import Mathlib.Data.Fin.VecNotation
import Mathlib.Data.Finset.Card
import Mathlib.Tactic.NormNum

/-!
# The analytical equilibrium

`analytical` of `orbcc-fluid-model`: closed forms for a single link and for uncoupled subflows, and
a bisection for one Alpha connection over disjoint links.

* `load`, `narrow`, `equilibriumTotal`, `rates` — the bisection; `analytical` — all branches.
* `realLoad`, `realRate` — the equation and its rates over the reals, where its root lives;
  `rates_real` — the code computes these rates.
* `Brackets` — what every iteration keeps; `firstBracket_splits` — it holds at the start.
* `equilibrium_bisection` — one root, in every bracket, and close to the total returned.
-/

set_option autoImplicit false

namespace MpOrb.FluidModel

open PyFloat

/-! ## The code -/

section Code

variable {R : Type} [PyFloat R] {n m : ℕ}

/-- `max` of an array. -/
def maximum (B : Fin m → R) : Option R :=
  match List.ofFn B with
  | [] => none
  | b :: rest => some (rest.foldl PyFloat.max b)

/-- `sum(ETA * B / (T - AI_GAIN*B))`. -/
def load (B : Fin m → R) (T : R) : R :=
  PyFloat.sum ((List.finRange m).map fun j => lit ETA * B j / (T - lit AI_GAIN * B j))

/-- `low` just above the largest pole, `high` at twice the capacity. -/
def firstBracket (B : Fin m → R) : Option (R × R) := do
  let largest ← maximum B
  let low := lit AI_GAIN * largest * (lit 1 + lit (1 / 10 ^ 10))
  let high := lit 2 * PyFloat.sum ((List.finRange m).map B)
  return (low, high)

/-- One iteration of the bisection. -/
def narrow (B : Fin m → R) : R × R → R × R
  | (low, high) =>
    let mid := (low + high) / lit 2
    if lt (lit 1) (load B mid) then (mid, high) else (low, mid)

/-- The middle after a hundred iterations. -/
def equilibriumTotal (B : Fin m → R) : Option R := do
  let start ← firstBracket B
  let (low, high) := (narrow B)^[100] start
  return (low + high) / lit 2

/-- The rate of every link at a total. -/
def rates (B : Fin m → R) (total : R) : List R :=
  List.ofFn fun j => lit ETA * B j * total / (total - lit AI_GAIN * B j)

/-- One rate for every subflow of a single link, else one for every link. -/
def analytical (case : Case R n m) : Option (List R) :=
  match List.ofFn case.capacity with
  | [b] =>
    let total := b * (lit ETA + lit AI_GAIN)
    if (Finset.univ.image case.connection).card = 1 then
      let fractions := List.ofFn case.initialFraction
      some (fractions.map fun fraction => total * (fraction / PyFloat.sum fractions))
    else some (List.replicate n (total / ofInt n))
  | _ =>
    if !case.alpha then
      some (List.ofFn fun j => case.capacity j * (lit ETA + lit AI_GAIN))
    else do
      let total ← equilibriumTotal case.capacity
      return rates case.capacity total

end Code

/-! ## The equation over the reals -/

variable {n m : ℕ}

/-- `load` over the reals. -/
noncomputable def realLoad (B : Fin m → ℚ) (T : ℝ) : ℝ :=
  ∑ j, (ETA : ℝ) * B j / (T - AI_GAIN * B j)

/-- The rate of a link over the reals. -/
noncomputable def realRate (B : Fin m → ℚ) (T : ℝ) (j : Fin m) : ℝ :=
  (ETA : ℝ) * B j * T / (T - AI_GAIN * B j)

/-- **What the code returns for a real total.** -/
theorem rates_real (case : Case ℚ n m) (T : ℝ) :
    rates case.real.capacity T = List.ofFn (realRate case.capacity T) := rfl

/-- A root above all poles. -/
structure IsEquilibrium (B : Fin m → ℚ) (largest : ℚ) (T : ℝ) : Prop where
  above : (AI_GAIN : ℝ) * largest < T
  load : realLoad B T = 1

/-- What every iteration keeps of `low` and `high`. -/
structure Brackets (B : Fin m → ℚ) (largest : ℚ) (b : ℚ × ℚ) : Prop where
  above : AI_GAIN * largest < b.1
  low : 1 < load B b.1
  high : load B b.2 ≤ 1
  /-- No denominator of the next `mid` is zero or negative. -/
  denominators : ∀ j, 0 < (b.1 + b.2) / 2 - AI_GAIN * B j

theorem eta_pos : 0 < ETA := by decide +kernel

theorem aiGain_pos : 0 < AI_GAIN := by decide +kernel

section Exact

variable {B : Fin m → ℚ} {largest : ℚ}

theorem maximum_eq_max? (B : Fin m → ℚ) : maximum B = (List.ofFn B).max? := by
  unfold maximum
  cases List.ofFn B with
  | nil => rfl
  | cons b rest =>
    have hmax : PyFloat.max = (Max.max : ℚ → ℚ → ℚ) := by
      funext x y
      exact max_rat x y
    rw [List.max?_cons', ← hmax]

theorem maximum_spec (h : maximum B = some largest) :
    (∀ j, B j ≤ largest) ∧ ∃ j, B j = largest := by
  rw [maximum_eq_max?, List.max?_eq_some_iff] at h
  obtain ⟨hmem, hle⟩ := h
  exact ⟨fun j => hle _ (List.mem_ofFn.2 ⟨j, rfl⟩), List.mem_ofFn.1 hmem⟩

theorem exists_maximum (B : Fin m → ℚ) (hm : 0 < m) : ∃ largest, maximum B = some largest := by
  obtain ⟨k, rfl⟩ := Nat.exists_eq_add_of_lt hm
  exact ⟨_, by rw [maximum, List.ofFn_succ]⟩

theorem load_eq (B : Fin m → ℚ) (T : ℚ) :
    load B T = PoleSum.value (fun j => ETA * B j) (fun j => AI_GAIN * B j) T :=
  sum_finRange _

theorem realLoad_cast (B : Fin m → ℚ) (T : ℚ) : realLoad B T = (load B T : ℚ) := by
  rw [load_eq, PoleSum.value_cast]
  simp [realLoad, PoleSum.value]

/-- The test of the loop. -/
def below (B : Fin m → ℚ) (T : ℚ) : Bool := lt 1 (load B T)

theorem below_iff {T : ℚ} : below B T = true ↔ 1 < load B T := by
  simp [below]

theorem below_eq_false_iff {T : ℚ} : below B T = false ↔ load B T ≤ 1 := by
  simp [below]

theorem narrow_eq (B : Fin m → ℚ) : narrow B = Bisection.narrow (below B) := rfl

/-! ## The first bracket -/

theorem poles_below {T : ℚ} (hle : ∀ j, B j ≤ largest) (hT : AI_GAIN * largest < T) (j : Fin m) :
    AI_GAIN * B j < T :=
  (mul_le_mul_of_nonneg_left (hle j) aiGain_pos.le).trans_lt hT

/-- Next to its pole the term of the largest capacity alone is above one. -/
theorem one_lt_load_low (hB : ∀ j, 0 < B j) (hmax : maximum B = some largest) {low : ℚ}
    (hlow : low = AI_GAIN * largest * (1 + 1 / 10 ^ 10)) :
    AI_GAIN * largest < low ∧ 1 < load B low := by
  obtain ⟨hle, j, rfl⟩ := maximum_spec hmax
  have hj := hB j
  have hgap : low - AI_GAIN * B j = AI_GAIN * B j / 10 ^ 10 := by
    rw [hlow]
    ring
  have hpos : 0 < AI_GAIN * B j / 10 ^ 10 := by
    have := mul_pos aiGain_pos hj
    positivity
  have habove : AI_GAIN * B j < low := by linarith
  refine ⟨habove, ?_⟩
  have hterm : 1 < ETA * B j / (low - AI_GAIN * B j) := by
    rw [hgap, lt_div_iff₀ hpos]
    unfold ETA AI_GAIN
    linarith
  rw [load_eq]
  exact hterm.trans_le (PoleSum.term_le_value (fun i => (mul_pos eta_pos (hB i)).le)
    (poles_below hle habove) j)

/-- At twice the total capacity every denominator is large. -/
theorem load_high_le (hB : ∀ j, 0 < B j) (hm : 0 < m) {high : ℚ} (hhigh : high = 2 * ∑ j, B j) :
    load B high ≤ 1 := by
  have hle : ∀ j, B j ≤ ∑ k, B k := fun j =>
    Finset.single_le_sum (fun k _ => (hB k).le) (Finset.mem_univ j)
  have hsum : 0 < ∑ j, B j := (hB ⟨0, hm⟩).trans_le (hle ⟨0, hm⟩)
  have hfar : ∀ j, ∑ k, B k ≤ high - AI_GAIN * B j := by
    intro j
    have hj := hle j
    rw [hhigh]
    unfold AI_GAIN
    linarith
  rw [load_eq]
  calc PoleSum.value (fun j => ETA * B j) (fun j => AI_GAIN * B j) high
      ≤ (∑ j, ETA * B j) / ∑ k, B k :=
        PoleSum.value_le_of_far (fun j => (mul_pos eta_pos (hB j)).le) hsum hfar
    _ = ETA := by rw [← Finset.mul_sum, mul_div_cancel_right₀ _ hsum.ne']
    _ ≤ 1 := by decide +kernel

theorem firstBracket_eq (hmax : maximum B = some largest) :
    firstBracket B = some (AI_GAIN * largest * (1 + 1 / 10 ^ 10), 2 * ∑ j, B j) := by
  unfold firstBracket
  rw [hmax, sum_finRange]
  rfl

/-- **The first bracket splits the test.** -/
theorem firstBracket_splits (hB : ∀ j, 0 < B j) (hmax : maximum B = some largest) :
    Bisection.Splits (below B) (AI_GAIN * largest * (1 + 1 / 10 ^ 10), 2 * ∑ j, B j) := by
  obtain ⟨-, hlow⟩ := one_lt_load_low hB hmax rfl
  obtain ⟨-, j, hj⟩ := maximum_spec hmax
  refine ⟨?_, below_iff.2 hlow, below_eq_false_iff.2 (load_high_le hB j.pos rfl)⟩
  have hle : B j ≤ ∑ k, B k :=
    Finset.single_le_sum (fun k _ => (hB k).le) (Finset.mem_univ j)
  have hpos := hB j
  rw [hj] at hle hpos
  show AI_GAIN * largest * (1 + 1 / 10 ^ 10) ≤ 2 * ∑ k, B k
  unfold AI_GAIN
  linarith

/-! ## The root -/

theorem brackets_of_splits {b : ℚ × ℚ} (hle : ∀ j, B j ≤ largest)
    (habove : AI_GAIN * largest < b.1) (h : Bisection.Splits (below B) b) :
    Brackets B largest b where
  above := habove
  low := below_iff.1 h.low
  high := below_eq_false_iff.1 h.high
  denominators j := by
    have hpole := poles_below hle habove j
    have hmid := Bisection.le_mid h.ordered
    unfold Bisection.mid at hmid
    linarith

theorem real_poles_below {T : ℝ} (hle : ∀ j, B j ≤ largest) (hT : (AI_GAIN : ℝ) * largest < T)
    (j : Fin m) : (AI_GAIN : ℝ) * B j < T := by
  have hj : (AI_GAIN : ℝ) * B j ≤ AI_GAIN * largest := by
    exact_mod_cast mul_le_mul_of_nonneg_left (hle j) aiGain_pos.le
  exact hj.trans_lt hT

theorem real_weight_pos (hB : ∀ j, 0 < B j) (j : Fin m) : (0 : ℝ) < ETA * B j := by
  exact_mod_cast mul_pos eta_pos (hB j)

/-- **There is at most one root above the poles.** -/
theorem IsEquilibrium.unique {S T : ℝ} (hB : ∀ j, 0 < B j) (hmax : maximum B = some largest)
    (hS : IsEquilibrium B largest S) (hT : IsEquilibrium B largest T) : S = T := by
  obtain ⟨hle, j, -⟩ := maximum_spec hmax
  have : Nonempty (Fin m) := ⟨j⟩
  exact PoleSum.root_unique (real_weight_pos hB) (real_poles_below hle hS.above)
    (real_poles_below hle hT.above) (hS.load.trans hT.load.symm)

/-- **A bracket that splits the test holds a root.** -/
theorem exists_root_of_splits {b : ℚ × ℚ} (hmax : maximum B = some largest)
    (habove : AI_GAIN * largest < b.1) (h : Bisection.Splits (below B) b) :
    ∃ T : ℝ, IsEquilibrium B largest T ∧ (b.1 : ℝ) ≤ T ∧ T ≤ b.2 := by
  have hlow : (1 : ℝ) ≤ realLoad B b.1 := by
    rw [realLoad_cast]
    exact_mod_cast (below_iff.1 h.low).le
  have hhigh : realLoad B b.2 ≤ 1 := by
    rw [realLoad_cast]
    exact_mod_cast below_eq_false_iff.1 h.high
  have habove' : (AI_GAIN : ℝ) * largest < b.1 := by exact_mod_cast habove
  obtain ⟨T, hT, hT', hroot⟩ := PoleSum.exists_root
    (real_poles_below (maximum_spec hmax).1 habove') (by exact_mod_cast h.ordered) hlow hhigh
  exact ⟨T, ⟨habove'.trans_le hT, hroot⟩, hT, hT'⟩

theorem IsEquilibrium.rates {T : ℝ} (hB : ∀ j, 0 < B j) (hmax : maximum B = some largest)
    (h : IsEquilibrium B largest T) : (∀ j, 0 < realRate B T j) ∧ ∑ j, realRate B T j = T := by
  obtain ⟨hle, i, hi⟩ := maximum_spec hmax
  have hlargest : 0 < largest := hi ▸ hB i
  have hT : 0 < T := by
    have hpole : (0 : ℝ) < AI_GAIN * largest := by exact_mod_cast mul_pos aiGain_pos hlargest
    exact hpole.trans h.above
  refine ⟨fun j => ?_, ?_⟩
  · have hpole := real_poles_below hle h.above j
    exact div_pos (mul_pos (real_weight_pos hB j) hT) (sub_pos.2 hpole)
  · calc ∑ j, realRate B T j = T * realLoad B T := PoleSum.sum_mul_div _ _ _
      _ = T := by rw [h.load, mul_one]

end Exact

/-! ## The bisection -/

theorem analytical_eq {case : Case ℚ n m} (hm : 2 ≤ m) (halpha : case.alpha = true) :
    analytical case = (equilibriumTotal case.capacity).map (rates case.capacity) := by
  unfold analytical
  split
  · rename_i b hone
    have hlength := congrArg List.length hone
    simp at hlength
    omega
  · rw [halpha]
    cases equilibriumTotal case.capacity <;> rfl

theorem abs_mid_sub_root_le {b : ℚ × ℚ} {root : ℝ} (hlow : (b.1 : ℝ) ≤ root)
    (hhigh : root ≤ b.2) : |((Bisection.mid b : ℚ) : ℝ) - root| ≤ ((b.2 - b.1 : ℚ) : ℝ) / 2 := by
  have hmid : ((Bisection.mid b : ℚ) : ℝ) = Bisection.mid ((b.1 : ℝ), (b.2 : ℝ)) := by
    unfold Bisection.mid
    push_cast
    rfl
  rw [hmid, Rat.cast_sub]
  exact Bisection.abs_mid_sub_le hlow hhigh

theorem equilibriumTotal_eq {B : Fin m → ℚ} {start : ℚ × ℚ} (h : firstBracket B = some start) :
    equilibriumTotal B = some (Bisection.mid ((narrow B)^[100] start)) := by
  unfold equilibriumTotal
  rw [h]
  rfl

/-- **The equilibrium bisection is sound.**  For two or more links of positive capacity and one
Alpha connection the equation has one root above all poles.  The root is in the first bracket,
every iteration keeps the bracket, the total returned is as close to the root as 100 halvings
make it, and the rates that the code computes for the root are positive and add up to it. -/
theorem equilibrium_bisection (case : Case ℚ n m) (hm : 2 ≤ m) (halpha : case.alpha = true)
    (hB : ∀ j, 0 < case.capacity j) :
    ∃ largest low high total, maximum case.capacity = some largest ∧
      firstBracket case.capacity = some (low, high) ∧
      equilibriumTotal case.capacity = some total ∧
      analytical case = some (rates case.capacity total) ∧
      (∀ k, Brackets case.capacity largest ((narrow case.capacity)^[k] (low, high))) ∧
      (∀ j, 0 < total - AI_GAIN * case.capacity j) ∧
      ∃ root : ℝ, IsEquilibrium case.capacity largest root ∧
        (∀ T, IsEquilibrium case.capacity largest T → T = root) ∧
        (low : ℝ) ≤ root ∧ root ≤ high ∧
        |(total : ℝ) - root| ≤ ((high - low) / 2 ^ 100 : ℚ) ∧
        rates case.real.capacity root = List.ofFn (realRate case.capacity root) ∧
        (∀ rate ∈ rates case.real.capacity root, 0 < rate) ∧
        (rates case.real.capacity root).sum = root := by
  obtain ⟨largest, hmax⟩ := exists_maximum case.capacity (by omega)
  have hle := (maximum_spec hmax).1
  have hfirst := firstBracket_eq hmax
  have hsplits := firstBracket_splits hB hmax
  have hstart := (one_lt_load_low hB hmax rfl).1
  have hkeep : ∀ k, Bisection.Splits (below case.capacity)
      ((narrow case.capacity)^[k] (AI_GAIN * largest * (1 + 1 / 10 ^ 10),
        2 * ∑ j, case.capacity j)) := hsplits.iterate
  have habove : ∀ k, AI_GAIN * largest < ((narrow case.capacity)^[k]
      (AI_GAIN * largest * (1 + 1 / 10 ^ 10), 2 * ∑ j, case.capacity j)).1 :=
    fun k => hstart.trans_le (hsplits.low_le_iterate k)
  -- The root of the last bracket is the root of the first one.
  obtain ⟨root, hroot, hlow, hhigh⟩ := exists_root_of_splits hmax (habove 100) (hkeep 100)
  obtain ⟨root₀, hroot₀, hlow₀, hhigh₀⟩ := exists_root_of_splits hmax hstart hsplits
  have hsame : root₀ = root := hroot₀.unique hB hmax hroot
  subst hsame
  have hbrackets := fun k => brackets_of_splits hle (habove k) (hkeep k)
  obtain ⟨hpos, hsum⟩ := hroot.rates hB hmax
  have htotal := equilibriumTotal_eq hfirst
  refine ⟨largest, _, _, _, hmax, hfirst, htotal, ?_, hbrackets, (hbrackets 100).denominators,
    root₀, hroot, fun T hT => hT.unique hB hmax hroot, hlow₀, hhigh₀, ?_, rates_real case root₀,
    ?_, ?_⟩
  · rw [analytical_eq hm halpha, htotal]
    rfl
  · have hwidth := Bisection.iterate_width (below case.capacity)
      (AI_GAIN * largest * (1 + 1 / 10 ^ 10), 2 * ∑ j, case.capacity j) 100
    have hclose := abs_mid_sub_root_le hlow hhigh
    rw [narrow_eq, hwidth] at hclose
    have hnonneg : 0 ≤ 2 * ∑ j, case.capacity j - AI_GAIN * largest * (1 + 1 / 10 ^ 10) :=
      sub_nonneg.2 hsplits.ordered
    refine hclose.trans (half_le_self ?_)
    exact_mod_cast div_nonneg hnonneg (by positivity)
  · rw [rates_real, List.forall_mem_ofFn_iff]
    exact hpos
  · rw [rates_real, List.sum_ofFn]
    exact hsum

/-- Two disjoint links of one connection, one with half the capacity of the other. -/
def unequalLinks : Case ℚ 2 2 :=
  { capacity := ![100, 50]
    pathLink := id
    connection := fun _ => 0
    propagation := fun _ => 1 / 25
    initialFraction := fun _ => 1 / 2 }

theorem equilibrium_bisection_unequal_links :
    ∃ total, analytical unequalLinks = some (rates ![100, 50] total) ∧
      ∃ root : ℝ, realLoad ![100, 50] root = 1 ∧
        (rates unequalLinks.real.capacity root).sum = root := by
  obtain ⟨largest, low, high, total, -, -, -, htotal, -, -, root, hroot, -, -, -, -, -, -, hsum⟩ :=
    equilibrium_bisection unequalLinks le_rfl rfl (by decide +kernel)
  exact ⟨total, htotal, root, hroot.load, hsum⟩

end MpOrb.FluidModel
