import BeamOptics.Proofs.Determinants

/-! Multiples of linear systems. The elimination of a multiple of a matrix takes the same steps, with
multiples of the pivots, so the multiple is accepted with the matrix, has the same solutions, and its
determinant is the power of the factor times that of the matrix. -/

namespace BeamOptics

variable {n : ℕ} {k : ℝ}

/-! ### The steps of an elimination -/

def Elimination.scale (k : ℝ) : {n : ℕ} → Elimination ℝ n → Elimination ℝ n
  | 0, .done => .done
  | _ + 1, .step top pivot right factors rest =>
    .step top (pivot * k) (right.map (· * k)) factors (rest.scale k)

theorem Elimination.pivots_scale (e : Elimination ℝ n) :
    (e.scale k).pivots = e.pivots.map (· * k) := by
  induction e with
  | done => rfl
  | step top pivot right factors rest ih =>
    simp only [scale, pivots, List.map_cons, ih]

theorem Mat.pivotRow_scale (hk : k ≠ 0) (A : Mat ℝ (n + 1)) : (A.scale k).pivotRow = A.pivotRow := by
  have hless (a b : ℝ) : |a * k| < |b * k| ↔ |a| < |b| := by
    rw [abs_mul, abs_mul, mul_lt_mul_iff_left₀ (abs_pos.mpr hk)]
  simp only [pivotRow, entry_scale, Scalar.real_abs, hless]

theorem map_ofFn (f : Fin n → ℝ) : (Vector.ofFn f).map (· * k) = Vector.ofFn fun i => f i * k := by
  apply Vector.ext
  intro i hi
  simp

theorem Mat.scale_ofFn (f : Fin n → Fin n → ℝ) :
    (ofFn f).scale k = ofFn fun i j => f i j * k := by
  apply ext_entry
  intro i j
  simp only [entry_scale, entry_ofFn]

/-- A multiple of a matrix is eliminated by the same steps. -/
theorem Mat.eliminate_scale (hk : k ≠ 0) (A : Mat ℝ n) :
    (A.scale k).eliminate = A.eliminate.scale k := by
  -- By induction over the columns; a column without a pivot has none in the multiple either.
  induction n with
  | zero => rfl
  | succ n ih =>
    have htop := pivotRow_scale hk A
    by_cases h : A.entry A.pivotRow 0 = 0
    · have hscaled : (A.scale k).entry (A.scale k).pivotRow 0 = 0 := by
        rw [htop, entry_scale, h, zero_mul]
      rw [eliminate_skip h, eliminate_skip hscaled, Elimination.scale, map_ofFn, ← ih, scale_ofFn]
      simp only [entry_scale]
    · -- The factors are quotients of two entries of the column, so they stay.
      obtain ⟨right, factors, B, heliminate, hright, hfactors, hB⟩ := eliminate_step h
      rw [heliminate, Elimination.scale, ← ih, ← entry_scale]
      refine eliminate_of_pivot htop ?_ (fun j => ?_) (fun i => ?_) (fun i j => ?_)
      · simpa [hk] using h
      · rw [entry_scale, hright, Fin.getElem_fin, Vector.getElem_map]
        rfl
      · change _ = factors.get i
        rw [entry_scale, entry_scale, hfactors, Scalar.real_one]
        field_simp
      · change _ - (right.map (· * k))[j] * factors.get i = _
        rw [entry_scale, entry_scale, hB, Fin.getElem_fin, Vector.getElem_map]
        change _ - right.get j * k * _ = _
        ring

/-! ### Determinants and pivots of a multiple -/

theorem prod_map_mul_const {α : Type} (f : α → ℝ) (xs : List α) :
    (xs.map fun x => f x * k).prod = (xs.map f).prod * k ^ xs.length := by
  rw [List.prod_map_mul, List.map_const', List.prod_replicate]

/-- A factor on an `n` by `n` matrix enters the determinant `n` times. -/
theorem Mat.determinant_scale (A : Mat ℝ n) :
    (A.scale k).determinant = A.determinant * k ^ n := by
  have hscaled : (A.scale k).toMatrix = k • A.toMatrix := by
    ext i j
    exact (entry_scale ..).trans (mul_comm _ _)
  rw [determinant_eq_det, determinant_eq_det, hscaled, Matrix.det_smul, Fintype.card_fin, mul_comm]

theorem Elimination.smallestPivot_scale (e : Elimination ℝ n) :
    (e.scale k).smallestPivot = e.smallestPivot * |k| := by
  have hfold (ps : List ℝ) (x : ℝ) :
      (ps.map (· * k)).foldl (fun acc q => min acc |q|) (x * |k|) =
        ps.foldl (fun acc q => min acc |q|) x * |k| := by
    induction ps generalizing x with
    | nil => rfl
    | cons p ps ih =>
      rw [List.map_cons, List.foldl_cons, abs_mul, ← min_mul_of_nonneg _ _ (abs_nonneg k), ih,
        List.foldl_cons]
  unfold smallestPivot
  rw [pivots_scale]
  cases e.pivots with
  | nil => simp
  | cons p ps =>
    change (ps.map (· * k)).foldl (fun acc q => min acc |q|) |p * k| = _
    rw [abs_mul, hfold]
    rfl

theorem Mat.entries_scale (A : Mat ℝ n) : (A.scale k).entries = A.entries.map (· * k) := by
  have hrows (f : Fin n → Fin n → ℝ) :
      (ofFn f).entries = (List.ofFn fun i => List.ofFn (f i)).flatten := by
    simp only [entries, ofFn, Vector.toList_ofFn, List.flatMap, List.map_ofFn, Function.comp_def]
  have hA : A = ofFn A.entry := ext_entry fun i j => (entry_ofFn ..).symm
  rw [hA, scale_ofFn, hrows, hrows, List.map_flatten, List.map_ofFn]
  simp only [Function.comp_def, List.map_ofFn]

theorem Mat.maxAbs_scale (A : Mat ℝ n) : (A.scale k).maxAbs = A.maxAbs * |k| := by
  have hfold (xs : List ℝ) (m : ℝ) :
      (xs.map (· * k)).foldl (fun acc x => max acc |x|) (m * |k|) =
        xs.foldl (fun acc x => max acc |x|) m * |k| := by
    induction xs generalizing m with
    | nil => rfl
    | cons x xs ih =>
      rw [List.map_cons, List.foldl_cons, abs_mul, ← max_mul_of_nonneg _ _ (abs_nonneg k), ih,
        List.foldl_cons]
  have h := hfold A.entries 0
  rw [zero_mul] at h
  rw [maxAbs, maxAbs, entries_scale, Scalar.maxAbs, Scalar.maxAbs, Scalar.real_zero]
  exact h

/-- The pivot test does not depend on the scale. -/
theorem Mat.passes_scale (hk : k ≠ 0) (A : Mat ℝ n) :
    (A.scale k).PassesPivotTest ↔ A.PassesPivotTest := by
  unfold PassesPivotTest
  rw [eliminate_scale hk, Elimination.smallestPivot_scale, maxAbs_scale, ← mul_assoc,
    mul_lt_mul_iff_left₀ (abs_pos.mpr hk)]

/-! ### Solutions of a multiple -/

theorem get_map_mul (b : Vector ℝ n) (i : Fin n) : (b.map (· * k)).get i = b.get i * k := by
  simp [Vector.get_eq_getElem]

theorem Mat.Solves.scale {A : Mat ℝ n} {x b : Vector ℝ n} (h : A.Solves x b) :
    (A.scale k).Solves x (b.map (· * k)) := by
  intro i
  rw [get_map_mul, ← h i, Finset.sum_mul]
  simp only [entry_scale, mul_right_comm]

theorem Mat.Solves.map_mul {A : Mat ℝ n} {x b : Vector ℝ n} (h : A.Solves x b) :
    A.Solves (x.map (· * k)) (b.map (· * k)) := by
  intro i
  rw [get_map_mul, ← h i, Finset.sum_mul]
  simp only [get_map_mul, mul_assoc]

/-- A multiple is refused with the matrix, though its pivot in the fault is another one, and else has
the solutions of the matrix. -/
theorem Mat.factorize_scale (hk : k ≠ 0) (A : Mat ℝ n) :
    Alike (fun _ _ => True) (fun e e' => ∀ b, e.solve b = e'.solve (b.map (· * k)))
      A.factorize (A.scale k).factorize := by
  by_cases h : A.PassesPivotTest
  · have hscaled := (passes_scale hk A).mpr h
    rw [factorize_of_passes h, factorize_of_passes hscaled]
    refine .ok fun b => ?_
    -- The solution of the matrix solves the multiple, which has one solution.
    have hsolves := (solves_iff h.pivots_ne_zero _ b).mpr rfl
    exact (solves_iff hscaled.pivots_ne_zero _ _).mp hsolves.scale
  · obtain ⟨f, hf⟩ := factorize_of_not_passes h
    obtain ⟨g, hg⟩ := factorize_of_not_passes (mt (passes_scale hk A).mp h)
    rw [hf, hg]
    exact .error trivial

/-- A multiple of a system has its solutions. -/
theorem Mat.solveMat_scale (hk : k ≠ 0) (A B : Mat ℝ n) :
    Alike (fun _ _ => True) (· = ·) (A.solveMat B) ((A.scale k).solveMat (B.scale k)) := by
  refine (factorize_scale hk A).map fun e e' he => ?_
  have hcolumn (j : Fin n) : (B.scale k).column j = (B.column j).map (· * k) := by
    rw [column, column, map_ofFn]
    simp only [entry_scale]
  simp only [Elimination.solveMat, hcolumn, he]

/-- Multiples of a right-hand side have multiples of its solution. -/
theorem Mat.solve_map_mul (A : Mat ℝ n) (b : Vector ℝ n) :
    A.solve (b.map (· * k)) = (A.solve b).map (·.map (· * k)) := by
  unfold solve
  cases hA : A.factorize with
  | error f => rfl
  | ok e =>
    obtain ⟨rfl, hpivots⟩ := factorize_eq_ok hA
    have hsolves := (solves_iff hpivots _ b).mpr rfl
    exact congrArg Except.ok ((solves_iff hpivots _ _).mp hsolves.map_mul).symm

end BeamOptics
