import BeamOptics.Proofs.RankMeasure

/-! Relaxation candidates of a full history. The secant estimate is the product of the recursion's
increments with the inverse of the argument's, so a candidate depends on the affine map behind the
increments and not on the increments. The pivot test of the solver is not free of scale: it refuses
increments of very different lengths that the normalized determinant accepts. -/

namespace BeamOptics

open Matrix

variable {n : ℕ}

theorem Square.solveMat_eq_map {K : Type} [Scalar K] (A B : Mat K n) :
    Square.solveMat ⟨n, A⟩ ⟨n, B⟩ = (A.solveMat B).map (⟨n, ·⟩) := by
  unfold solveMat withSameDim
  rw [dif_pos rfl]
  change (A.solveMat B >>= fun X => Except.ok (Square.mk n X)) = _
  cases A.solveMat B with
  | error f => rfl
  | ok X => rfl

noncomputable def frobeniusNorm (M : Matrix (Fin n) (Fin n) ℝ) : ℝ := √(∑ i, ∑ j, M i j ^ 2)

theorem frobeniusNorm_transpose (M : Matrix (Fin n) (Fin n) ℝ) : frobeniusNorm Mᵀ = frobeniusNorm M :=
  congrArg Real.sqrt Finset.sum_comm

/-- Only the zero matrix has no norm. -/
theorem frobeniusNorm_pos {M : Matrix (Fin n) (Fin n) ℝ} : 0 < frobeniusNorm M ↔ M ≠ 0 := by
  have hrow (i : Fin n) : 0 ≤ ∑ j, M i j ^ 2 := Finset.sum_nonneg fun _ _ => sq_nonneg _
  have hzero : ∑ i, ∑ j, M i j ^ 2 = 0 ↔ M = 0 := by
    rw [Finset.sum_eq_zero_iff_of_nonneg fun i _ => hrow i, ← Matrix.ext_iff]
    simp [Finset.sum_eq_zero_iff_of_nonneg fun _ _ => sq_nonneg _]
  rw [frobeniusNorm, Real.sqrt_pos, (Finset.sum_nonneg fun i _ => hrow i).lt_iff_ne', ne_eq, hzero]

namespace History

/-! ### The residual operator -/

/-- As many pairs as the capacity says, of increments with as many components. -/
structure Complete (h : History ℝ) : Prop where
  length : h.increments.length = h.capacity
  dims : ∀ pair ∈ h.increments, pair.1.dim = h.capacity ∧ pair.2.dim = h.capacity

noncomputable def argumentMat (h : History ℝ) : Mat ℝ h.capacity := columnMat h.capacity h.arguments

noncomputable def recursionMat (h : History ℝ) : Mat ℝ h.capacity := columnMat h.capacity h.recursions

noncomputable def residualOperator (h : History ℝ) : Matrix (Fin h.capacity) (Fin h.capacity) ℝ :=
  1 - h.recursionMat.toMatrix * h.argumentMat.toMatrix⁻¹

noncomputable def secantFactor (h : History ℝ) : ℝ :=
  |h.residualOperator.trace| / frobeniusNorm h.residualOperator

variable {h : History ℝ}

namespace Complete

theorem isFull (hc : h.Complete) : h.isFull = true := decide_eq_true hc.length

theorem argument_length (hc : h.Complete) : h.arguments.length = h.capacity :=
  List.length_map _ |>.trans hc.length

theorem argument_dim (hc : h.Complete) : ∀ v ∈ h.arguments, v.dim = h.capacity :=
  List.forall_mem_map.mpr fun pair hpair => (hc.dims pair hpair).1

theorem ofColumns_arguments (hc : h.Complete) :
    Square.ofColumns h.arguments = .ok ⟨h.capacity, h.argumentMat⟩ :=
  Square.ofColumns_eq hc.argument_length hc.argument_dim

theorem ofColumns_recursions (hc : h.Complete) :
    Square.ofColumns h.recursions = .ok ⟨h.capacity, h.recursionMat⟩ :=
  Square.ofColumns_eq (List.length_map _ |>.trans hc.length)
    (List.forall_mem_map.mpr fun pair hpair => (hc.dims pair hpair).2)

/-- In matrices, the residual operator is what the solver leaves of the identity. -/
theorem secantResidual_eq (hc : h.Complete) : h.secantResidual =
    (h.argumentMat.transpose.solveMat h.recursionMat.transpose).map
      fun jacobian => ⟨h.capacity, .identity h.capacity - jacobian⟩ := by
  unfold secantResidual
  rw [hc.ofColumns_arguments, hc.ofColumns_recursions]
  -- The solver is asked for the transposed estimate.
  change Square.solveMat ⟨h.capacity, h.argumentMat.transpose⟩
    ⟨h.capacity, h.recursionMat.transpose⟩ >>= _ = _
  rw [Square.solveMat_eq_map]
  cases h.argumentMat.transpose.solveMat h.recursionMat.transpose with
  | error f => rfl
  | ok jacobian => exact dif_pos rfl

/-- If the increments pass the pivot test, the solver finds the residual operator. -/
theorem secantResidual_of_passes (hc : h.Complete) (hp : h.argumentMat.transpose.PassesPivotTest) :
    ∃ r, h.secantResidual = .ok r ∧ r.trace = h.residualOperator.trace ∧
      r.frobenius = frobeniusNorm h.residualOperator := by
  obtain ⟨X, hX, hjacobian⟩ := Mat.solveMat_of_passes hp h.recursionMat.transpose
  -- The operator comes out transposed, which neither its trace nor its norm sees.
  have hresidual : (Mat.identity h.capacity - X).toMatrix = h.residualOperatorᵀ := by
    rw [residualOperator, transpose_sub, transpose_one, transpose_mul, transpose_nonsing_inv,
      Mat.toMatrix_sub, Mat.toMatrix_identity, hjacobian, Mat.toMatrix_transpose,
      Mat.toMatrix_transpose]
  refine ⟨⟨h.capacity, .identity h.capacity - X⟩, ?_, ?_, ?_⟩
  · rw [hc.secantResidual_eq, hX]
    rfl
  · calc (Mat.identity h.capacity - X).trace
        = (Mat.identity h.capacity - X).toMatrix.trace := Mat.trace_eq _
      _ = h.residualOperator.trace := by rw [hresidual, trace_transpose]
  · calc (Mat.identity h.capacity - X).frobenius
        = frobeniusNorm (Mat.identity h.capacity - X).toMatrix := Mat.frobenius_eq_sqrt _
      _ = frobeniusNorm h.residualOperator := by rw [hresidual, frobeniusNorm_transpose]

theorem secantResidual_of_not_passes (hc : h.Complete)
    (hp : ¬ h.argumentMat.transpose.PassesPivotTest) : ∃ f, h.secantResidual = .error f := by
  obtain ⟨f, hf⟩ := Mat.factorize_of_not_passes hp
  refine ⟨.numeric f, ?_⟩
  rw [hc.secantResidual_eq, Mat.solveMat, hf]
  rfl

theorem normalizedDeterminant_isOk (hc : h.Complete) : ∃ d, h.normalizedDeterminant = .ok d :=
  ⟨_, normalizedDeterminant_eq hc.argument_length hc.argument_dim⟩

end Complete

/-! ### Refused histories -/

/-- The increments are nearly dependent, or the solver refuses them, or the residual operator
vanishes. -/
def Refused (h : History ℝ) (rankTolerance : ℝ) : Prop :=
  (∃ d, h.normalizedDeterminant = .ok d ∧ d < rankTolerance) ∨
    ¬ h.argumentMat.transpose.PassesPivotTest ∨ h.residualOperator = 0

variable {rankTolerance : ℝ}

namespace Complete

/-- What a full history suggests, by its determinant and its residual operator. -/
theorem candidate_eq (hc : h.Complete) {d : ℝ} (hd : h.normalizedDeterminant = .ok d) :
    h.candidate rankTolerance =
      if d < rankTolerance then .error (.numeric (.rankDeficient d))
      else h.secantResidual.bind fun r =>
        if 0 < r.frobenius then .ok (some (|r.trace| / r.frobenius))
        else .error (.numeric .vanishingSecant) := by
  unfold candidate
  rw [hc.isFull, hd]
  change (if d < rankTolerance then _ else _) = _
  split_ifs with hrank
  · rfl
  · apply congrArg h.secantResidual.bind
    funext r
    simp only [Scalar.real_isPositive, decide_eq_true_eq]
    rfl

/-- A refused history has a fault to show for it. -/
theorem candidate_of_refused (hc : h.Complete) (hr : h.Refused rankTolerance) :
    ∃ f, h.candidate rankTolerance = .error f := by
  obtain ⟨d, hd⟩ := hc.normalizedDeterminant_isOk
  rw [hc.candidate_eq hd]
  split_ifs with hrank
  · exact ⟨_, rfl⟩
  -- The rank is high enough, so one of the other two tests refuses the history.
  by_cases hp : h.argumentMat.transpose.PassesPivotTest
  · -- Only the residual operator is left to refuse the history.
    have hzero : h.residualOperator = 0 := by
      rcases hr with ⟨d', hd', hlt⟩ | hp' | hzero
      · cases hd.symm.trans hd'
        exact absurd hlt hrank
      · exact absurd hp hp'
      · exact hzero
    obtain ⟨r, hr, -, hnorm⟩ := hc.secantResidual_of_passes hp
    have hpos : ¬ 0 < r.frobenius := by
      rw [hnorm, frobeniusNorm_pos, not_not]
      exact hzero
    rw [hr]
    exact ⟨_, if_neg hpos⟩
  · obtain ⟨f, hf⟩ := hc.secantResidual_of_not_passes hp
    rw [hf]
    exact ⟨f, rfl⟩

/-- A history that is not refused suggests the factor of its residual operator. -/
theorem candidate_of_not_refused (hc : h.Complete) (hr : ¬ h.Refused rankTolerance) :
    h.candidate rankTolerance = .ok (some h.secantFactor) := by
  obtain ⟨d, hd⟩ := hc.normalizedDeterminant_isOk
  obtain ⟨hrank, hrest⟩ := not_or.mp hr
  obtain ⟨hp, hne⟩ := not_or.mp hrest
  obtain ⟨r, hr, htrace, hnorm⟩ := hc.secantResidual_of_passes (not_not.mp hp)
  have hranked : ¬ d < rankTolerance := fun hlt => hrank ⟨d, hd, hlt⟩
  have hpos : 0 < r.frobenius := by
    rw [hnorm]
    exact frobeniusNorm_pos.mpr hne
  calc h.candidate rankTolerance
      = .ok (some (|r.trace| / r.frobenius)) := by
        rw [hc.candidate_eq hd, if_neg hranked, hr]
        exact if_pos hpos
    _ = .ok (some h.secantFactor) := by rw [htrace, hnorm, secantFactor]

/-- A full history is at fault exactly if it is refused. -/
theorem candidate_eq_error_iff (hc : h.Complete) :
    (∃ f, h.candidate rankTolerance = .error f) ↔ h.Refused rankTolerance := by
  refine ⟨?_, hc.candidate_of_refused⟩
  rintro ⟨f, hf⟩
  by_contra hr
  cases hf.symm.trans (hc.candidate_of_not_refused hr)

end Complete

/-! ### Factors of the pairs -/

noncomputable def rescale (h : History ℝ) (k : ℕ → ℝ) : History ℝ :=
  ⟨h.capacity, h.increments.mapIdx fun i pair => (pair.1.scale (k i), pair.2.scale (k i))⟩

variable {k : ℕ → ℝ}

theorem arguments_rescale (h : History ℝ) (k : ℕ → ℝ) :
    (h.rescale k).arguments = scaleEach k h.arguments := by
  apply List.ext_getElem?
  intro i
  simp only [arguments, rescale, scaleEach, List.getElem?_map, List.getElem?_mapIdx, Option.map_map,
    Function.comp_def]

theorem recursions_rescale (h : History ℝ) (k : ℕ → ℝ) :
    (h.rescale k).recursions = scaleEach k h.recursions := by
  apply List.ext_getElem?
  intro i
  simp only [recursions, rescale, scaleEach, List.getElem?_map, List.getElem?_mapIdx, Option.map_map,
    Function.comp_def]

theorem Complete.rescale (hc : h.Complete) (k : ℕ → ℝ) : (h.rescale k).Complete where
  length := List.length_mapIdx.trans hc.length
  dims := by
    intro pair hpair
    obtain ⟨i, hi, rfl⟩ := List.mem_mapIdx.mp hpair
    obtain ⟨hargument, hrecursion⟩ := hc.dims _ (List.getElem_mem hi)
    exact ⟨(Vec.dim_scale ..).trans hargument, (Vec.dim_scale ..).trans hrecursion⟩

theorem Complete.normalizedDeterminant_rescale (hc : h.Complete) (hk : ∀ i, k i ≠ 0) :
    (h.rescale k).normalizedDeterminant = h.normalizedDeterminant := by
  have hscaled := normalizedDeterminant_eq (hc.rescale k).argument_length (hc.rescale k).argument_dim
  rw [hscaled, normalizedDeterminant_eq hc.argument_length hc.argument_dim, arguments_rescale,
    columnMat_scaleEach]
  exact congrArg Except.ok (rankMeasure_scaled _ fun j => hk j)

/-- Factors on the pairs cancel in the residual operator. -/
theorem residualOperator_rescale (h : History ℝ) (hk : ∀ i, k i ≠ 0) :
    (h.rescale k).residualOperator = h.residualOperator := by
  let D : Matrix (Fin h.capacity) (Fin h.capacity) ℝ := diagonal fun j => k j
  have hD : IsUnit D.det := by
    rw [det_diagonal, isUnit_iff_ne_zero]
    exact Finset.prod_ne_zero_iff.mpr fun j _ => hk j
  -- The factors of the argument's increments are taken back by those of the recursion's.
  have hestimate : (columnMat h.capacity (h.rescale k).recursions).toMatrix *
      (columnMat h.capacity (h.rescale k).arguments).toMatrix⁻¹ =
        h.recursionMat.toMatrix * h.argumentMat.toMatrix⁻¹ :=
    calc (columnMat h.capacity (h.rescale k).recursions).toMatrix *
          (columnMat h.capacity (h.rescale k).arguments).toMatrix⁻¹
        = h.recursionMat.toMatrix * D * (h.argumentMat.toMatrix * D)⁻¹ := by
          rw [arguments_rescale, recursions_rescale, columnMat_scaleEach, columnMat_scaleEach]
          rfl
      _ = h.recursionMat.toMatrix * (D * D⁻¹) * h.argumentMat.toMatrix⁻¹ := by
          rw [Matrix.mul_inv_rev]
          simp only [Matrix.mul_assoc]
      _ = h.recursionMat.toMatrix * h.argumentMat.toMatrix⁻¹ := by
          rw [mul_nonsing_inv _ hD, Matrix.mul_one]
  exact congrArg (1 - ·) hestimate

/-- Factors that keep the pivot test as it is keep the candidate. -/
theorem Complete.candidate_rescale (hc : h.Complete) (hk : ∀ i, k i ≠ 0)
    (hp : (h.rescale k).argumentMat.transpose.PassesPivotTest ↔
      h.argumentMat.transpose.PassesPivotTest) :
    Alike (fun _ _ => True) (· = ·) (h.candidate rankTolerance)
      ((h.rescale k).candidate rankTolerance) := by
  -- The factors change none of the three tests.
  have hrefused : (h.rescale k).Refused rankTolerance ↔ h.Refused rankTolerance := by
    unfold Refused
    rw [hc.normalizedDeterminant_rescale hk, hp, residualOperator_rescale h hk]
    rfl
  by_cases hr : h.Refused rankTolerance
  · obtain ⟨f, hf⟩ := hc.candidate_of_refused hr
    obtain ⟨g, hg⟩ := (hc.rescale k).candidate_of_refused (hrefused.mpr hr)
    rw [hf, hg]
    exact .error trivial
  · have hfactor : (h.rescale k).secantFactor = h.secantFactor := by
      unfold secantFactor
      rw [residualOperator_rescale h hk]
      rfl
    rw [hc.candidate_of_not_refused hr, (hc.rescale k).candidate_of_not_refused (mt hrefused.mp hr),
      hfactor]
    exact .ok rfl

/-! ### Linear recursions -/

section Linear

variable {M : Matrix (Fin h.capacity) (Fin h.capacity) ℝ}

theorem residualOperator_of_linear (hregular : h.argumentMat.toMatrix.det ≠ 0)
    (hM : h.recursionMat.toMatrix = M * h.argumentMat.toMatrix) : h.residualOperator = 1 - M := by
  rw [residualOperator, hM, mul_nonsing_inv_cancel_right _ _ (isUnit_iff_ne_zero.mpr hregular)]

theorem regular_of_not_refused (hnot : ¬ h.Refused rankTolerance) :
    h.argumentMat.toMatrix.det ≠ 0 := by
  -- The pivot test says it of the transposed matrix.
  obtain ⟨-, hrest⟩ := not_or.mp hnot
  have hpasses := not_not.mp (not_or.mp hrest).1
  rw [← det_transpose, ← Mat.toMatrix_transpose]
  exact hpasses.det_ne_zero

theorem vectorFamily_eq {vs : List (Vec ℝ)} {j : Fin n} {x : Fin n → ℝ}
    (hx : vs[(j : ℕ)]? = some ⟨List.ofFn x⟩) : vectorFamily n vs j = x := by
  have hmember : vs.getD j ⟨[]⟩ = ⟨List.ofFn x⟩ := by
    rw [List.getD_eq_getElem?_getD, hx, Option.getD_some]
  ext i
  rw [vectorFamily, hmember, List.getD_eq_getElem _ _ (by simp), List.getElem_ofFn]

/-- The increments of a linear recursion are its matrix times those of the argument. -/
theorem recursionMat_of_linear (hlength : h.increments.length = h.capacity)
    (hpairs : ∀ pair ∈ h.increments, ∃ x, pair = (⟨List.ofFn x⟩, ⟨List.ofFn (M *ᵥ x)⟩)) :
    h.recursionMat.toMatrix = M * h.argumentMat.toMatrix := by
  ext i j
  have hj : (j : ℕ) < h.increments.length := hlength.symm ▸ j.isLt
  obtain ⟨x, hx⟩ := hpairs _ (List.getElem_mem hj)
  -- Column for column, the recursion is the map of the argument.
  have hargument : vectorFamily h.capacity h.arguments j = x := by
    apply vectorFamily_eq
    rw [arguments, List.getElem?_map, List.getElem?_eq_getElem hj, hx, Option.map_some]
  have hrecursion : vectorFamily h.capacity h.recursions j = M *ᵥ x := by
    apply vectorFamily_eq
    rw [recursions, List.getElem?_map, List.getElem?_eq_getElem hj, hx, Option.map_some]
  calc h.recursionMat.toMatrix i j
      = vectorFamily h.capacity h.recursions j i := Mat.entry_ofFn ..
    _ = ∑ l, M i l * vectorFamily h.capacity h.arguments j l := by
        rw [hrecursion, hargument]
        rfl
    _ = (M * h.argumentMat.toMatrix) i j := by
        rw [mul_apply]
        simp only [argumentMat, columnMat, Mat.toMatrix_apply, Mat.entry_ofFn]

end Linear

/-! ### Increments along two axes -/

/-- Increments along two axes, the second one `ε` long and with an answer along the first. -/
noncomputable def axes (ε answer : ℝ) : History ℝ :=
  ⟨2, [(⟨[1, 0]⟩, ⟨[0, 0]⟩), (⟨[0, ε]⟩, ⟨[answer, 0]⟩)]⟩

variable {ε answer : ℝ}

theorem axes_complete (ε answer : ℝ) : (axes ε answer).Complete where
  length := rfl
  dims := by simp [axes, Vec.dim]

noncomputable def axesMat (ε : ℝ) : Mat ℝ 2 := ⟨#v[#v[1, 0], #v[0, ε]]⟩

theorem axes_arguments : columnMat 2 (axes ε answer).arguments = axesMat ε := by
  apply Mat.ext_entry
  intro i j
  rw [columnMat, Mat.entry_ofFn]
  fin_cases i <;> fin_cases j <;> rfl

theorem axes_recursions : columnMat 2 (axes ε answer).recursions = ⟨#v[#v[0, answer], #v[0, 0]]⟩ := by
  apply Mat.ext_entry
  intro i j
  rw [columnMat, Mat.entry_ofFn]
  fin_cases i <;> fin_cases j <;> rfl

/-- The operator of two axes is a shear that grows as the second axis becomes shorter. -/
theorem axes_residualOperator (hε : ε ≠ 0) :
    (axes ε answer).residualOperator = !![1, -(answer / ε); 0, 1] := by
  have hregular : (columnMat 2 (axes ε answer).arguments).toMatrix.det ≠ 0 := by
    rw [axes_arguments, det_fin_two]
    simpa [axesMat, Mat.entry] using hε
  have hlinear : (columnMat 2 (axes ε answer).recursions).toMatrix =
      !![0, answer / ε; 0, 0] * (columnMat 2 (axes ε answer).arguments).toMatrix := by
    rw [axes_arguments, axes_recursions]
    ext i j
    fin_cases i <;> fin_cases j <;> simp [axesMat, Mat.entry, mul_apply, Fin.sum_univ_two, hε]
  have hresidual : (axes ε answer).residualOperator =
      (1 - !![0, answer / ε; 0, 0] : Matrix (Fin 2) (Fin 2) ℝ) :=
    @residualOperator_of_linear (axes ε answer) _ hregular hlinear
  rw [hresidual]
  ext i j
  fin_cases i <;> fin_cases j <;> simp

theorem axes_secantFactor (hε : ε ≠ 0) :
    (axes ε answer).secantFactor = 2 / √(2 + (answer / ε) ^ 2) := by
  have htrace : (axes ε answer).residualOperator.trace = 2 := by
    rw [axes_residualOperator hε]
    exact (trace_fin_two _).trans one_add_one_eq_two
  have hnorm : frobeniusNorm (axes ε answer).residualOperator = √(2 + (answer / ε) ^ 2) := by
    have hsum : frobeniusNorm !![1, -(answer / ε); 0, 1] = √(2 + (answer / ε) ^ 2) := by
      rw [frobeniusNorm]
      congr 1
      simp [Fin.sum_univ_two]
      ring
    rw [axes_residualOperator hε]
    exact hsum
  rw [secantFactor, htrace, hnorm, abs_of_pos two_pos]

theorem axesMat_eliminate (hε : ε ≠ 0) :
    (axesMat ε).eliminate = .step 0 1 #v[0] #v[0] (.step 0 ε #v[] #v[] .done) := by
  have hlast : (⟨#v[#v[ε]]⟩ : Mat ℝ 1).eliminate = .step 0 ε #v[] #v[] .done := by
    refine Mat.eliminate_of_pivot (B := ⟨#v[]⟩) rfl ?_ nofun nofun nofun
    simp [Mat.entry, hε]
  have htop : (axesMat ε).pivotRow = 0 := by
    simp [axesMat, Mat.pivotRow, Fin.foldl_succ, Mat.entry]
  rw [← hlast]
  apply Mat.eliminate_of_pivot htop
  · simp [axesMat, Mat.entry]
  · simp [axesMat, Mat.entry]
  · simp [axesMat, Mat.entry, exchange]
  · simp [axesMat, Mat.entry, exchange]

theorem axes_transpose : (columnMat 2 (axes ε answer).arguments).transpose = axesMat ε := by
  rw [axes_arguments]
  apply Mat.ext_entry
  intro i j
  rw [Mat.entry_transpose]
  fin_cases i <;> fin_cases j <;> rfl

/-- The pivots are the lengths of the increments, so the shorter one must not be negligible. -/
theorem axes_passes_iff (hε : 0 < ε) (hle : ε ≤ 1) :
    (axes ε answer).argumentMat.transpose.PassesPivotTest ↔ Mat.negligiblePivot < ε := by
  have hmax : (axesMat ε).maxAbs = 1 := by
    simp [axesMat, Mat.maxAbs, Mat.entries, Scalar.maxAbs, abs_of_pos hε, hle]
  have hsmallest : (axesMat ε).eliminate.smallestPivot = ε := by
    rw [axesMat_eliminate hε.ne']
    simp [Elimination.smallestPivot, Elimination.pivots, abs_of_pos hε, hle]
  change (columnMat 2 (axes ε answer).arguments).transpose.PassesPivotTest ↔ _
  rw [axes_transpose, Mat.PassesPivotTest, hmax, hsmallest, mul_one]

/-- The determinant does not see the lengths, and the axes stay at right angles. -/
theorem axes_normalizedDeterminant (hε : ε ≠ 0) :
    (axes ε answer).normalizedDeterminant = .ok 1 := by
  have hcolumns : (∀ j, (axesMat ε).toMatrix.col j ≠ 0) ∧
      Pairwise fun i j => (axesMat ε).toMatrix.col i ⬝ᵥ (axesMat ε).toMatrix.col j = 0 := by
    simp [axesMat, Mat.entry, Pairwise, dotProduct, Fin.forall_fin_two, Fin.sum_univ_two, funext_iff,
      hε]
  have hargument := normalizedDeterminant_eq (axes_complete ε answer).argument_length
    (axes_complete ε answer).argument_dim
  change _ = Except.ok (rankMeasure (columnMat 2 (axes ε answer).arguments).toMatrix) at hargument
  rw [hargument, axes_arguments, (rankMeasure_eq_one _).mpr hcolumns]

theorem axes_residualOperator_ne_zero (hε : ε ≠ 0) : (axes ε answer).residualOperator ≠ 0 := by
  rw [axes_residualOperator hε]
  intro hzero
  exact one_ne_zero (congrFun (congrFun hzero 0) 0)

/-- The axes are refused exactly if the second one is too short for the pivot test. -/
theorem axes_refused_iff (hε : 0 < ε) (hle : ε ≤ 1) :
    (axes ε answer).Refused 1e-8 ↔ ε ≤ Mat.negligiblePivot := by
  unfold Refused
  rw [axes_passes_iff hε hle, not_lt, axes_normalizedDeterminant hε.ne']
  constructor
  · rintro (⟨d, hd, hlt⟩ | hp | hzero)
    · cases hd
      norm_num at hlt
    · exact hp
    · exact absurd hzero (axes_residualOperator_ne_zero hε.ne')
  · intro hp
    exact .inr (.inl hp)

theorem axes_unit_not_refused (answer : ℝ) : ¬ (axes 1 answer).Refused 1e-8 := by
  rw [axes_refused_iff one_pos le_rfl]
  norm_num [Mat.negligiblePivot]

theorem axes_short_refused (answer : ℝ) : (axes 1e-14 answer).Refused 1e-8 := by
  rw [axes_refused_iff (by norm_num) (by norm_num)]
  norm_num [Mat.negligiblePivot]

theorem axes_unit_secantFactor (answer : ℝ) :
    (axes 1 answer).secantFactor = 2 / √(2 + answer ^ 2) := by
  rw [axes_secantFactor one_ne_zero, div_one]

/-! ### Outcomes -/

/-- A complete history is refused for nearly dependent increments, for increments that do not pass the
solver's pivot test, or for a residual operator that vanishes, and has its secant factor otherwise.
Factors of the pairs change this through the pivot test only, and a common factor does not at all. -/
theorem candidate_outcome (hc : h.Complete) (rankTolerance : ℝ) :
    ((∃ f, h.candidate rankTolerance = .error f) ↔ h.Refused rankTolerance) ∧
      (¬ h.Refused rankTolerance → h.candidate rankTolerance = .ok (some h.secantFactor)) ∧
      (∀ k : ℕ → ℝ, (∀ i, k i ≠ 0) →
        ((h.rescale k).argumentMat.transpose.PassesPivotTest ↔
          h.argumentMat.transpose.PassesPivotTest) →
        Alike (fun _ _ => True) (· = ·) (h.candidate rankTolerance)
          ((h.rescale k).candidate rankTolerance)) ∧
      ∀ k : ℝ, k ≠ 0 → Alike (fun _ _ => True) (· = ·) (h.candidate rankTolerance)
        ((h.scale k).candidate rankTolerance) := by
  refine ⟨hc.candidate_eq_error_iff, hc.candidate_of_not_refused, ?_, ?_⟩
  · intro k hk hp
    exact hc.candidate_rescale hk hp
  · intro k hk
    exact candidate_scale hk h rankTolerance

/-- The same increments with a second axis of length one, and with one too short for the pivot test.
-/
theorem candidate_outcome_axes :
    (axes 1 1).Complete ∧ (axes 1 1).candidate 1e-8 = .ok (some (2 / √3)) ∧
      (axes 1e-14 1).Complete ∧ ∃ f, (axes 1e-14 1).candidate 1e-8 = .error f := by
  obtain ⟨-, hfactor, -, -⟩ := candidate_outcome (axes_complete 1 1) 1e-8
  obtain ⟨hrefused, -, -, -⟩ := candidate_outcome (axes_complete 1e-14 1) 1e-8
  refine ⟨axes_complete 1 1, ?_, axes_complete 1e-14 1, hrefused.mpr (axes_short_refused 1)⟩
  rw [hfactor (axes_unit_not_refused 1), axes_unit_secantFactor]
  norm_num

/-- Orthogonal increments of very different lengths are refused, though multiples of them are not. -/
theorem candidate_short_axis :
    (axes 1e-14 0).Complete ∧ (axes 1e-14 0).normalizedDeterminant = .ok 1 ∧
      (axes 1e-14 0).residualOperator ≠ 0 ∧ (∃ f, (axes 1e-14 0).candidate 1e-8 = .error f) ∧
      axes 1e-14 0 = (axes 1 0).rescale (fun i => if i = 0 then 1 else 1e-14) ∧
      (axes 1 0).candidate 1e-8 = .ok (some (2 / √2)) := by
  have hne : (1e-14 : ℝ) ≠ 0 := by norm_num
  refine ⟨axes_complete _ _, axes_normalizedDeterminant hne, axes_residualOperator_ne_zero hne,
    (axes_complete _ _).candidate_of_refused (axes_short_refused 0), ?_, ?_⟩
  · simp [axes, rescale, Vec.scale]
  · rw [(axes_complete 1 0).candidate_of_not_refused (axes_unit_not_refused 0),
      axes_unit_secantFactor]
    norm_num

/-- The candidate of a linear recursion is that of its map, whatever the increments are. -/
theorem candidate_of_linear {M : Matrix (Fin h.capacity) (Fin h.capacity) ℝ}
    (hpairs : ∀ pair ∈ h.increments, ∃ x, pair = (⟨List.ofFn x⟩, ⟨List.ofFn (M *ᵥ x)⟩)) {v : ℝ}
    (hv : h.candidate rankTolerance = .ok (some v)) :
    v = |(1 - M).trace| / frobeniusNorm (1 - M) ∧ 0 ≤ v ∧ v ≤ √h.capacity := by
  -- A candidate comes from a full history that was not refused.
  have hlength : h.increments.length = h.capacity := by
    by_contra hsize
    cases (candidate_of_size_ne h rankTolerance hsize).symm.trans hv
  have hc : h.Complete := by
    refine ⟨hlength, fun pair hpair => ?_⟩
    obtain ⟨x, rfl⟩ := hpairs pair hpair
    simp [Vec.dim]
  have hnot : ¬ h.Refused rankTolerance := by
    intro hr
    obtain ⟨f, hf⟩ := hc.candidate_of_refused hr
    cases hf.symm.trans hv
  -- The operator of a linear recursion is what its matrix leaves of the identity.
  have hvalue : v = |(1 - M).trace| / frobeniusNorm (1 - M) := by
    rw [hc.candidate_of_not_refused hnot, secantFactor, residualOperator_of_linear
      (regular_of_not_refused hnot) (recursionMat_of_linear hlength hpairs)] at hv
    cases hv
    rfl
  refine ⟨hvalue, ?_, candidate_le_sqrt hv⟩
  rw [hvalue]
  exact div_nonneg (abs_nonneg _) (Real.sqrt_nonneg _)

/-- A linear recursion that answers along the first axis. -/
theorem candidate_of_linear_axes :
    (∀ pair ∈ (axes 1 1).increments, ∃ x : Fin 2 → ℝ,
      pair = (⟨List.ofFn x⟩, ⟨List.ofFn (!![0, 1; 0, 0] *ᵥ x)⟩)) ∧
      (axes 1 1).candidate 1e-8 = .ok (some (2 / √3)) ∧ 2 / √3 ≤ √2 := by
  have hpairs : ∀ pair ∈ (axes 1 1).increments, ∃ x : Fin 2 → ℝ,
      pair = (⟨List.ofFn x⟩, ⟨List.ofFn (!![0, 1; 0, 0] *ᵥ x)⟩) := by
    intro pair hpair
    simp only [axes, List.mem_cons, List.not_mem_nil, or_false] at hpair
    rcases hpair with rfl | rfl
    · exact ⟨![1, 0], by simp⟩
    · exact ⟨![0, 1], by simp⟩
  have hcandidate : (axes 1 1).candidate 1e-8 = .ok (some (2 / √3)) := by
    rw [(axes_complete 1 1).candidate_of_not_refused (axes_unit_not_refused 1),
      axes_unit_secantFactor]
    norm_num
  obtain ⟨-, -, hle⟩ := candidate_of_linear hpairs hcandidate
  exact ⟨hpairs, hcandidate, hle⟩

end History

end BeamOptics
