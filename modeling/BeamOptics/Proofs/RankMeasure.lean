import BeamOptics.Proofs.Secants

/-! The normalized determinant as a measure of rank. By Hadamard's inequality a determinant is at most
the product of the lengths of its columns, and reaches it for orthogonal columns only; so the ratio lies
between zero, for dependent increments, and one, for orthogonal ones, and it sees neither the order of
the increments nor their lengths. -/

namespace BeamOptics

open Matrix

variable {n : ℕ}

/-! ### Hadamard's inequality -/

section Columns

variable (S : Matrix (Fin n) (Fin n) ℝ)

noncomputable def columnLength (j : Fin n) : ℝ := √(∑ i, S i j ^ 2)

/-- The absolute determinant relative to the lengths of the columns. -/
noncomputable def rankMeasure : ℝ := |S.det| / ∏ j, columnLength S j

theorem columnLength_nonneg (j : Fin n) : 0 ≤ columnLength S j := Real.sqrt_nonneg _

theorem columnLength_eq_zero {j : Fin n} : columnLength S j = 0 ↔ S.col j = 0 := by
  rw [columnLength, Real.sqrt_eq_zero (Finset.sum_nonneg fun _ _ => sq_nonneg _),
    Finset.sum_eq_zero_iff_of_nonneg fun _ _ => sq_nonneg _]
  simp only [Finset.mem_univ, true_imp_iff, sq_eq_zero_iff, funext_iff, col_apply, Pi.zero_apply]

theorem sq_columnLength (j : Fin n) : columnLength S j ^ 2 = S.col j ⬝ᵥ S.col j := by
  rw [columnLength, Real.sq_sqrt (Finset.sum_nonneg fun _ _ => sq_nonneg _)]
  simp only [dotProduct, col_apply, sq]

noncomputable def columnPoint (j : Fin n) : EuclideanSpace ℝ (Fin n) := WithLp.toLp _ (S.col j)

/-- The length of a column is the norm of its point. -/
theorem norm_columnPoint (j : Fin n) : ‖columnPoint S j‖ = columnLength S j := by
  rw [EuclideanSpace.norm_eq, columnLength]
  simp only [Real.norm_eq_abs, sq_abs]
  rfl

theorem inner_columnPoint (i j : Fin n) :
    inner ℝ (columnPoint S i) (columnPoint S j) = S.col i ⬝ᵥ S.col j := by
  rw [columnPoint, columnPoint, EuclideanSpace.inner_toLp_toLp, dotProduct_comm]
  simp

/-- In some orthonormal basis the determinant is a product of one coordinate of each column. -/
theorem exists_abs_det_eq_prod :
    ∃ b : OrthonormalBasis (Fin n) ℝ (EuclideanSpace ℝ (Fin n)),
      |S.det| = ∏ j, |inner ℝ (b j) (columnPoint S j)| := by
  have hdim : Module.finrank ℝ (EuclideanSpace ℝ (Fin n)) = Fintype.card (Fin n) := by simp
  have hfact : Fact (Module.finrank ℝ (EuclideanSpace ℝ (Fin n)) = n) := ⟨by simp⟩
  -- The volume of the columns is the same in the given coordinates and in those of Gram and Schmidt.
  let given := EuclideanSpace.basisFun (Fin n) ℝ
  let b := InnerProductSpace.gramSchmidtOrthonormalBasis hdim (columnPoint S)
  have hgiven : given.toBasis.det (columnPoint S) = S.det := by
    rw [Module.Basis.det_apply]
    rfl
  have hb : b.toBasis.det (columnPoint S) = ∏ j, inner ℝ (b j) (columnPoint S j) :=
    InnerProductSpace.gramSchmidtOrthonormalBasis_det hdim (columnPoint S)
  refine ⟨b, ?_⟩
  rw [← hgiven, ← Finset.abs_prod, ← hb,
    ← given.toBasis.orientation.volumeForm_robust' given (columnPoint S),
    given.toBasis.orientation.volumeForm_robust' b (columnPoint S)]

theorem abs_coordinate_le (b : OrthonormalBasis (Fin n) ℝ (EuclideanSpace ℝ (Fin n))) (j : Fin n) :
    |inner ℝ (b j) (columnPoint S j)| ≤ columnLength S j := by
  have hle := abs_real_inner_le_norm (b j) (columnPoint S j)
  rwa [b.orthonormal.1 j, one_mul, norm_columnPoint] at hle

/-- The determinant is at most the product of the lengths of the columns. -/
theorem abs_det_le : |S.det| ≤ ∏ j, columnLength S j := by
  obtain ⟨b, hb⟩ := exists_abs_det_eq_prod S
  rw [hb]
  exact Finset.prod_le_prod (fun _ _ => abs_nonneg _) fun j _ => abs_coordinate_le S b j

/-- Orthogonal columns span a box. -/
theorem abs_det_of_orthogonal (h : Pairwise fun i j => S.col i ⬝ᵥ S.col j = 0) :
    |S.det| = ∏ j, columnLength S j := by
  -- Orthogonal columns have a diagonal matrix of inner products, with the squared lengths on it.
  have hgram : Sᵀ * S = diagonal fun j => columnLength S j ^ 2 := by
    ext i j
    change S.col i ⬝ᵥ S.col j = _
    by_cases hij : i = j
    · subst hij
      rw [diagonal_apply_eq, sq_columnLength]
    · rw [diagonal_apply_ne _ hij]
      exact h hij
  have hsq : S.det ^ 2 = (∏ j, columnLength S j) ^ 2 := by
    have hdet := congrArg det hgram
    rw [det_mul, det_transpose, det_diagonal, ← sq, Finset.prod_pow] at hdet
    exact hdet
  rw [← abs_of_nonneg (Finset.prod_nonneg fun j _ => columnLength_nonneg S j)]
  exact (sq_eq_sq_iff_abs_eq_abs _ _).mp hsq

/-- Only orthogonal columns span as much as a box with their lengths. -/
theorem orthogonal_of_abs_det (hne : ∀ j, S.col j ≠ 0) (h : |S.det| = ∏ j, columnLength S j) :
    Pairwise fun i j => S.col i ⬝ᵥ S.col j = 0 := by
  obtain ⟨b, hb⟩ := exists_abs_det_eq_prod S
  have hpos : ∀ j, 0 < columnLength S j := fun j =>
    (columnLength_nonneg S j).lt_of_ne' (mt (columnLength_eq_zero S).mp (hne j))
  -- A coordinate that falls short of its column's length would make the product smaller.
  have hcoordinate : ∀ j, |inner ℝ (b j) (columnPoint S j)| = columnLength S j := by
    by_contra! hshort
    obtain ⟨j, hj⟩ := hshort
    have hprod : 0 < ∏ j, |inner ℝ (b j) (columnPoint S j)| := by
      rw [← hb, h]
      exact Finset.prod_pos fun j _ => hpos j
    have hlt : ∏ j, |inner ℝ (b j) (columnPoint S j)| < ∏ j, columnLength S j := by
      refine Finset.prod_lt_prod (fun i hi => ?_) (fun i _ => abs_coordinate_le S b i)
        ⟨j, Finset.mem_univ j, (abs_coordinate_le S b j).lt_of_ne hj⟩
      exact (abs_nonneg _).lt_of_ne' (Finset.prod_ne_zero_iff.mp hprod.ne' i hi)
    exact hlt.ne (hb.symm.trans h)
  -- So each column is a multiple of its basis vector.
  have hmultiple : ∀ j, ∃ r : ℝ, columnPoint S j = r • b j := by
    intro j
    have hpoint : columnPoint S j ≠ 0 := by
      rw [← norm_pos_iff, norm_columnPoint]
      exact hpos j
    have hnorm : ‖inner ℝ (b j) (columnPoint S j)‖ = ‖b j‖ * ‖columnPoint S j‖ := by
      rw [Real.norm_eq_abs, hcoordinate, b.orthonormal.1 j, one_mul, norm_columnPoint]
    obtain ⟨r, -, hr⟩ := (norm_inner_eq_norm_iff (b.orthonormal.ne_zero j) hpoint).mp hnorm
    exact ⟨r, hr⟩
  intro i j hij
  obtain ⟨r, hr⟩ := hmultiple i
  obtain ⟨s, hs⟩ := hmultiple j
  rw [← inner_columnPoint, hr, hs, real_inner_smul_left, real_inner_smul_right,
    b.orthonormal.2 hij, mul_zero, mul_zero]

/-! ### The measure -/

theorem rankMeasure_nonneg : 0 ≤ rankMeasure S :=
  div_nonneg (abs_nonneg _) (Finset.prod_nonneg fun j _ => columnLength_nonneg S j)

theorem rankMeasure_le_one : rankMeasure S ≤ 1 :=
  div_le_one_of_le₀ (abs_det_le S) (Finset.prod_nonneg fun j _ => columnLength_nonneg S j)

/-- The measure vanishes exactly for dependent columns. -/
theorem rankMeasure_eq_zero : rankMeasure S = 0 ↔ ¬ LinearIndependent ℝ S.col := by
  rw [linearIndependent_cols_iff_isUnit, isUnit_iff_isUnit_det, isUnit_iff_ne_zero, not_not,
    rankMeasure, div_eq_zero_iff, abs_eq_zero]
  refine ⟨fun h => h.elim id fun hprod => ?_, Or.inl⟩
  -- A column of length zero makes the determinant vanish as well.
  obtain ⟨j, -, hj⟩ := Finset.prod_eq_zero_iff.mp hprod
  exact det_eq_zero_of_column_eq_zero j (congrFun ((columnLength_eq_zero S).mp hj))

/-- The measure is one exactly for orthogonal columns of which none vanishes. -/
theorem rankMeasure_eq_one : rankMeasure S = 1 ↔
    (∀ j, S.col j ≠ 0) ∧ Pairwise fun i j => S.col i ⬝ᵥ S.col j = 0 := by
  constructor
  · intro h
    have hprod : ∏ j, columnLength S j ≠ 0 := by
      intro hzero
      rw [rankMeasure, hzero, div_zero] at h
      exact zero_ne_one h
    have hne : ∀ j, S.col j ≠ 0 := fun j hj =>
      Finset.prod_ne_zero_iff.mp hprod j (Finset.mem_univ j) ((columnLength_eq_zero S).mpr hj)
    exact ⟨hne, orthogonal_of_abs_det S hne ((div_eq_one_iff_eq hprod).mp h)⟩
  · rintro ⟨hne, horthogonal⟩
    rw [rankMeasure, abs_det_of_orthogonal S horthogonal]
    apply div_self
    exact Finset.prod_ne_zero_iff.mpr fun j _ => mt (columnLength_eq_zero S).mp (hne j)

/-- The order of the columns does not matter. -/
theorem rankMeasure_permuted (σ : Equiv.Perm (Fin n)) :
    rankMeasure (S.submatrix id σ) = rankMeasure S := by
  have hdet : |(S.submatrix id σ).det| = |S.det| := by
    rw [det_permute', abs_mul]
    rcases Int.units_eq_one_or (Equiv.Perm.sign σ) with h | h <;> simp [h]
  have hprod : ∏ j, columnLength (S.submatrix id σ) j = ∏ j, columnLength S j :=
    Equiv.prod_comp σ (columnLength S)
  rw [rankMeasure, rankMeasure, hdet, hprod]

/-- Neither do their lengths. -/
theorem rankMeasure_scaled {k : Fin n → ℝ} (hk : ∀ j, k j ≠ 0) :
    rankMeasure (S * diagonal k) = rankMeasure S := by
  have hlength (j : Fin n) : columnLength (S * diagonal k) j = columnLength S j * |k j| := by
    simp only [columnLength, mul_diagonal, mul_pow]
    rw [← Finset.sum_mul, Real.sqrt_mul' _ (sq_nonneg _), Real.sqrt_sq_eq_abs]
  have hfactor : ∏ j, |k j| ≠ 0 := Finset.prod_ne_zero_iff.mpr fun j _ => abs_ne_zero.mpr (hk j)
  -- Determinant and lengths have the same factor, which drops out of their ratio.
  calc rankMeasure (S * diagonal k)
      = (|S.det| * ∏ j, |k j|) / ((∏ j, columnLength S j) * ∏ j, |k j|) := by
        simp only [rankMeasure, hlength, Finset.prod_mul_distrib]
        rw [det_mul, det_diagonal, abs_mul, Finset.abs_prod]
    _ = rankMeasure S := by rw [rankMeasure, mul_div_mul_right _ _ hfactor]

end Columns

/-! ### Increments as columns -/

noncomputable def vectorFamily (n : ℕ) (vs : List (Vec ℝ)) (j i : Fin n) : ℝ :=
  (vs.getD j ⟨[]⟩).toList.getD i 0

noncomputable def columnMat (n : ℕ) (vs : List (Vec ℝ)) : Mat ℝ n :=
  .ofFn fun i j => vectorFamily n vs j i

theorem col_columnMat (n : ℕ) (vs : List (Vec ℝ)) :
    (columnMat n vs).toMatrix.col = vectorFamily n vs := by
  ext j i
  exact Mat.entry_ofFn ..

theorem Square.ofColumns_eq {vs : List (Vec ℝ)} (hlength : vs.length = n) (hdim : ∀ v ∈ vs, v.dim = n) :
    Square.ofColumns vs = .ok ⟨n, columnMat n vs⟩ := by
  subst hlength
  have hnone : vs.find? (fun v => v.dim ≠ vs.length) = none := by
    rw [List.find?_eq_none]
    intro v hv
    simpa using hdim v hv
  cases hA : Square.ofColumns vs with
  | error f =>
    unfold ofColumns ofRows at hA
    rw [hnone] at hA
    cases hA
  | ok A =>
    rw [ofColumns_eq_ok hA]
    simp [columnMat, vectorFamily]

theorem ofFn_getD {α : Type} {xs : List α} (hlength : xs.length = n) (x : α) :
    List.ofFn (fun i : Fin n => xs.getD i x) = xs := by
  subst hlength
  apply List.ext_getElem
  · exact List.length_ofFn
  · intro i hi hi'
    simp

theorem normTwo_eq {v : Vec ℝ} (hdim : v.dim = n) : v.normTwo = √(∑ i : Fin n, v.toList.getD i 0 ^ 2) := by
  rw [Vec.normTwo, Scalar.real_sumInLanes, Scalar.real_sqrt, ← ofFn_getD hdim 0, List.map_ofFn,
    List.sum_ofFn, ofFn_getD hdim 0]
  simp only [Function.comp_apply, Scalar.square, sq]

theorem prod_normTwo {vs : List (Vec ℝ)} (hlength : vs.length = n) (hdim : ∀ v ∈ vs, v.dim = n) :
    (vs.map Vec.normTwo).prod = ∏ j, columnLength (columnMat n vs).toMatrix j := by
  rw [← ofFn_getD hlength ⟨[]⟩, List.map_ofFn, List.prod_ofFn, ofFn_getD hlength]
  apply Finset.prod_congr rfl
  intro j _
  have hmem : vs.getD j ⟨[]⟩ ∈ vs := by
    rw [List.getD_eq_getElem _ _ (hlength ▸ j.isLt)]
    exact List.getElem_mem _
  rw [Function.comp_apply, normTwo_eq (hdim _ hmem), columnLength]
  simp only [columnMat, Mat.toMatrix_apply, Mat.entry_ofFn, vectorFamily]

namespace History

variable {h : History ℝ}

/-- The normalized determinant of as many increments as they have components is the measure of their
matrix. -/
theorem normalizedDeterminant_eq (hlength : h.arguments.length = n)
    (hdim : ∀ v ∈ h.arguments, v.dim = n) :
    h.normalizedDeterminant = .ok (rankMeasure (columnMat n h.arguments).toMatrix) := by
  have hlengths : (h.arguments.map Vec.normTwo).foldl (· * ·) 1 =
      ∏ j, columnLength (columnMat n h.arguments).toMatrix j := by
    rw [← prod_normTwo hlength hdim, List.prod_eq_foldl]
  unfold normalizedDeterminant
  rw [Square.ofColumns_eq hlength hdim, Scalar.real_one, hlengths]
  apply congrArg Except.ok
  have hdet : (⟨n, columnMat n h.arguments⟩ : Square ℝ).determinant =
      (columnMat n h.arguments).toMatrix.det := Mat.determinant_eq_det _
  rw [hdet, rankMeasure]
  -- Lengths that vanish are divided by as well, which gives zero.
  by_cases hzero : ∏ j, columnLength (columnMat n h.arguments).toMatrix j = 0
  · simp [hzero]
  · simp [hzero]

end History

/-! ### Order and lengths -/

/-- A list in another order has each entry at a place of its own. -/
theorem exists_places {α : Type} {vs ws : List α} (hperm : ws.Perm vs) (hlength : vs.length = n) :
    ∃ σ : Equiv.Perm (Fin n), ∀ (j : Fin n) (x : α), ws.getD j x = vs.getD (σ j) x := by
  subst hlength
  have hvs : vs = (List.finRange vs.length).map fun i => vs[i] := by simp
  obtain ⟨places, rfl, hplaces⟩ : ∃ places : List (Fin vs.length),
      ws = places.map (fun i => vs[i]) ∧ places.Perm (List.finRange vs.length) := by
    have hcomp := congrFun (congrFun (List.eq_map_comp_perm fun i : Fin vs.length => vs[i]) ws)
      (List.finRange vs.length)
    rw [← hvs] at hcomp
    exact hcomp.mpr hperm
  -- The places are each index once, so reading them off is a permutation.
  have hlength : places.length = vs.length := by rw [hplaces.length_eq, List.length_finRange]
  have hnodup : places.Nodup := hplaces.nodup_iff.mpr (List.nodup_finRange _)
  have hall : ∀ i, i ∈ places := fun i => hplaces.mem_iff.mpr (List.mem_finRange i)
  refine ⟨(finCongr hlength.symm).trans (hnodup.getEquivOfForallMemList places hall), ?_⟩
  intro j x
  simp [List.getD_eq_getElem?_getD, hlength]

noncomputable def scaleEach (k : ℕ → ℝ) (vs : List (Vec ℝ)) : List (Vec ℝ) :=
  vs.mapIdx fun i v => v.scale (k i)

theorem length_scaleEach (k : ℕ → ℝ) (vs : List (Vec ℝ)) : (scaleEach k vs).length = vs.length :=
  List.length_mapIdx

theorem dim_scaleEach {vs : List (Vec ℝ)} (hdim : ∀ v ∈ vs, v.dim = n) (k : ℕ → ℝ) :
    ∀ v ∈ scaleEach k vs, v.dim = n := by
  intro w hw
  obtain ⟨i, hi, rfl⟩ := List.mem_mapIdx.mp hw
  exact (Vec.dim_scale ..).trans (hdim _ (List.getElem_mem hi))

theorem vectorFamily_scaleEach (k : ℕ → ℝ) (vs : List (Vec ℝ)) (j i : Fin n) :
    vectorFamily n (scaleEach k vs) j i = k j * vectorFamily n vs j i := by
  have hplace : (scaleEach k vs).getD j ⟨[]⟩ = (vs.getD j ⟨[]⟩).scale (k j) := by
    simp only [scaleEach, List.getD_eq_getElem?_getD, List.getElem?_mapIdx]
    cases vs[(j : ℕ)]? with
    | none => rfl
    | some v => rfl
  rw [vectorFamily, hplace, Vec.getD_scale, mul_comm, vectorFamily]

/-- Factors on the vectors are a diagonal matrix behind the matrix of the columns. -/
theorem columnMat_scaleEach (k : ℕ → ℝ) (vs : List (Vec ℝ)) :
    (columnMat n (scaleEach k vs)).toMatrix =
      (columnMat n vs).toMatrix * diagonal fun j : Fin n => k j := by
  ext i j
  rw [mul_diagonal, mul_comm]
  simp only [columnMat, Mat.toMatrix_apply, Mat.entry_ofFn, vectorFamily_scaleEach]

/-- The normalized determinant of as many increments as they have components lies between zero, for
dependent increments, and one, for orthogonal ones that do not vanish. Neither the order of the
increments nor factors that do not vanish change it. -/
theorem History.normalizedDeterminant_measures_rank {h : History ℝ} (hlength : h.arguments.length = n)
    (hdim : ∀ v ∈ h.arguments, v.dim = n) :
    ∃ d, h.normalizedDeterminant = .ok d ∧ 0 ≤ d ∧ d ≤ 1 ∧
      (d = 0 ↔ ¬ LinearIndependent ℝ (vectorFamily n h.arguments)) ∧
      (d = 1 ↔ (∀ j, vectorFamily n h.arguments j ≠ 0) ∧
        Pairwise fun i j => vectorFamily n h.arguments i ⬝ᵥ vectorFamily n h.arguments j = 0) ∧
      (∀ h' : History ℝ, h'.arguments.Perm h.arguments → h'.normalizedDeterminant = .ok d) ∧
      ∀ (h' : History ℝ) (k : ℕ → ℝ), (∀ i, k i ≠ 0) → h'.arguments = scaleEach k h.arguments →
        h'.normalizedDeterminant = .ok d := by
  rw [← col_columnMat]
  refine ⟨_, normalizedDeterminant_eq hlength hdim, rankMeasure_nonneg _, rankMeasure_le_one _,
    rankMeasure_eq_zero _, rankMeasure_eq_one _, ?_, ?_⟩
  · -- Another order permutes the columns.
    intro h' hperm
    obtain ⟨σ, hσ⟩ := exists_places hperm hlength
    have hcolumns : (columnMat n h'.arguments).toMatrix =
        (columnMat n h.arguments).toMatrix.submatrix id σ := by
      ext i j
      simp only [columnMat, Mat.toMatrix_apply, Mat.entry_ofFn, submatrix_apply, id, vectorFamily, hσ]
    rw [normalizedDeterminant_eq (hperm.length_eq.trans hlength)
      fun v hv => hdim v (hperm.mem_iff.mp hv), hcolumns, rankMeasure_permuted]
  · -- Factors scale them.
    intro h' k hk harguments
    have hlength' : h'.arguments.length = n := by rw [harguments, length_scaleEach, hlength]
    have hdim' : ∀ v ∈ h'.arguments, v.dim = n := by
      rw [harguments]
      exact dim_scaleEach hdim k
    rw [normalizedDeterminant_eq hlength' hdim', harguments, columnMat_scaleEach,
      rankMeasure_scaled _ fun j => hk j]

noncomputable def History.perpendicular : History ℝ :=
  ⟨2, [(⟨[3, 4]⟩, ⟨[0, 0]⟩), (⟨[-4, 3]⟩, ⟨[1, 0]⟩)]⟩

/-- Increments at right angles have the determinant one, in either order. -/
theorem History.normalizedDeterminant_perpendicular :
    perpendicular.arguments.length = 2 ∧ (∀ v ∈ perpendicular.arguments, v.dim = 2) ∧
      perpendicular.normalizedDeterminant = .ok 1 ∧
      (⟨2, perpendicular.increments.reverse⟩ : History ℝ).normalizedDeterminant = .ok 1 := by
  have hlength : perpendicular.arguments.length = 2 := rfl
  have hdim : ∀ v ∈ perpendicular.arguments, v.dim = 2 := by
    simp [perpendicular, arguments, Vec.dim]
  obtain ⟨d, hd, -, -, -, hone, hperm, -⟩ := normalizedDeterminant_measures_rank hlength hdim
  -- The columns are at right angles, and none of them is zero.
  have hne : ∀ j, vectorFamily 2 perpendicular.arguments j ≠ 0 := by
    intro j hzero
    have hfirst := congrFun hzero 0
    revert hfirst
    fin_cases j <;> norm_num [vectorFamily, perpendicular, arguments]
  have horthogonal : Pairwise fun i j =>
      vectorFamily 2 perpendicular.arguments i ⬝ᵥ vectorFamily 2 perpendicular.arguments j = 0 := by
    intro i j hij
    revert hij
    fin_cases i <;> fin_cases j <;>
      norm_num [vectorFamily, perpendicular, arguments, dotProduct, Fin.sum_univ_two]
  obtain rfl := hone.mpr ⟨hne, horthogonal⟩
  exact ⟨hlength, hdim, hd, hperm _ ((List.reverse_perm _).map _)⟩

end BeamOptics
