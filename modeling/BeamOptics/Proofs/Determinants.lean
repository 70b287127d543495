import BeamOptics.Proofs.LinearSystems

/-! Determinants over the reals. Each step of an elimination takes multiples of one row from the others,
so the product of the pivots, with the sign of the row exchanges, is the determinant of the matrix. A
matrix that the pivot test accepts is regular, and its solutions are those of the inverse matrix. -/

namespace BeamOptics

variable {n : ℕ}

/-! ### The product of the pivots -/

theorem exchange_eq_swap (top i : Fin (n + 1)) : exchange top i = Equiv.swap 0 top i :=
  (Equiv.swap_apply_def 0 top i).symm

/-- The determinant of a matrix whose first column is cleared below the diagonal. -/
theorem det_of_cleared {M : Matrix (Fin (n + 1)) (Fin (n + 1)) ℝ}
    (h : ∀ i : Fin n, M i.succ 0 = 0) : M.det = M 0 0 * (M.submatrix Fin.succ Fin.succ).det := by
  rw [Matrix.det_succ_column_zero, Fin.sum_univ_succ]
  have hbelow : ∀ i : Fin n,
      (-1) ^ (i.succ : ℕ) * M i.succ 0 * (M.submatrix i.succ.succAbove Fin.succ).det = 0 := by
    intro i
    rw [h, mul_zero, zero_mul]
  rw [Finset.sum_eq_zero fun i _ => hbelow i]
  simp

/-- One step of the elimination takes the pivot out of the determinant, with the sign of the exchange. -/
theorem Mat.det_step {A : Mat ℝ (n + 1)} {pivot : ℝ} {right factors : Vector ℝ n} {B : Mat ℝ n}
    {top : Fin (n + 1)} (hpivot : A.entry top 0 = pivot)
    (hright : ∀ j : Fin n, A.entry top j.succ = right.get j)
    (hfactors : ∀ i : Fin n, A.entry (exchange top i.succ) 0 = factors.get i * pivot)
    (hB : ∀ i j : Fin n, B.entry i j =
      A.entry (exchange top i.succ) j.succ - right.get j * factors.get i) :
    A.toMatrix.det = (if top = 0 then 1 else -1) * (pivot * B.toMatrix.det) := by
  -- The rows with the pivot on top, and the same rows with multiples of the top one taken from them.
  let exchanged : Matrix (Fin (n + 1)) (Fin (n + 1)) ℝ := .of fun i j => A.entry (exchange top i) j
  let cleared : Matrix (Fin (n + 1)) (Fin (n + 1)) ℝ := .of fun i j =>
    exchanged i j - (Fin.cases 0 (fun i => factors.get i) i : ℝ) * A.entry top j
  have hexchanged : exchanged.det = (if top = 0 then 1 else -1) * A.toMatrix.det := by
    have hsub : exchanged = A.toMatrix.submatrix (Equiv.swap 0 top) id := by
      ext i j
      exact congrArg (A.entry · j) (exchange_eq_swap top i)
    rw [hsub, Matrix.det_permute, Equiv.Perm.sign_swap']
    by_cases htop : top = 0
    · simp [htop]
    · simp [htop, Ne.symm htop]
  have hdet : exchanged.det = cleared.det := by
    refine Matrix.det_eq_of_forall_row_eq_smul_add_const
      (Fin.cases 0 fun i => factors.get i) 0 rfl ?_
    intro i j
    have htop : cleared 0 j = A.entry top j := by
      simp [cleared, exchanged, exchange_zero]
    rw [htop]
    exact (sub_add_cancel _ _).symm
  have hcolumn : ∀ i : Fin n, cleared i.succ 0 = 0 := by
    intro i
    change A.entry (exchange top i.succ) 0 - factors.get i * A.entry top 0 = 0
    rw [hfactors, hpivot, sub_self]
  have hminor : cleared.submatrix Fin.succ Fin.succ = B.toMatrix := by
    ext i j
    change A.entry (exchange top i.succ) j.succ - factors.get i * A.entry top j.succ = B.entry i j
    rw [hB, hright, mul_comm]
  have hcorner : cleared 0 0 = pivot := by
    simp [cleared, exchanged, exchange_zero, hpivot]
  have hsign : ((if top = 0 then 1 else -1) * (if top = 0 then 1 else -1) : ℝ) = 1 := by
    split_ifs <;> norm_num
  have hcleared := det_of_cleared hcolumn
  rw [hminor, hcorner, ← hdet, hexchanged] at hcleared
  rw [← hcleared, ← mul_assoc, hsign, one_mul]

theorem Elimination.determinant_eq (e : Elimination ℝ n) :
    e.determinant = e.pivots.prod * if e.isOdd then -1 else 1 := by
  rw [determinant, List.prod_eq_foldl, Scalar.real_one]

theorem Elimination.determinant_step (top : Fin (n + 1)) (pivot : ℝ) (right factors : Vector ℝ n)
    (rest : Elimination ℝ n) : (Elimination.step top pivot right factors rest).determinant =
      (if top = 0 then 1 else -1) * (pivot * rest.determinant) := by
  rw [determinant_eq, determinant_eq, pivots, List.prod_cons, isOdd]
  by_cases htop : top = 0
  · simp [htop]
  · cases rest.isOdd <;> simp [htop]

/-- The signed product of the pivots is the determinant of the matrix. -/
theorem Mat.eliminate_determinant (A : Mat ℝ n) : A.eliminate.determinant = A.toMatrix.det := by
  induction n with
  | zero =>
    rw [Matrix.det_isEmpty, Elimination.determinant_eq]
    change ([] : List ℝ).prod * 1 = 1
    rw [List.prod_nil, mul_one]
  | succ n ih =>
    by_cases h : A.entry A.pivotRow 0 = 0
    · have hcolumn : ∀ i, A.toMatrix i 0 = 0 := column_eq_zero h
      rw [eliminate_skip h, Elimination.determinant_step, column_eq_zero h,
        Matrix.det_eq_zero_of_column_eq_zero 0 hcolumn, zero_mul, mul_zero]
    · obtain ⟨right, factors, B, heliminate, hright, hfactors, hB⟩ := eliminate_step h
      rw [heliminate, Elimination.determinant_step, ih, det_step rfl hright hfactors hB]

/-- The determinant that an elimination gives is that of the matrix. -/
theorem Mat.determinant_eq_det (A : Mat ℝ n) : A.determinant = A.toMatrix.det := by
  unfold determinant
  split_ifs with hn
  · subst hn
    rw [Matrix.det_isEmpty, Scalar.real_one]
  · exact A.eliminate_determinant

theorem Mat.PassesPivotTest.det_ne_zero {A : Mat ℝ n} (h : A.PassesPivotTest) : A.toMatrix.det ≠ 0 := by
  rw [← eliminate_determinant, Elimination.determinant_eq]
  refine mul_ne_zero (List.prod_ne_zero fun hzero => h.pivots_ne_zero _ hzero rfl) ?_
  split_ifs <;> norm_num

/-! ### Solutions by the inverse -/

/-- A matrix that passes the pivot test gives its inverse times any right-hand side. -/
theorem Mat.solveMat_of_passes {A : Mat ℝ n} (h : A.PassesPivotTest) (B : Mat ℝ n) :
    ∃ X, A.solveMat B = .ok X ∧ X.toMatrix = A.toMatrix⁻¹ * B.toMatrix := by
  refine ⟨A.eliminate.solveMat B, ?_, ?_⟩
  · rw [solveMat, factorize_of_passes h]
    rfl
  have hcolumn : ∀ j, A.Solves (A.eliminate.solve (B.column j)) (B.column j) := fun j =>
    (solves_iff h.pivots_ne_zero _ _).mpr rfl
  have hproduct : A.toMatrix * (A.eliminate.solveMat B).toMatrix = B.toMatrix := by
    ext i j
    rw [Matrix.mul_apply]
    simp only [toMatrix_apply, Elimination.solveMat, ofColumns, entry_ofFn, Fin.getElem_fin,
      Vector.getElem_ofFn]
    exact (hcolumn j i).trans (Vector.get_ofFn _ _)
  rw [← hproduct, Matrix.nonsing_inv_mul_cancel_left _ _ (isUnit_iff_ne_zero.mpr h.det_ne_zero)]

end BeamOptics
