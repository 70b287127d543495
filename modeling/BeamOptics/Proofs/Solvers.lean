import BeamOptics.Proofs.SecantCandidates

/-! The three solvers of a square matrix. Inverse, solution and solution with several right-hand sides
share the pivot test of the elimination: they are refused together or succeed together, and then they
agree. A matrix without rows and a singular one never pass the test, and a multiple of a matrix passes
it with the matrix. -/

namespace BeamOptics

open Matrix

variable {n : ℕ}

/-! ### Images of vectors -/

theorem Mat.get_mulVec (A : Mat ℝ n) (x : Vector ℝ n) (i : Fin n) :
    (A.mulVec x).get i = ∑ j, A.entry i j * x.get j := by
  have hlane (f : Fin n → ℝ) : laneTotal f = ∑ j, f j := by
    unfold laneTotal
    split_ifs
    · exact total_eq_sum f
    · rw [Scalar.real_sumInLanes, List.sum_ofFn]
  rw [mulVec, Vector.get_ofFn, hlane]
  rfl

/-- A vector solves a system exactly if the matrix sends it to the right-hand side. -/
theorem Mat.mulVec_eq_iff {A : Mat ℝ n} {x b : Vector ℝ n} : A.mulVec x = b ↔ A.Solves x b := by
  constructor
  · rintro rfl i
    exact (A.get_mulVec x i).symm
  · intro h
    apply Vector.ext
    intro i hi
    exact (A.get_mulVec x ⟨i, hi⟩).trans (h ⟨i, hi⟩)

theorem Mat.mulVec_mul (A B : Mat ℝ n) (x : Vector ℝ n) :
    (A * B).mulVec x = A.mulVec (B.mulVec x) := by
  apply mulVec_eq_iff.mpr
  intro i
  have hA (y : Vector ℝ n) (k : Fin n) : (A.mulVec y).get k = (A.toMatrix *ᵥ y.get) k :=
    A.get_mulVec y k
  have hB : (B.mulVec x).get = B.toMatrix *ᵥ x.get := funext (B.get_mulVec x)
  rw [hA, hB, mulVec_mulVec, ← toMatrix_mul]
  rfl

theorem Mat.identity_mulVec (x : Vector ℝ n) : (identity n : Mat ℝ n).mulVec x = x := by
  apply mulVec_eq_iff.mpr
  intro i
  simp

/-! ### Solutions -/

namespace Mat.PassesPivotTest

variable {A X : Mat ℝ n}

theorem solve_eq (h : A.PassesPivotTest) (b : Vector ℝ n) : A.solve b = .ok (A.eliminate.solve b) := by
  rw [solve, factorize_of_passes h]
  rfl

theorem mulVec_solve (h : A.PassesPivotTest) (b : Vector ℝ n) :
    A.mulVec (A.eliminate.solve b) = b :=
  mulVec_eq_iff.mpr ((solves_iff h.pivots_ne_zero _ b).mpr rfl)

/-- The solution for several columns solves the system. -/
theorem exists_solveMat (h : A.PassesPivotTest) (B : Mat ℝ n) :
    ∃ Y, A.solveMat B = .ok Y ∧ A * Y = B := by
  obtain ⟨Y, hY, hproduct⟩ := solveMat_of_passes h B
  refine ⟨Y, hY, toMatrix_injective ?_⟩
  rw [toMatrix_mul, hproduct, mul_nonsing_inv_cancel_left _ _ (isUnit_iff_ne_zero.mpr h.det_ne_zero)]

/-- A right inverse is a left inverse. -/
theorem mul_eq_identity (h : A * X = identity n) : X * A = identity n := by
  apply toMatrix_injective
  have hA := congrArg toMatrix h
  rw [toMatrix_mul, toMatrix_identity] at hA ⊢
  exact mul_eq_one_comm.mp hA

/-- The inverse takes a right-hand side to the solution. -/
theorem mulVec_inverse (h : A.PassesPivotTest) (hX : A * X = identity n) (b : Vector ℝ n) :
    X.mulVec b = A.eliminate.solve b := by
  apply (solves_iff h.pivots_ne_zero _ b).mp
  apply mulVec_eq_iff.mp
  rw [← mulVec_mul, hX, identity_mulVec]

end Mat.PassesPivotTest

/-! ### Square matrices -/

namespace Square

section Outcomes

variable {K : Type}

theorem exists_eq_mk {B : Square K} (h : B.dim = n) : ∃ C : Mat K n, B = ⟨n, C⟩ := by
  subst h
  exact ⟨B.mat, rfl⟩

variable [Scalar K]

/-- Neither an inverse nor a solution for any right-hand side is found, for a reason that lies in the
numbers. -/
structure Refuses (A : Square K) : Prop where
  inverse : ∃ f, A.inverse = .error (.numeric f)
  solve : ∀ b : Vec K, b.dim = A.dim → ∃ f, A.solve b = .error (.numeric f)
  solveMat : ∀ B : Square K, B.dim = A.dim → ∃ f, A.solveMat B = .error (.numeric f)

theorem exists_toVector {b : Vec K} (h : b.dim = n) :
    ∃ v : Vector K n, b.toVector n = .ok v ∧ b = ⟨v.toList⟩ := by
  refine ⟨Vector.ofFn fun i => b.toList.getD i 0, if_pos h, ?_⟩
  have hlist : (Vector.ofFn fun i : Fin n => b.toList.getD i 0).toList = b.toList := by
    subst h
    rw [Vector.toList_ofFn]
    apply List.ext_getElem
    · exact List.length_ofFn
    · intro i hi hi'
      simp [List.getD_eq_getElem?_getD, List.getElem?_eq_getElem hi']
  rw [hlist]

/-- A system among all dimensions is solved in its own. -/
theorem solve_mk (A : Mat K n) (b : Vector K n) :
    solve ⟨n, A⟩ ⟨b.toList⟩ = (A.solve b).map fun x => ⟨x.toList⟩ := by
  obtain ⟨v, hv, hb⟩ := exists_toVector (b := ⟨b.toList⟩) (n := n) b.length_toList
  obtain rfl : b = v := Vector.toList_inj.mp (congrArg Vec.toList hb)
  rw [solve, hv]
  change (A.solve b >>= fun x => Except.ok (Vec.mk x.toList)) = _
  cases A.solve b with
  | error f => rfl
  | ok x => rfl

/-- All solvers hand on the fault of the elimination. -/
theorem refuses_of_factorize {A : Mat K n} {f : NumericFault K}
    (h : A.factorize = .error (.numeric f)) : Refuses ⟨n, A⟩ where
  inverse := ⟨f, by rw [inverse, Mat.inverse, Mat.solveMat, h]; rfl⟩
  solve b hb := by
    obtain ⟨v, -, rfl⟩ := exists_toVector hb
    refine ⟨f, ?_⟩
    rw [solve_mk, Mat.solve, h]
    rfl
  solveMat B hB := by
    obtain ⟨C, rfl⟩ := exists_eq_mk hB
    refine ⟨f, ?_⟩
    rw [solveMat_eq_map, Mat.solveMat, h]
    rfl

end Outcomes

/-- The solvers find an inverse, the solution that it gives for each vector, and a solution for each
matrix, and the determinant does not vanish. -/
structure Inverts (A X : Square ℝ) : Prop where
  inverse : A.inverse = .ok X
  mul_inverse : A.mul X = .ok (identity A.dim)
  inverse_mul : X.mul A = .ok (identity A.dim)
  solve : ∀ b : Vec ℝ, b.dim = A.dim → ∃ x, A.solve b = .ok x ∧ A.mulVec x = .ok b ∧ X.mulVec b = .ok x
  solveMat : ∀ B : Square ℝ, B.dim = A.dim → ∃ Y, A.solveMat B = .ok Y ∧ A.mul Y = .ok B
  determinant_ne_zero : A.determinant ≠ 0

theorem mul_mk (A B : Mat ℝ n) : mul ⟨n, A⟩ ⟨n, B⟩ = .ok ⟨n, A * B⟩ := dif_pos rfl

theorem mulVec_mk (A : Mat ℝ n) (x : Vector ℝ n) :
    mulVec ⟨n, A⟩ ⟨x.toList⟩ = .ok ⟨(A.mulVec x).toList⟩ := by
  obtain ⟨v, hv, hx⟩ := exists_toVector (b := ⟨x.toList⟩) (n := n) x.length_toList
  obtain rfl : x = v := Vector.toList_inj.mp (congrArg Vec.toList hx)
  rw [mulVec, hv]
  rfl

/-- A matrix that passes the pivot test has an inverse from which all solutions follow. -/
theorem inverts_of_passes {A : Mat ℝ n} (h : A.PassesPivotTest) :
    ∃ X, Inverts ⟨n, A⟩ X := by
  obtain ⟨X, hX, hmul⟩ := h.exists_solveMat (.identity n)
  refine ⟨⟨n, X⟩, ?_, ?_, ?_, fun b hb => ?_, fun B hB => ?_, ?_⟩
  · rw [inverse, Mat.inverse, hX]
    rfl
  · rw [mul_mk, hmul]
    rfl
  · rw [mul_mk, Mat.PassesPivotTest.mul_eq_identity hmul]
    rfl
  · -- A vector of the right dimension has the eliminated solution.
    obtain ⟨v, -, rfl⟩ := exists_toVector hb
    refine ⟨⟨(A.eliminate.solve v).toList⟩, ?_, ?_, ?_⟩
    · rw [solve_mk, h.solve_eq]
      rfl
    · rw [mulVec_mk, h.mulVec_solve]
    · rw [mulVec_mk, h.mulVec_inverse hmul]
  · -- So has a matrix, column by column.
    obtain ⟨C, rfl⟩ := exists_eq_mk hB
    obtain ⟨Y, hY, hproduct⟩ := h.exists_solveMat C
    refine ⟨⟨n, Y⟩, ?_, ?_⟩
    · rw [solveMat_eq_map, hY]
      rfl
    · rw [mul_mk, hproduct]
  · rw [determinant, Mat.determinant_eq_det]
    exact h.det_ne_zero

theorem Inverts.not_refuses {A X : Square ℝ} (h : A.Inverts X) : ¬ A.Refuses := by
  intro hrefuses
  obtain ⟨f, hf⟩ := hrefuses.inverse
  cases h.inverse.symm.trans hf

/-- A matrix is inverted when it passes the pivot test, and else refused. -/
theorem inverts_iff (A : Square ℝ) : (∃ X, A.Inverts X) ↔ A.mat.PassesPivotTest := by
  refine ⟨fun ⟨X, hX⟩ => ?_, inverts_of_passes⟩
  by_contra hfails
  obtain ⟨f, hf⟩ := Mat.factorize_of_not_passes hfails
  exact hX.not_refuses (refuses_of_factorize hf)

/-- The solvers refuse exactly the matrices that fail the pivot test. -/
theorem refuses_iff (A : Square ℝ) : A.Refuses ↔ ¬ A.mat.PassesPivotTest := by
  constructor
  · intro h hpasses
    obtain ⟨X, hX⟩ := inverts_of_passes hpasses
    exact hX.not_refuses h
  · intro hfails
    obtain ⟨f, hf⟩ := Mat.factorize_of_not_passes hfails
    exact refuses_of_factorize hf

/-- The solvers of a matrix agree: they invert it if it passes the pivot test and refuse it together
if not. They refuse matrices without rows and singular ones, and decide alike on multiples. -/
theorem solvers_agree (A : Square ℝ) :
    ((∃ X, A.Inverts X) ↔ A.mat.PassesPivotTest) ∧
    (A.Refuses ↔ ¬ ∃ X, A.Inverts X) ∧
    (A.dim = 0 ∨ A.mat.toMatrix.det = 0 → A.Refuses) ∧
    ∀ k, k ≠ 0 → ((∃ X, (A.scale k).Inverts X) ↔ ∃ X, A.Inverts X) := by
  refine ⟨A.inverts_iff, ?_, ?_, fun k hk => ?_⟩
  · rw [inverts_iff, refuses_iff]
  · rw [refuses_iff]
    rintro (hdim | hdet) hpasses
    · obtain ⟨n, M⟩ := A
      subst hdim
      exact hpasses.smallestPivot_pos.ne' Scalar.real_zero
    · exact hpasses.det_ne_zero hdet
  · rw [inverts_iff, inverts_iff]
    exact Mat.passes_scale hk A.mat

/-- Of two diagonal matrices the regular one is inverted, with its multiple, and the singular one
refused. -/
theorem solvers_agree_diagonal :
    (∃ X, Inverts ⟨2, History.axesMat (1 / 2)⟩ X) ∧
      (∃ X, Inverts (scale ⟨2, History.axesMat (1 / 2)⟩ (-3)) X) ∧
        Refuses ⟨2, History.axesMat 0⟩ := by
  have hpasses : (History.axesMat (1 / 2)).PassesPivotTest := by
    rw [← @History.axes_transpose (1 / 2) 0]
    exact (History.axes_passes_iff (by norm_num) (by norm_num)).mpr
      (by norm_num [Mat.negligiblePivot])
  have hsingular : (History.axesMat 0).toMatrix.det = 0 := by
    simp [det_fin_two, History.axesMat, Mat.entry]
  have hregular := solvers_agree ⟨2, History.axesMat (1 / 2)⟩
  have hinverts := hregular.1.mpr hpasses
  exact ⟨hinverts, (hregular.2.2.2 (-3) (by norm_num)).mpr hinverts,
    (solvers_agree ⟨2, History.axesMat 0⟩).2.2.1 (.inr hsingular)⟩

end Square

end BeamOptics
