import BeamOptics.Proofs.RelaxationLaw
import BeamOptics.Proofs.ScaledSystems

/-! The secant estimate of a history. It is made of as many increments as the capacity says, and they
make up a regular matrix. Multiples of all increments by one factor leave it and the relaxation that
it suggests as they are. -/

namespace BeamOptics

theorem Vec.dim_scale (v : Vec ℝ) (k : ℝ) : (v.scale k).dim = v.dim := List.length_map ..

theorem Vec.getD_scale (v : Vec ℝ) (k : ℝ) (i : ℕ) :
    (v.scale k).toList.getD i 0 = v.toList.getD i 0 * k := by
  rw [Vec.scale, ← List.getD_map (f := (· * k)), zero_mul]

/-! ### Matrices of columns -/

namespace Square

variable {k : ℝ}

theorem ofColumns_eq_ok {columns : List (Vec ℝ)} {A : Square ℝ}
    (h : Square.ofColumns columns = .ok A) :
    A = ⟨columns.length, .ofFn fun i j => columns[j].toList.getD i 0⟩ := by
  unfold ofColumns ofRows at h
  split at h
  · cases h
  · cases h
    rw [transpose, Mat.transpose]
    simp only [Mat.entry_ofFn, Scalar.real_zero]

/-- An operation on two matrices of one dimension. -/
theorem withSameDim_eq_ok {α : Type} {A B : Square ℝ} {f : Mat ℝ A.dim → Mat ℝ A.dim → α}
    {x : α} (h : A.withSameDim B f = .ok x) : ∃ C : Mat ℝ A.dim, B = ⟨A.dim, C⟩ ∧ f A.mat C = x := by
  obtain ⟨dim, C⟩ := B
  unfold withSameDim at h
  by_cases hdim : dim = A.dim
  · subst hdim
    rw [dif_pos rfl] at h
    exact ⟨C, rfl, Except.ok.inj h⟩
  · rw [dif_neg hdim] at h
    cases h

/-- A solution has the dimension of the matrix, whose elimination was usable. -/
theorem solveMat_eq_ok {A B X : Square ℝ} (h : A.solveMat B = .ok X) :
    X.dim = A.dim ∧ ∃ e, A.mat.factorize = .ok e := by
  unfold solveMat at h
  obtain ⟨solved, hsolved, hrest⟩ := bind_eq_ok.mp h
  obtain ⟨x, hx, hX⟩ := bind_eq_ok.mp hrest
  obtain ⟨C, -, rfl⟩ := withSameDim_eq_ok hsolved
  obtain ⟨e, he, -⟩ := map_eq_ok.mp hx
  obtain rfl := pure_eq_ok.mp hX
  exact ⟨rfl, e, he⟩

theorem mk_ofFn_congr {m n : ℕ} (hdim : m = n) {f : Fin m → Fin m → ℝ} {g : Fin n → Fin n → ℝ}
    (h : ∀ i j, f i j = g (i.cast hdim) (j.cast hdim)) :
    (⟨m, .ofFn f⟩ : Square ℝ) = ⟨n, .ofFn g⟩ := by
  subst hdim
  have hfg : f = g := funext fun i => funext fun j => h i j
  rw [hfg]

theorem transpose_scale (A : Square ℝ) : (A.scale k).transpose = A.transpose.scale k := by
  have hmat : (A.mat.scale k).transpose = A.mat.transpose.scale k :=
    Mat.ext_entry fun i j => by simp only [Mat.entry_transpose, Mat.entry_scale]
  exact congrArg (mk A.dim) hmat

theorem mk_ofFn_scale {n : ℕ} (f : Fin n → Fin n → ℝ) :
    scale ⟨n, .ofFn f⟩ k = ⟨n, .ofFn fun i j => f i j * k⟩ :=
  congrArg (mk n) (Mat.scale_ofFn f)

/-- Matrices of multiples of rows are multiples of the matrix. -/
theorem ofRows_scale (rows : List (Vec ℝ)) :
    ofRows (rows.map (·.scale k)) = (ofRows rows).map (·.scale k) := by
  unfold ofRows
  rw [List.find?_map]
  simp only [Function.comp_def, Vec.dim_scale, List.length_map, Scalar.real_zero]
  cases rows.find? fun row => row.dim ≠ rows.length with
  | some row =>
    exact congrArg (fun d => Except.error (Fault.dimension rows.length d)) (row.dim_scale k)
  | none =>
    apply congrArg Except.ok
    dsimp only
    rw [mk_ofFn_scale]
    refine mk_ofFn_congr (List.length_map ..) fun i j => ?_
    rw [← Vec.getD_scale]
    congr 2
    exact List.getElem_map ..

theorem ofColumns_scale (columns : List (Vec ℝ)) :
    ofColumns (columns.map (·.scale k)) = (ofColumns columns).map (·.scale k) := by
  unfold ofColumns
  rw [ofRows_scale]
  cases ofRows columns with
  | error f =>
    change Except.error f = Except.error f
    rfl
  | ok A =>
    change Except.ok (A.scale k).transpose = Except.ok (A.transpose.scale k)
    rw [A.transpose_scale]

/-- A multiple of a system has its solutions. -/
theorem solveMat_scale (hk : k ≠ 0) (A B : Square ℝ) :
    Alike (fun _ _ => True) (· = ·) (A.solveMat B) ((A.scale k).solveMat (B.scale k)) := by
  obtain ⟨dim, C⟩ := B
  unfold solveMat withSameDim
  by_cases hdim : dim = A.dim
  · subst hdim
    have hscaled : (scale ⟨A.dim, C⟩ k).dim = (A.scale k).dim := rfl
    rw [dif_pos rfl, dif_pos hscaled]
    refine (Mat.solveMat_scale hk A.mat C).bind ?_
    rintro x _ rfl
    exact .ok rfl
  · have hscaled : (scale ⟨dim, C⟩ k).dim ≠ (A.scale k).dim := hdim
    rw [dif_neg hdim, dif_neg hscaled]
    exact .error trivial

end Square

/-! ### Regular secants -/

namespace History

variable {h : History ℝ}

/-- The secant estimate is made of as many increments as the capacity says, and they make up a
regular matrix. -/
theorem secantResidual_regular {r : Square ℝ} (hr : h.secantResidual = .ok r) :
    h.arguments.length = h.capacity ∧
      ((Mat.ofFn fun i j => h.arguments[i].toList.getD j 0 :
        Mat ℝ h.arguments.length)).toMatrix.det ≠ 0 := by
  unfold secantResidual at hr
  obtain ⟨arguments, harguments, hrest⟩ := bind_eq_ok.mp hr
  obtain ⟨recursions, -, hrest⟩ := bind_eq_ok.mp hrest
  obtain ⟨jacobian, hjacobian, hsub⟩ := bind_eq_ok.mp hrest
  obtain ⟨C, hC, -⟩ := Square.withSameDim_eq_ok hsub
  obtain ⟨hdim, e, he⟩ := Square.solveMat_eq_ok hjacobian
  obtain rfl := Square.ofColumns_eq_ok harguments
  have hregular := (Mat.passes_of_factorize he).det_ne_zero
  simp only [Square.transpose, Mat.transpose, Mat.entry_ofFn] at hregular
  refine ⟨?_, hregular⟩
  rw [hC] at hdim
  exact hdim.symm

/-! ### Multiples of all increments -/

noncomputable def scale (h : History ℝ) (k : ℝ) : History ℝ :=
  ⟨h.capacity, h.increments.map fun pair => (pair.1.scale k, pair.2.scale k)⟩

variable {k : ℝ}

theorem isFull_scale (h : History ℝ) : (h.scale k).isFull = h.isFull := by
  unfold isFull size scale
  rw [List.length_map]

/-- A multiple of a history takes multiples of pairs. -/
theorem push_scale (h : History ℝ) (argument recursion : Vec ℝ) :
    (h.push argument recursion).scale k =
      (h.scale k).push (argument.scale k) (recursion.scale k) := by
  unfold push
  rw [isFull_scale]
  split_ifs
  · simp only [scale, List.map_append, List.map_drop, List.map_cons, List.map_nil]
  · simp only [scale, List.map_append, List.map_cons, List.map_nil]

theorem arguments_scale (h : History ℝ) : (h.scale k).arguments = h.arguments.map (·.scale k) := by
  simp only [arguments, scale, List.map_map, Function.comp_def]

theorem recursions_scale (h : History ℝ) :
    (h.scale k).recursions = h.recursions.map (·.scale k) := by
  simp only [recursions, scale, List.map_map, Function.comp_def]

theorem normTwo_scale (v : Vec ℝ) : (v.scale k).normTwo = v.normTwo * |k| := by
  have hsquares : ((v.scale k).toList.map Scalar.square).sum =
      (v.toList.map Scalar.square).sum * k ^ 2 := by
    rw [Vec.scale, List.map_map, ← List.sum_map_mul_right]
    congr 1
    apply List.map_congr_left
    intro x _
    simp only [Function.comp_apply, Scalar.square]
    ring
  rw [Vec.normTwo, Vec.normTwo, Scalar.real_sumInLanes, Scalar.real_sumInLanes, hsquares,
    Scalar.real_sqrt, Scalar.real_sqrt, Real.sqrt_mul' _ (sq_nonneg k), Real.sqrt_sq_eq_abs]

/-- The normalized determinant does not depend on the unit of length. -/
theorem normalizedDeterminant_scale (hk : k ≠ 0) (h : History ℝ) :
    (h.scale k).normalizedDeterminant = h.normalizedDeterminant := by
  have hlengths : (((h.scale k).arguments.map Vec.normTwo).foldl (· * ·) 1 : ℝ) =
      (h.arguments.map Vec.normTwo).foldl (· * ·) 1 * |k| ^ h.arguments.length := by
    rw [← List.prod_eq_foldl, ← List.prod_eq_foldl, arguments_scale, List.map_map,
      ← prod_map_mul_const]
    simp only [Function.comp_def, normTwo_scale]
  unfold normalizedDeterminant
  rw [Scalar.real_one, hlengths, arguments_scale, Square.ofColumns_scale]
  cases hA : Square.ofColumns h.arguments with
  | error f => rfl
  | ok A =>
    have hpower : |k| ^ h.arguments.length ≠ 0 := pow_ne_zero _ (abs_ne_zero.mpr hk)
    have hdet : |(A.scale k).determinant| = |A.determinant| * |k| ^ h.arguments.length := by
      have hdim : A.dim = h.arguments.length := by rw [Square.ofColumns_eq_ok hA]
      rw [← hdim, ← abs_pow, ← abs_mul]
      exact congrArg _ (Mat.determinant_scale A.mat)
    apply congrArg Except.ok
    dsimp only
    -- Determinant and lengths have the same power of the factor, which drops out of their ratio.
    simp only [hdet, Scalar.real_abs, Scalar.real_beq, Scalar.real_zero, Scalar.real_isFinite,
      mul_eq_zero, or_iff_left hpower, mul_div_mul_right _ _ hpower]

/-- Neither does the residual operator, where there is one. -/
theorem secantResidual_scale (hk : k ≠ 0) (h : History ℝ) :
    Alike (fun _ _ => True) (· = ·) h.secantResidual (h.scale k).secantResidual := by
  unfold secantResidual
  rw [arguments_scale, recursions_scale, Square.ofColumns_scale, Square.ofColumns_scale]
  cases Square.ofColumns h.arguments with
  | error f => exact .error trivial
  | ok A =>
    cases Square.ofColumns h.recursions with
    | error f => exact .error trivial
    | ok R =>
      change Alike _ _ (A.transpose.solveMat R.transpose >>= _)
        ((A.scale k).transpose.solveMat (R.scale k).transpose >>= _)
      rw [A.transpose_scale, R.transpose_scale]
      refine (Square.solveMat_scale hk _ _).bind ?_
      rintro jacobian _ rfl
      exact .of_eq rfl fun _ => trivial

/-- Multiples of the increments suggest the same relaxation, or none with them. -/
theorem candidate_scale (hk : k ≠ 0) (h : History ℝ) (rankTolerance : ℝ) :
    Alike (fun _ _ => True) (· = ·) (h.candidate rankTolerance)
      ((h.scale k).candidate rankTolerance) := by
  unfold candidate
  rw [isFull_scale, normalizedDeterminant_scale hk]
  split_ifs with hcapacity
  · exact .ok rfl
  -- The histories are refused together up to here, and then have one residual operator.
  cases h.normalizedDeterminant with
  | error f => exact .error trivial
  | ok normalized =>
    change Alike _ _ (if normalized < rankTolerance then _ else _)
      (if normalized < rankTolerance then _ else _)
    split_ifs with hrank
    · exact .error trivial
    · refine (secantResidual_scale hk h).bind ?_
      rintro r _ rfl
      exact .of_eq rfl fun _ => trivial

end History

/-- The relaxation takes from the histories their candidates and which of them were refused. -/
theorem Estimator.relaxation_congr (settings : Settings ℝ) {h h' : Histories ℝ}
    (hcandidates : ∀ p, Alike (fun _ _ => True) (· = ·)
      ((h.get p).candidate settings.rankTolerance) ((h'.get p).candidate settings.rankTolerance)) :
    relaxation settings h = relaxation settings h' := by
  have hconsider : consider (h.candidates settings.rankTolerance) =
      consider (h'.candidates settings.rankTolerance) := by
    funext sofar p
    unfold consider Histories.candidates
    rw [Triple.get_map, Triple.get_map]
    obtain ⟨f, g, hf, hg, -⟩ | ⟨value, _, hv, hv', rfl⟩ := (hcandidates p).elim
    · rw [hf, hg]
    · rw [hv, hv']
  rw [relaxation_eq, relaxation_eq, hconsider]

end BeamOptics
