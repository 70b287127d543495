import BeamOptics.Proofs.RealMaps

/-! The exponential of a block. The traceless part of a block squares to a multiple of the identity,
so the even powers in its exponential series add up to a multiple of the identity and the odd ones to
a multiple of the traceless part. What is left of the block commutes with everything and contributes a
factor, and the closed form is the sum of the whole power series. -/

namespace BeamOptics.Block

/-! ### Blocks as matrices -/

def toMatrix (m : Block ℝ) : Matrix (Fin 2) (Fin 2) ℝ := !![m.a, m.b; m.c, m.d]

theorem toMatrix_injective : Function.Injective toMatrix := by
  intro m n h
  have hentry (i j : Fin 2) : m.toMatrix i j = n.toMatrix i j := congrFun (congrFun h i) j
  cases m
  cases n
  rw [mk.injEq]
  exact ⟨hentry 0 0, hentry 0 1, hentry 1 0, hentry 1 1⟩

theorem toMatrix_mul (m n : Block ℝ) : (m * n).toMatrix = m.toMatrix * n.toMatrix := by
  rw [toMatrix, toMatrix, toMatrix, Matrix.mul_fin_two, mul_def]

theorem toMatrix_identity : (identity : Block ℝ).toMatrix = 1 := by
  rw [toMatrix, Matrix.one_fin_two]
  simp [identity]

theorem toMatrix_scale (m : Block ℝ) (k : ℝ) : (m.scale k).toMatrix = k • m.toMatrix := by
  simp [toMatrix, scale, Matrix.smul_of, mul_comm]

/-! ### The coefficients -/

/-- The coefficients of the exponential for real eigenvalues, for complex ones and for a double one. -/
theorem expCoefficients_cases (m : Block ℝ) :
    (∃ h, h ≠ 0 ∧ m.discriminant / 4 = h ^ 2 ∧
        m.expCoefficients = (Real.cosh h, Real.sinh h / h)) ∨
      (∃ h, h ≠ 0 ∧ m.discriminant / 4 = -h ^ 2 ∧
        m.expCoefficients = (Real.cos h, Real.sin h / h)) ∨
      (m.discriminant / 4 = 0 ∧ m.expCoefficients = (1, 1)) := by
  have hhalf (s r : ℝ) : 2 * s / r = s / (r / 2) := by
    rw [div_div_eq_mul_div, mul_comm]
  have hroot {x : ℝ} (hx : 0 < x) : √x / 2 ≠ 0 ∧ x / 4 = (√x / 2) ^ 2 := by
    refine ⟨(half_pos (Real.sqrt_pos.mpr hx)).ne', ?_⟩
    rw [div_pow, Real.sq_sqrt hx.le]
    norm_num
  unfold expCoefficients
  simp only [Scalar.real_zero, Scalar.real_one, Scalar.real_sqrt, Scalar.real_cosh,
    Scalar.real_sinh, Scalar.real_cos, Scalar.real_sin]
  -- One case for each sign of the discriminant: hyperbolic, circular and flat.
  split_ifs with hpos hneg
  · obtain ⟨hne, hsq⟩ := hroot hpos
    refine Or.inl ⟨√m.discriminant / 2, hne, hsq, ?_⟩
    rw [← hhalf]
  · obtain ⟨hne, hsq⟩ := hroot (neg_pos.mpr hneg)
    refine Or.inr (Or.inl ⟨√(-m.discriminant) / 2, hne, ?_, ?_⟩)
    · rw [← hsq]
      ring
    · rw [← hhalf]
  · have hzero : m.discriminant = 0 := le_antisymm (not_lt.mp hpos) (not_lt.mp hneg)
    exact Or.inr (Or.inr ⟨by rw [hzero, zero_div], rfl⟩)

/-- The exponential of the traceless part has determinant one. -/
theorem expCoefficients_det (m : Block ℝ) :
    m.expCoefficients.1 ^ 2 - m.expCoefficients.2 ^ 2 * (m.discriminant / 4) = 1 := by
  obtain ⟨h, hne, hsq, he⟩ | ⟨h, hne, hsq, he⟩ | ⟨hzero, he⟩ := m.expCoefficients_cases
  · rw [he, hsq, ← mul_pow, div_mul_cancel₀ _ hne]
    exact Real.cosh_sq_sub_sinh_sq h
  · rw [he, hsq, mul_neg, sub_neg_eq_add, ← mul_pow, div_mul_cancel₀ _ hne]
    exact Real.cos_sq_add_sin_sq h
  · rw [he, hzero]
    norm_num

/-- The coefficients as power series in a quarter of the discriminant. -/
theorem expCoefficients_hasSum (m : Block ℝ) :
    HasSum (fun k : ℕ => (m.discriminant / 4) ^ k / (2 * k).factorial) m.expCoefficients.1 ∧
      HasSum (fun k : ℕ => (m.discriminant / 4) ^ k / (2 * k + 1).factorial)
        m.expCoefficients.2 := by
  have hodd {h : ℝ} (hne : h ≠ 0) (k : ℕ) : h ^ (2 * k + 1) / h = h ^ (2 * k) := by
    rw [pow_succ, mul_div_cancel_right₀ _ hne]
  obtain ⟨h, hne, hsq, he⟩ | ⟨h, hne, hsq, he⟩ | ⟨hzero, he⟩ := m.expCoefficients_cases
  · -- The series of the hyperbolic functions, the odd one divided by its argument.
    rw [he, hsq]
    simp only [← pow_mul]
    refine ⟨Real.hasSum_cosh h, ?_⟩
    have hsum := (Real.hasSum_sinh h).div_const h
    simp only [div_right_comm _ _ h, hodd hne] at hsum
    exact hsum
  · rw [he, hsq]
    simp only [neg_pow (h ^ 2), ← pow_mul]
    refine ⟨Real.hasSum_cos h, ?_⟩
    have hsum := (Real.hasSum_sin h).div_const h
    simp only [div_right_comm _ _ h, mul_div_assoc _ _ h, hodd hne] at hsum
    exact hsum
  · -- Only the first term of either series is left.
    rw [he, hzero]
    have hlate (n : ℕ → ℕ) (k : ℕ) (hk : k ≠ 0) : (0 : ℝ) ^ k / (n k).factorial = 0 := by
      rw [zero_pow hk, zero_div]
    have heven := hasSum_single 0 (hlate fun k => 2 * k)
    have hodd := hasSum_single 0 (hlate fun k => 2 * k + 1)
    simpa using And.intro heven hodd

/-! ### The traceless part -/

noncomputable def traceless (m : Block ℝ) : Block ℝ :=
  ⟨m.a - m.trace / 2, m.b, m.c, m.d - m.trace / 2⟩

/-- A block is half its trace in the identity and a block without trace. -/
theorem toMatrix_eq_traceless (m : Block ℝ) :
    m.toMatrix = (m.trace / 2) • 1 + m.traceless.toMatrix := by
  rw [toMatrix, toMatrix, traceless, Matrix.one_fin_two]
  simp [Matrix.smul_of]

/-- By the theorem of Cayley and Hamilton the square of the traceless part is a multiple of the
identity. -/
theorem sq_traceless (m : Block ℝ) :
    m.traceless.toMatrix ^ 2 = (m.discriminant / 4) • 1 := by
  rw [sq, ← toMatrix_mul, ← toMatrix_identity, ← toMatrix_scale]
  congr 1
  simp only [mul_def, traceless, identity, scale, trace, discriminant, mk.injEq]
  refine ⟨?_, ?_, ?_, ?_⟩ <;> simp <;> ring

/-- The exponential of a block, by its trace and its traceless part. -/
theorem toMatrix_exp (m : Block ℝ) : m.exp.toMatrix =
    Real.exp (m.trace / 2) •
      (m.expCoefficients.1 • 1 + m.expCoefficients.2 • m.traceless.toMatrix) := by
  ext i j
  fin_cases i <;> fin_cases j <;> simp [toMatrix, exp, traceless, trace, mul_assoc]

/-- The even powers of the traceless part are multiples of the identity and the odd ones are multiples
of itself. -/
theorem traceless_hasSum (m : Block ℝ) :
    HasSum (fun k : ℕ => (k.factorial : ℝ)⁻¹ • m.traceless.toMatrix ^ k)
      (m.expCoefficients.1 • 1 + m.expCoefficients.2 • m.traceless.toMatrix) := by
  obtain ⟨heven, hodd⟩ := m.expCoefficients_hasSum
  have hpow (k : ℕ) : m.traceless.toMatrix ^ (2 * k) = (m.discriminant / 4) ^ k • 1 := by
    rw [pow_mul, sq_traceless, smul_pow, one_pow]
  have hevenTerm (k : ℕ) : ((2 * k).factorial : ℝ)⁻¹ • m.traceless.toMatrix ^ (2 * k) =
      ((m.discriminant / 4) ^ k / (2 * k).factorial) • 1 := by
    rw [hpow, smul_smul, inv_mul_eq_div]
  have hoddTerm (k : ℕ) : ((2 * k + 1).factorial : ℝ)⁻¹ • m.traceless.toMatrix ^ (2 * k + 1) =
      ((m.discriminant / 4) ^ k / (2 * k + 1).factorial) • m.traceless.toMatrix := by
    rw [pow_succ, hpow, smul_mul_assoc, one_mul, smul_smul, inv_mul_eq_div]
  apply HasSum.even_add_odd
  · simp only [hevenTerm]
    exact heven.smul_const 1
  · simp only [hoddTerm]
    exact hodd.smul_const m.traceless.toMatrix

/-! ### The power series -/

theorem exp_smul_one (t : ℝ) :
    NormedSpace.exp (t • (1 : Matrix (Fin 2) (Fin 2) ℝ)) = Real.exp t • 1 := by
  rw [Matrix.smul_one_eq_diagonal, Matrix.exp_diagonal, Matrix.smul_one_eq_diagonal]
  congr 1
  funext i
  rw [Pi.coe_exp, Real.exp_eq_exp_ℝ]

/-- The closed form is the exponential of the block's matrix. -/
theorem toMatrix_exp_eq (m : Block ℝ) : m.exp.toMatrix = NormedSpace.exp m.toMatrix := by
  have htraceless : NormedSpace.exp m.traceless.toMatrix =
      m.expCoefficients.1 • 1 + m.expCoefficients.2 • m.traceless.toMatrix := by
    rw [NormedSpace.exp_eq_tsum ℝ]
    exact m.traceless_hasSum.tsum_eq
  have hcommute : Commute ((m.trace / 2) • 1) m.traceless.toMatrix :=
    (Commute.one_left _).smul_left _
  -- The multiple of the identity commutes with everything, so its exponential is a factor.
  rw [m.toMatrix_eq_traceless, Matrix.exp_add_of_commute _ _ hcommute, exp_smul_one, htraceless,
    smul_mul_assoc, one_mul, toMatrix_exp]

-- The series converges in any norm of matrices, and the sum does not see which one is chosen.
open scoped Matrix.Norms.Operator in
theorem matrix_exp_hasSum (A : Matrix (Fin 2) (Fin 2) ℝ) :
    HasSum (fun k : ℕ => (k.factorial : ℝ)⁻¹ • A ^ k) (NormedSpace.exp A) :=
  NormedSpace.exp_series_hasSum_exp' A

/-- The determinant of the exponential is the exponential of the trace. -/
theorem det_exp (m : Block ℝ) : m.exp.det = Real.exp m.trace := by
  calc
    m.exp.det = Real.exp ((m.a + m.d) / 2) ^ 2 *
        (m.expCoefficients.1 ^ 2 - m.expCoefficients.2 ^ 2 * (m.discriminant / 4)) := by
      simp only [exp, det, discriminant, Scalar.real_exp]
      ring
    _ = Real.exp m.trace := by
      rw [expCoefficients_det, mul_one, sq, ← Real.exp_add]
      congr 1
      exact add_halves _

/-- Exponentials of multiples of one block compose like those of numbers. -/
theorem exp_scale_mul (m : Block ℝ) (s t : ℝ) :
    (m.scale s).exp * (m.scale t).exp = (m.scale (s + t)).exp := by
  have hcommute : Commute (s • m.toMatrix) (t • m.toMatrix) :=
    ((Commute.refl _).smul_left s).smul_right t
  apply toMatrix_injective
  rw [toMatrix_mul, toMatrix_exp_eq, toMatrix_exp_eq, toMatrix_exp_eq, toMatrix_scale, toMatrix_scale,
    toMatrix_scale, ← Matrix.exp_add_of_commute _ _ hcommute, add_smul]

/-- The exponentials of a block and of its negative undo each other. -/
theorem exp_mul_exp_neg (m : Block ℝ) : m.exp * (m.scale (-1)).exp = identity := by
  have hone : m.scale 1 = m := by simp [scale]
  have hzero : (m.scale 0).exp = identity := by
    apply toMatrix_injective
    rw [toMatrix_exp_eq, toMatrix_scale, zero_smul, NormedSpace.exp_zero, toMatrix_identity]
  calc
    m.exp * (m.scale (-1)).exp = (m.scale 1).exp * (m.scale (-1)).exp := by rw [hone]
    _ = (m.scale 0).exp := by rw [exp_scale_mul, add_neg_cancel]
    _ = identity := hzero

/-- The closed form is the sum of the power series, whatever the sign of the discriminant, and so it
has the laws of an exponential. -/
theorem exp_powerSeries (m : Block ℝ) :
    HasSum (fun k : ℕ => (k.factorial : ℝ)⁻¹ • m.toMatrix ^ k) m.exp.toMatrix ∧
      m.exp.det = Real.exp m.trace ∧ m.exp * (m.scale (-1)).exp = identity ∧
      ∀ s t : ℝ, (m.scale s).exp * (m.scale t).exp = (m.scale (s + t)).exp := by
  refine ⟨?_, m.det_exp, m.exp_mul_exp_neg, m.exp_scale_mul⟩
  rw [toMatrix_exp_eq]
  exact matrix_exp_hasSum m.toMatrix

end BeamOptics.Block
