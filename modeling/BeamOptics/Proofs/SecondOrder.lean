import BeamOptics.Proofs.MomentumLaw
import BeamOptics.Proofs.SampleStates

/-! The quadratic formula for the longitudinal diagonal against the logarithmic one. For a particle
that gains energy the one is an upper bound of the other, by less than a third of the cube of the
relative change in momentum at each step. The determinant over a range of samples is the exponential
of the diagonals' sum, so the bounds of the steps add up. -/

namespace BeamOptics

/-! ### The logarithm between polynomials -/

/-- The logarithm lies above its second-order expansion. -/
theorem sub_sq_le_log {x : ℝ} (hx : 0 ≤ x) : x - x ^ 2 / 2 ≤ Real.log (1 + x) := by
  have hpos : 0 < x + 2 := by linarith
  calc
    x - x ^ 2 / 2 ≤ 2 * x / (x + 2) := by
      rw [le_div_iff₀ hpos]
      nlinarith [pow_nonneg hx 3]
    _ ≤ Real.log (1 + x) := Real.le_log_one_add_of_nonneg hx

/-- The logarithm lies below its third-order expansion, because the difference has a derivative that
is not negative. -/
theorem log_le_cubic {x : ℝ} (hx : 0 ≤ x) :
    Real.log (1 + x) ≤ x - x ^ 2 / 2 + x ^ 3 / 3 := by
  -- The difference vanishes at zero, and its derivative is a cube over a positive number.
  have hderiv (y : ℝ) (hy : 0 ≤ y) :
      HasDerivAt (fun y => y - y ^ 2 / 2 + y ^ 3 / 3 - Real.log (1 + y)) (y ^ 3 / (1 + y)) y := by
    have hne : 1 + y ≠ 0 := by linarith
    have hlog : HasDerivAt (fun y => Real.log (1 + y)) (1 / (1 + y)) y :=
      ((hasDerivAt_id y).const_add 1).log hne
    have hpoly := ((hasDerivAt_id y).sub ((hasDerivAt_pow 2 y).div_const 2)).add
      ((hasDerivAt_pow 3 y).div_const 3)
    refine (hpoly.sub hlog).congr_deriv ?_
    field_simp
    push_cast
    ring
  have hmono : MonotoneOn (fun y => y - y ^ 2 / 2 + y ^ 3 / 3 - Real.log (1 + y)) (Set.Ici 0) := by
    apply monotoneOn_of_hasDerivWithinAt_nonneg (convex_Ici 0)
      (fun y hy => (hderiv y hy).continuousAt.continuousWithinAt)
      (fun y hy => (hderiv y (interior_subset hy)).hasDerivWithinAt)
    intro y hy
    have hy : 0 ≤ y := interior_subset hy
    positivity
  have hzero := hmono (Set.mem_Ici.mpr le_rfl) (Set.mem_Ici.mpr hx) hx
  norm_num at hzero
  linarith

/-! ### One step -/

/-- The quadratic diagonal lies above the logarithmic one, by less than the next term of the series. -/
theorem LongitudinalFormula.diagonal_between {a b : ℝ} (h : a = 0 ∨ 1 ≤ b / a) :
    logRatio.diagonal a b ≤ quadratic.diagonal a b ∧
      quadratic.diagonal a b ≤ logRatio.diagonal a b + ((b - a) / a) ^ 3 / 3 := by
  rcases h with rfl | hratio
  · simp [diagonal]
  have hne : a ≠ 0 := by
    rintro rfl
    norm_num at hratio
  obtain ⟨x, hx⟩ : ∃ x, x = (b - a) / a := ⟨_, rfl⟩
  have hb : b / a = 1 + x := by
    rw [hx, sub_div, div_self hne]
    ring
  have hpos : 0 ≤ x := by linarith
  have hlog : logRatio.diagonal a b = -Real.log (1 + x) := by
    rw [diagonal, Scalar.real_log, ← hb, ← Real.log_inv, inv_div]
  have hquadratic : quadratic.diagonal a b = -(x - x ^ 2 / 2) := by
    simp only [diagonal, ← hx]
    ring
  -- Both diagonals are negative: the bounds of the logarithm change sides.
  rw [hlog, hquadratic, ← hx]
  have hlower := sub_sq_le_log hpos
  have hupper := log_le_cubic hpos
  constructor <;> linarith

/-- A particle that gains energy gains momentum, unless it has none to compare with. -/
theorem Relativity.betaGamma_ratio {rest w w' : ℝ} (hw : 0 < w) (hle : w ≤ w') :
    beta (gamma w rest) * gamma w rest = 0 ∨
      1 ≤ beta (gamma w' rest) * gamma w' rest / (beta (gamma w rest) * gamma w rest) := by
  have hbeta (x : ℝ) : beta x = √(max (1 - 1 / (x * x)) 0) := by simp [beta]
  have hgamma (x : ℝ) : gamma x rest = 1 + x / rest := by simp [gamma]
  obtain ⟨g, hg⟩ : ∃ g, g = gamma w rest := ⟨_, rfl⟩
  obtain ⟨g', hg'⟩ : ∃ g', g' = gamma w' rest := ⟨_, rfl⟩
  rw [← hg, ← hg']
  rcases eq_or_ne g 0 with hzero | hne
  · exact .inl (by rw [hzero, mul_zero])
  have hsq : 0 < g * g := mul_self_pos.mpr hne
  -- A particle whose factor is at most one in size has no velocity.
  rcases le_or_gt (g * g) 1 with hslow | hfast
  · have hnone : 1 - 1 / (g * g) ≤ 0 := by
      rw [sub_nonpos]
      exact one_le_one_div hsq hslow
    exact .inl (by rw [hbeta, max_eq_right hnone, Real.sqrt_zero, zero_mul])
  · right
    have hgrow : 1 ≤ g' / g := by
      rw [hgamma] at hg hg'
      rcases lt_trichotomy rest 0 with hneg | rfl | hpos
      · -- Both factors are below minus one here, and the later one is further off.
        have hfirst : w / rest < 0 := div_neg_of_pos_of_neg hw hneg
        have hlater : w' / rest ≤ w / rest := div_le_div_of_nonpos_of_le hneg.le hle
        have hbelow : g < 0 := by nlinarith
        exact (one_le_div_of_neg hbelow).mpr (by linarith)
      · rw [div_zero, add_zero] at hg
        norm_num [hg] at hfast
      · have hfirst : 0 < w / rest := div_pos hw hpos
        have hlater : w / rest ≤ w' / rest := div_le_div_of_nonneg_right hle hpos.le
        exact (one_le_div (by linarith)).mpr (by linarith)
    have hsq' : g * g ≤ g' * g' := by
      have hfactor : g' = g' / g * g := (div_mul_cancel₀ g' hne).symm
      calc
        g * g ≤ (g' / g) ^ 2 * (g * g) := le_mul_of_one_le_left hsq.le (one_le_pow₀ hgrow)
        _ = g' / g * g * (g' / g * g) := by ring
        _ = g' * g' := by rw [← hfactor]
    -- The velocity grows with the factor, and the momentum with both.
    have hpos : 0 < beta g := by
      rw [hbeta]
      apply Real.sqrt_pos.mpr
      apply lt_max_of_lt_left
      rw [sub_pos]
      exact (div_lt_one hsq).mpr hfast
    have hmono : beta g ≤ beta g' := by
      rw [hbeta, hbeta]
      apply Real.sqrt_le_sqrt
      apply max_le_max_right
      gcongr
    rw [mul_div_mul_comm]
    exact one_le_mul_of_one_le_of_one_le ((one_le_div hpos).mpr hmono) hgrow

namespace Passage

variable {p : Passage ℝ}

/-! ### Ranges of steps -/

/-- The determinants of the steps multiply over a range. -/
theorem compose_det (step : ℕ → Block ℝ × Block ℝ) {i j : ℕ} (hij : i ≤ j)
    (hj : j ≤ p.lastIndex) :
    ((p.compose step i j).block .longitudinal).det = ∏ k ∈ Finset.Ico i j, (step k).2.det := by
  have hrange := rangeBlocks_det_eq_prod step i (j - i)
  rw [Nat.add_sub_cancel' hij] at hrange
  rw [compose_eq, min_eq_left hj]
  exact (congrArg Block.det (PhaseMap.block_ofBlocks _ _)).trans hrange

noncomputable def diagonalAt (p : Passage ℝ) (k : ℕ) : ℝ :=
  p.formula.diagonal (p.momentumAt k) (p.momentumAt (k + 1))

/-- The diagonal has no other effect on areas than its exponential. -/
theorem fieldStep_det_eq_exp (p : Passage ℝ) (k : ℕ) :
    (p.fieldStep k).2.det = Real.exp (p.diagonalAt k) := by
  have htrace : (p.longitudinalGenerator k).trace = p.diagonalAt k := by
    simp [Block.trace, longitudinalGenerator, diagonalAt, momentumAt]
  rw [fieldStep, Block.det_exp, htrace]

theorem transportStep_det_eq_exp (p : Passage ℝ) (k : ℕ) :
    (p.transportStep k).2.det = Real.exp (p.diagonalAt k) := by
  rw [(p.transportStep_det_eq k).2, fieldStep_det_eq_exp]

/-- Over a range the determinant is the exponential of the diagonals' sum. -/
theorem range_det_eq_exp (p : Passage ℝ) {i j : ℕ} (hij : i ≤ j) (hj : j ≤ p.lastIndex) :
    ((p.transferRange i j).block .longitudinal).det =
        Real.exp (∑ k ∈ Finset.Ico i j, p.diagonalAt k) ∧
      ((p.transportRange i j).block .longitudinal).det =
        Real.exp (∑ k ∈ Finset.Ico i j, p.diagonalAt k) := by
  rw [transferRange, transportRange, compose_det _ hij hj, compose_det _ hij hj, Real.exp_sum]
  simp only [fieldStep_det_eq_exp, transportStep_det_eq_exp, and_self]

/-- Equal transverse blocks of the steps compose to equal ones. -/
theorem compose_transverse {q : Passage ℝ} {step step' : ℕ → Block ℝ × Block ℝ}
    (hlast : p.lastIndex = q.lastIndex) (hstep : ∀ k, (step k).1 = (step' k).1) (i j : ℕ)
    {plane : Plane} (hplane : plane ≠ .longitudinal) :
    (p.compose step i j).block plane = (q.compose step' i j).block plane := by
  have hblocks (ks : List ℕ) : (rangeBlocks step ks).1 = (rangeBlocks step' ks).1 := by
    induction ks using List.reverseRecOn with
    | nil => rfl
    | append_singleton ks k ih =>
      rw [rangeBlocks_concat, rangeBlocks_concat, hstep, ih]
  rw [compose_eq, compose_eq, hlast]
  refine (PhaseMap.block_ofBlocks _ _).trans (Eq.trans ?_ (PhaseMap.block_ofBlocks _ _).symm)
  cases plane with
  | horizontal => exact hblocks _
  | vertical => exact hblocks _
  | longitudinal => exact absurd rfl hplane

/-! ### The two formulas -/

noncomputable def momentumGain (p : Passage ℝ) (k : ℕ) : ℝ :=
  (p.momentumAt (k + 1) - p.momentumAt k) / p.momentumAt k

/-- The particle moves at the samples from `i` to `j` and is not slowed down between them. -/
structure SpeedsUp (p : Passage ℝ) (i j : ℕ) : Prop where
  moving : ∀ k, i ≤ k → k ≤ j → 0 < (p.motion k).energy
  rising : ∀ k, i ≤ k → k < j → (p.motion k).energy ≤ (p.motion (k + 1)).energy

/-- Where the particle speeds up, the sums of the diagonals of the two formulas are as near as those of
the steps. -/
theorem SpeedsUp.sum_diagonal_between {l q : Passage ℝ} {i j : ℕ} (h : l.SpeedsUp i j)
    (hl : l.formula = .logRatio) (hq : q.formula = .quadratic)
    (hmomentum : ∀ k, q.momentumAt k = l.momentumAt k) :
    ∑ k ∈ Finset.Ico i j, l.diagonalAt k ≤ ∑ k ∈ Finset.Ico i j, q.diagonalAt k ∧
      ∑ k ∈ Finset.Ico i j, q.diagonalAt k ≤
        ∑ k ∈ Finset.Ico i j, l.diagonalAt k + ∑ k ∈ Finset.Ico i j, l.momentumGain k ^ 3 / 3 := by
  have hstep (k : ℕ) (hk : k ∈ Finset.Ico i j) : l.diagonalAt k ≤ q.diagonalAt k ∧
      q.diagonalAt k ≤ l.diagonalAt k + l.momentumGain k ^ 3 / 3 := by
    obtain ⟨hik, hkj⟩ := Finset.mem_Ico.mp hk
    have hratio : l.momentumAt k = 0 ∨ 1 ≤ l.momentumAt (k + 1) / l.momentumAt k :=
      Relativity.betaGamma_ratio (h.moving k hik hkj.le) (h.rising k hik hkj)
    rw [diagonalAt, diagonalAt, hl, hq, hmomentum, hmomentum]
    exact LongitudinalFormula.diagonal_between hratio
  constructor
  · exact Finset.sum_le_sum fun k hk => (hstep k hk).1
  · rw [← Finset.sum_add_distrib]
    exact Finset.sum_le_sum fun k hk => (hstep k hk).2

/-- The two formulas differ in the longitudinal blocks alone, and over a range in which the particle
speeds up the quadratic one makes areas that are not smaller, and larger at most by the exponential of a
third of the cubes of the relative changes in momentum. -/
theorem quadratic_bounds (profile : Profile ℝ) (drive : Drive ℝ) (probe : Probe ℝ) {l q : Passage ℝ}
    (hl : l = of profile drive probe .logRatio) (hq : q = of profile drive probe .quadratic) :
    q.energies = l.energies ∧ q.phases = l.phases ∧
      (∀ (i j : ℕ) {plane : Plane}, plane ≠ .longitudinal →
        (q.transferRange i j).block plane = (l.transferRange i j).block plane ∧
          (q.transportRange i j).block plane = (l.transportRange i j).block plane) ∧
      ∀ {i j : ℕ}, i ≤ j → j < profile.size → l.SpeedsUp i j →
        (((l.transferRange i j).block .longitudinal).det ≤
            ((q.transferRange i j).block .longitudinal).det ∧
          ((q.transferRange i j).block .longitudinal).det ≤
            ((l.transferRange i j).block .longitudinal).det *
              Real.exp (∑ k ∈ Finset.Ico i j, l.momentumGain k ^ 3 / 3)) ∧
        ((l.transportRange i j).block .longitudinal).det ≤
            ((q.transportRange i j).block .longitudinal).det ∧
          ((q.transportRange i j).block .longitudinal).det ≤
            ((l.transportRange i j).block .longitudinal).det *
              Real.exp (∑ k ∈ Finset.Ico i j, l.momentumGain k ^ 3 / 3) := by
  subst hl hq
  refine ⟨rfl, rfl, fun i j plane hplane => ?_, fun {i j} hij hj hspeeds => ?_⟩
  · have hfield (k : ℕ) : ((of profile drive probe .quadratic).fieldStep k).1 =
        ((of profile drive probe .logRatio).fieldStep k).1 := rfl
    have htransport (k : ℕ) : ((of profile drive probe .quadratic).transportStep k).1 =
        ((of profile drive probe .logRatio).transportStep k).1 := rfl
    -- The transverse generators do not ask for the formula.
    exact ⟨compose_transverse rfl hfield i j hplane, compose_transverse rfl htransport i j hplane⟩
  · -- The determinants are exponentials of sums of diagonals, which are compared step by step.
    have hlast : j ≤ profile.size - 1 := Nat.le_sub_one_of_lt hj
    obtain ⟨hlower, hupper⟩ := hspeeds.sum_diagonal_between
      (q := of profile drive probe .quadratic) rfl rfl fun _ => rfl
    have hfirst := range_det_eq_exp (of profile drive probe .logRatio) hij hlast
    have hsecond := range_det_eq_exp (of profile drive probe .quadratic) hij hlast
    rw [hfirst.1, hfirst.2, hsecond.1, hsecond.2, ← Real.exp_add]
    have hbounds := And.intro (Real.exp_le_exp.mpr hlower) (Real.exp_le_exp.mpr hupper)
    exact ⟨hbounds, hbounds⟩

noncomputable def plateau : Profile ℝ where
  positions := #[0, 1, 2]
  samples := #[1, 1, 0]
  accepted := Profile.fault?_of_equal_steps one_pos rfl (by decide) fun i (hi : i < 3) => by
    interval_cases i <;> simp

theorem plateau_spacing : plateau.spacing = 1 := by
  simp [Profile.spacing, Profile.meanStep, plateau]

/-- On the crest the particle gains what the voltage gives. -/
theorem plateau_firstStep {l : Passage ℝ}
    (hl : l = of plateau ⟨1, 1000, 0⟩ ⟨938272088, 938272088, 1⟩ .logRatio) :
    (l.motion 1).energy = 938273088 := by
  have hsize : plateau.size = 3 := rfl
  have hsample : plateau.sample (0 : ℕ) = 1 := by simp [Profile.sample, plateau]
  rw [hl, energy_succ _ _ _ _ (by simp [hsize]), motion_zero, plateau_spacing, hsample,
    Scalar.real_cos]
  norm_num

/-- The first step is behind the crest by less than one radian, because the wave is slow. -/
theorem plateau_accelerates {l : Passage ℝ}
    (hl : l = of plateau ⟨1, 1000, 0⟩ ⟨938272088, 938272088, 1⟩ .logRatio) :
    0 < Real.cos (l.motion 1).phase := by
  have hsize : plateau.size = 3 := rfl
  -- The particle is faster than half the speed of light.
  have hbeta : 1 / 2 ≤ l.betaAt 1 := by
    rw [betaAt, gammaAt, plateau_firstStep hl, hl, Relativity.beta, Relativity.gamma,
      Scalar.real_sqrt, Scalar.real_maxNum]
    apply Real.le_sqrt_of_sq_le
    refine le_max_of_le_left ?_
    simp only [of, Scalar.real_one]
    norm_num
  have hphase : (l.motion 1).phase = Drive.omega ⟨1, 1000, 0⟩ / (l.betaAt 1 * speedOfLight) := by
    rw [hl, phase_succ _ _ _ _ (by simp [hsize]), motion_zero, plateau_spacing, mul_one, zero_add]
  have homega : Drive.omega (⟨1, 1000, 0⟩ : Drive ℝ) = 2 * Real.pi := by
    change 2 * Real.pi * 1 = _
    rw [mul_one]
  have hpositive : 0 ≤ Drive.omega (⟨1, 1000, 0⟩ : Drive ℝ) := by
    rw [homega]
    positivity
  have hslow : Drive.omega (⟨1, 1000, 0⟩ : Drive ℝ) ≤ l.betaAt 1 * speedOfLight := by
    have hlight : (speedOfLight : ℝ) = 299792458 := by norm_num [speedOfLight]
    have hpi := Real.pi_lt_four
    rw [homega, hlight]
    linarith
  rw [hphase]
  apply Real.cos_pos_of_le_one
  rw [abs_of_nonneg (div_nonneg hpositive (hpositive.trans hslow))]
  exact div_le_one_of_le₀ hslow (hpositive.trans hslow)

/-- The particle enters on the crest and still gains behind it. -/
theorem plateau_rises {l : Passage ℝ}
    (hl : l = of plateau ⟨1, 1000, 0⟩ ⟨938272088, 938272088, 1⟩ .logRatio) :
    0 < (l.motion 0).energy ∧ (l.motion 0).energy < (l.motion 1).energy ∧
      (l.motion 1).energy < (l.motion 2).energy := by
  have hsize : plateau.size = 3 := rfl
  have hsample : plateau.sample (1 : ℕ) = 1 := by simp [Profile.sample, plateau]
  have hentry : l.motion 0 = ⟨0, 938272088⟩ := by rw [hl, motion_zero]
  have hsecond : (l.motion 2).energy = (l.motion 1).energy + 1000 * Real.cos (l.motion 1).phase := by
    rw [hl, energy_succ _ _ _ _ (by simp [hsize]), plateau_spacing, hsample, Scalar.real_cos]
    ring
  have hcrest := plateau_accelerates hl
  rw [hsecond, plateau_firstStep hl, hentry]
  refine ⟨by norm_num, by norm_num, by linarith⟩

/-- Two steps in which the particle speeds up. -/
theorem quadratic_bounds_plateau : ∃ l q : Passage ℝ,
    l = of plateau ⟨1, 1000, 0⟩ ⟨938272088, 938272088, 1⟩ .logRatio ∧
      q = of plateau ⟨1, 1000, 0⟩ ⟨938272088, 938272088, 1⟩ .quadratic ∧
      (q.transferRange 0 2).block .vertical = (l.transferRange 0 2).block .vertical ∧
      l.SpeedsUp 0 2 ∧ (l.motion 0).energy < (l.motion 1).energy ∧
      (l.motion 1).energy < (l.motion 2).energy ∧
      ((l.transportRange 0 2).block .longitudinal).det ≤
        ((q.transportRange 0 2).block .longitudinal).det ∧
      ((q.transportRange 0 2).block .longitudinal).det ≤
        ((l.transportRange 0 2).block .longitudinal).det *
          Real.exp (l.momentumGain 0 ^ 3 / 3 + l.momentumGain 1 ^ 3 / 3) := by
  -- The passage stays a name, because its samples are long terms.
  obtain ⟨l, hl⟩ : ∃ l, l = of plateau ⟨1, 1000, 0⟩ ⟨938272088, 938272088, 1⟩ .logRatio := ⟨_, rfl⟩
  have hsize : plateau.size = 3 := rfl
  obtain ⟨hentry, hfirst, hsecond⟩ := plateau_rises hl
  have hspeeds : l.SpeedsUp 0 2 := by
    refine ⟨fun k _ hk => ?_, fun k _ hk => ?_⟩
    · interval_cases k
      · exact hentry
      · exact hentry.trans hfirst
      · exact (hentry.trans hfirst).trans hsecond
    · interval_cases k
      · exact hfirst.le
      · exact hsecond.le
  obtain ⟨-, -, htransverse, hdet⟩ := quadratic_bounds _ _ _ hl rfl
  obtain ⟨-, hlower, hupper⟩ := hdet (Nat.zero_le 2) (by simp [hsize]) hspeeds
  rw [Finset.sum_Ico_eq_sum_range, Nat.sub_zero, Finset.sum_range_succ, Finset.sum_range_one] at hupper
  exact ⟨l, _, hl, rfl, (htransverse 0 2 (by decide)).1, hspeeds, hfirst, hsecond, hlower, hupper⟩

end Passage

end BeamOptics
