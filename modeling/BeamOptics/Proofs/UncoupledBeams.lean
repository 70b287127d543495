import BeamOptics.Proofs.RealBeam
import BeamOptics.Proofs.RealMaps

/-! Centred beams without coupling between planes, which are those of three moments in each plane.
Behind a map that acts plane by plane their mean square positions follow from the first row of the
plane's block. -/

namespace BeamOptics

/-- A symmetric matrix of moments without a centroid and without moments between planes. -/
structure Covariance.Uncoupled (s : Covariance ℝ) : Prop where
  symmetric : ∀ i j, s.matrix.entry i j = s.matrix.entry j i
  centred : ∀ i, i ≠ homogeneous → s.matrix.entry i homogeneous = 0
  scale : s.matrix.entry homogeneous homogeneous = 1
  uncoupled : ∀ i j, i ≠ homogeneous → j ≠ homogeneous → i.val / 2 ≠ j.val / 2 →
    s.matrix.entry i j = 0

def PhaseMap.Planar (M : PhaseMap ℝ) : Prop := ∃ b, M = ofBlocks b

namespace Covariance

variable {s : Covariance ℝ}

theorem Uncoupled.proper (h : s.Uncoupled) : s.Proper := ⟨h.symmetric, h.scale⟩

/-- Moments between planes vanish. -/
theorem Uncoupled.entry_eq_zero (h : s.Uncoupled) {i j : Fin 7} (hij : i.val / 2 ≠ j.val / 2) :
    s.matrix.entry i j = 0 := by
  by_cases hi : i = homogeneous
  · have hj : j ≠ homogeneous := by
      rintro rfl
      exact hij (congrArg (fun k : Fin 7 => k.val / 2) hi)
    rw [hi, h.symmetric, h.centred j hj]
  by_cases hj : j = homogeneous
  · rw [hj, h.centred i hi]
  · exact h.uncoupled i j hi hj hij

theorem moments_ofMoments {K : Type} [Scalar K] (m : Triple (Moments K)) (p : Plane) :
    (ofMoments m).moments p = m.get p := by
  cases p <;> rfl

/-- The beam of its own moments. -/
theorem Uncoupled.eq_ofMoments (h : s.Uncoupled) : s = ofMoments (Triple.ofFn s.moments) := by
  have hentry (i j : Fin 7) :
      s.matrix.entry i j = (ofMoments (Triple.ofFn s.moments)).matrix.entry i j := by
    -- In a plane's block the entries are its moments or mirror them, elsewhere they vanish.
    fin_cases i <;> fin_cases j <;>
      first
      | rfl
      | exact (h.entry_eq_zero (by decide)).trans Scalar.real_zero.symm
      | exact h.symmetric _ _
      | exact h.scale.trans Scalar.real_one.symm
  have hmatrix : s.matrix = (ofMoments (Triple.ofFn s.moments)).matrix := Mat.ext_entry hentry
  cases s
  exact congrArg Covariance.mk hmatrix

theorem uncoupled_ofMoments (m : Triple (Moments ℝ)) : (ofMoments m).Uncoupled where
  symmetric i j := by fin_cases i <;> fin_cases j <;> rfl
  centred i hi := by
    fin_cases i <;> first | exact absurd rfl hi | exact Scalar.real_zero
  scale := Scalar.real_one
  uncoupled i j hi hj hij := by
    fin_cases i <;> fin_cases j <;>
      first | exact absurd rfl hij | exact Scalar.real_zero

/-- A mixture is the beam itself if it has the beam's entries. -/
theorem Uncoupled.relax_eq (h : s.Uncoupled) {t : Covariance ℝ} {alpha : ℝ}
    (hentry : ∀ i j, t.matrix.entry i j * (1 - alpha) + s.matrix.entry i j * alpha =
      s.matrix.entry i j) : t.relax s alpha = s := by
  have hmixture : t.matrix.scale (1 - alpha) + s.matrix.scale alpha = s.matrix := by
    apply Mat.ext_entry
    intro i j
    rw [Mat.entry_add, Mat.entry_scale, Mat.entry_scale, hentry]
  rw [relax, Scalar.real_one, hmixture, (h.proper.affine h.centred).homogenize_eq]

/-- A mixture of the beam with itself is the beam. -/
theorem Uncoupled.relax_self (h : s.Uncoupled) (alpha : ℝ) : s.relax s alpha = s :=
  h.relax_eq fun i j => by ring

/-- With the factor one a mixture is the second beam. -/
theorem Uncoupled.relax_one (h : s.Uncoupled) (t : Covariance ℝ) : t.relax s 1 = s :=
  h.relax_eq fun i j => by ring

theorem relativeDistance_self (s : Covariance ℝ) : s.relativeDistance s = 0 := by
  rw [relativeDistance_eq, Mat.frobenius_eq_sqrt]
  simp

/-! ### Beams with the same moments in each plane -/

noncomputable def alike (m : Moments ℝ) : Covariance ℝ := .ofMoments ⟨m, m, m⟩

theorem uncoupled_alike (m : Moments ℝ) : (alike m).Uncoupled := uncoupled_ofMoments _

theorem moments_alike (m : Moments ℝ) (p : Plane) : (alike m).moments p = m := by
  rw [alike, moments_ofMoments]
  cases p <;> rfl

theorem phaseMoments_alike_entry (m : Moments ℝ) (i j : Fin 6) :
    (alike m).phaseMoments.entry i j = (alike m).matrix.entry i.castSucc j.castSucc :=
  Mat.entry_ofFn ..

/-- The norm of all moments, with the cross moment counted twice. -/
theorem momentNorm_alike (m : Moments ℝ) :
    (alike m).momentNorm = √(3 * (m.s11 ^ 2 + 2 * m.s12 ^ 2 + m.s22 ^ 2)) := by
  rw [momentNorm, Mat.frobenius_eq_sqrt]
  simp only [phaseMoments_alike_entry]
  congr 1
  simp [Fin.sum_univ_six, alike, ofMoments, Triple.map, Moments.block, PhaseMap.ofBlocks, Mat.entry]
  ring

/-- The distance between beams that are alike in all planes. -/
theorem relativeDistance_alike {m : Moments ℝ} (hm : m.s11 ≠ 0) (n : Moments ℝ) :
    (alike n).relativeDistance (alike m) =
      √(((n.s11 - m.s11) ^ 2 + 2 * (n.s12 - m.s12) ^ 2 + (n.s22 - m.s22) ^ 2) /
        (m.s11 ^ 2 + 2 * m.s12 ^ 2 + m.s22 ^ 2)) := by
  have hdistance : ((alike n).phaseMoments - (alike m).phaseMoments).frobenius =
      √(3 * ((n.s11 - m.s11) ^ 2 + 2 * (n.s12 - m.s12) ^ 2 + (n.s22 - m.s22) ^ 2)) := by
    rw [Mat.frobenius_eq_sqrt]
    simp only [Mat.entry_sub, phaseMoments_alike_entry]
    congr 1
    simp [Fin.sum_univ_six, alike, ofMoments, Triple.map, Moments.block, PhaseMap.ofBlocks, Mat.entry]
    ring
  have hreference : 0 < (alike m).momentNorm := by
    rw [momentNorm_alike]
    positivity
  rw [relativeDistance_eq, referenceNorm, if_pos hreference, momentNorm_alike, hdistance,
    ← Real.sqrt_div (by positivity), mul_div_mul_left _ _ three_ne_zero]

/-! ### Sizes -/

/-- A positive size is the root of the mean square position. -/
theorem sq_rmsSize {p : Plane} (h : 0 < s.rmsSize p) : s.rmsSize p * s.rmsSize p = (s.block p).a := by
  rw [rmsSize, Scalar.real_sqrt, Scalar.real_maxNum, Scalar.real_zero] at h ⊢
  have hpos : 0 < (s.block p).a := by
    by_contra hneg
    rw [max_eq_right (not_lt.mp hneg), Real.sqrt_zero] at h
    exact lt_irrefl 0 h
  rw [max_eq_left hpos.le]
  exact Real.mul_self_sqrt hpos.le

/-- The mean square position behind a map, from the first row of the map's block. -/
theorem block_propagate_a (m : Triple (Moments ℝ)) (b : Triple (Block ℝ)) (p : Plane) :
    (((ofMoments m).propagate (PhaseMap.ofBlocks b)).block p).a =
      (b.get p).a * (b.get p).a * (m.get p).s11 + 2 * (b.get p).a * (b.get p).b * (m.get p).s12 +
        (b.get p).b * (b.get p).b * (m.get p).s22 := by
  have hblock : (ofMoments m).block p = (m.get p).block := by
    cases p <;> rfl
  rw [block_propagate_form, hblock, Block.form, Moments.block]
  ring

end Covariance

end BeamOptics
