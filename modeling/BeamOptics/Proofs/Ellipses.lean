import BeamOptics.Proofs.PhysicalBeams
import BeamOptics.Proofs.UncoupledBeams

/-! Ellipses and moments. The determinant of the moments of an ellipse is the square of its
emittance, so the ellipse can be read back from its moments. The moments that an ellipse can be read
from are those whose matrix is positive definite, and each of them has one ellipse. -/

namespace BeamOptics

namespace Moments

variable (m : Moments ℝ)

theorem positiveDefinite_iff : m.block.PositiveDefinite ↔ 0 < m.s11 ∧ 0 < m.block.det :=
  Block.positiveDefinite_iff rfl

end Moments

namespace Twiss

variable {t : Twiss ℝ} {m : Moments ℝ}

def Accepted (t : Twiss ℝ) : Prop := mk? t.alpha t.beta t.emittance = .ok t

theorem accepted_iff (t : Twiss ℝ) : t.Accepted ↔ 0 < t.beta ∧ 0 < t.emittance := by
  unfold Accepted mk?
  split_ifs with hshape hemittance
  · have hbeta : ¬ 0 < t.beta := by simpa using hshape
    simp [hbeta]
  · have hemittance : ¬ 0 < t.emittance := by simpa using hemittance
    simp [hemittance]
  · have hbeta : 0 < t.beta := by simpa using hshape
    have hemittance : 0 < t.emittance := by simpa using hemittance
    exact iff_of_true rfl ⟨hbeta, hemittance⟩

/-! ### Moments of an ellipse -/

/-- The squared emittance is the determinant of the moments. -/
theorem det_moments (hbeta : t.beta ≠ 0) : t.moments.block.det = t.emittance ^ 2 := by
  rw [Block.det]
  simp only [Moments.block, moments, gamma, Scalar.real_one]
  field_simp
  ring

theorem Accepted.positiveDefinite (h : t.Accepted) : t.moments.block.PositiveDefinite := by
  obtain ⟨hbeta, hemittance⟩ := t.accepted_iff.mp h
  rw [Moments.positiveDefinite_iff, det_moments hbeta.ne']
  exact ⟨mul_pos hemittance hbeta, pow_pos hemittance 2⟩

/-! ### The ellipse of moments -/

theorem ofMoments_eq_ok (hm : m.block.PositiveDefinite) :
    ofMoments m = .ok ⟨-m.s12 / √m.block.det, m.s11 / √m.block.det, √m.block.det⟩ := by
  have hpos := m.positiveDefinite_iff.mp hm
  rw [← Scalar.real_zero] at hpos
  exact if_pos hpos

theorem ofMoments_refused (hm : ¬ m.block.PositiveDefinite) :
    ofMoments m = .error (.numeric (.moments m.s11 m.s12 m.s22)) := by
  rw [m.positiveDefinite_iff, ← Scalar.real_zero] at hm
  exact if_neg hm

/-- Moments have an ellipse exactly if they are positive definite. -/
theorem exists_ofMoments_iff (m : Moments ℝ) :
    (∃ t, ofMoments m = .ok t) ↔ m.block.PositiveDefinite := by
  constructor
  · rintro ⟨t, ht⟩
    by_contra hm
    cases ht.symm.trans (ofMoments_refused hm)
  · intro hm
    exact ⟨_, ofMoments_eq_ok hm⟩

/-- An ellipse can be read back from its moments. -/
theorem Accepted.ofMoments_moments (h : t.Accepted) : ofMoments t.moments = .ok t := by
  obtain ⟨hbeta, hemittance⟩ := t.accepted_iff.mp h
  have hroot : √t.moments.block.det = t.emittance := by
    rw [det_moments hbeta.ne', Real.sqrt_sq hemittance.le]
  have halpha : -t.moments.s12 / t.emittance = t.alpha := by
    change -(-t.emittance * t.alpha) / t.emittance = t.alpha
    rw [neg_mul, neg_neg, mul_div_cancel_left₀ _ hemittance.ne']
  have henvelope : t.moments.s11 / t.emittance = t.beta := mul_div_cancel_left₀ _ hemittance.ne'
  rw [ofMoments_eq_ok h.positiveDefinite, hroot, halpha, henvelope]

/-- With the root of the determinant for an emittance an ellipse has the moments it is made from. -/
theorem moments_of_root {root : ℝ} (hroot : root ≠ 0) (hs11 : m.s11 ≠ 0)
    (hsquare : root * root = m.block.det) :
    moments ⟨-m.s12 / root, m.s11 / root, root⟩ = m := by
  have hs12 : -root * (-m.s12 / root) = m.s12 := by
    rw [neg_div, neg_mul_neg, mul_div_cancel₀ _ hroot]
  have hs22 : root * ((1 + -m.s12 / root * (-m.s12 / root)) / (m.s11 / root)) = m.s22 := by
    have hsum : root * root + m.s12 * m.s12 = m.s11 * m.s22 := by
      rw [hsquare]
      exact sub_add_cancel _ _
    field_simp
    linarith
  cases m
  simp only [moments, gamma, Scalar.real_one, Moments.mk.injEq]
  exact ⟨mul_div_cancel₀ _ hroot, hs12, hs22⟩

/-- The ellipse that is read from moments is one of a beam with these moments. -/
theorem moments_of_ofMoments (h : ofMoments m = .ok t) : t.Accepted ∧ t.moments = m := by
  have hm := (exists_ofMoments_iff m).mp ⟨t, h⟩
  obtain ⟨hs11, hdet⟩ := m.positiveDefinite_iff.mp hm
  have hroot : 0 < √m.block.det := Real.sqrt_pos.mpr hdet
  obtain rfl : _ = t := Except.ok.inj ((ofMoments_eq_ok hm).symm.trans h)
  exact ⟨(accepted_iff _).mpr ⟨div_pos hs11 hroot, hroot⟩,
    moments_of_root hroot.ne' hs11.ne' (Real.mul_self_sqrt hdet.le)⟩

end Twiss

/-! ### Beams of ellipses -/

namespace Covariance

variable (ts : Triple (Twiss ℝ)) (p : Plane)

theorem block_ofTwiss : (ofTwiss ts).block p = (ts.get p).moments.block := by
  cases p <;> rfl

theorem twiss_ofTwiss : (ofTwiss ts).twiss p = Twiss.ofMoments (ts.get p).moments := by
  rw [twiss, ofTwiss, moments_ofMoments, Triple.get_map]

/-- The emittance that a beam was made with is read off it again. -/
theorem emittance_ofTwiss (h : (ts.get p).Accepted) :
    (ofTwiss ts).emittance p = (ts.get p).emittance := by
  obtain ⟨hbeta, hemittance⟩ := (Twiss.accepted_iff _).mp h
  rw [emittance, block_ofTwiss, Twiss.det_moments hbeta.ne', Scalar.real_sqrt, Scalar.real_maxNum,
    Scalar.real_zero, max_eq_left (sq_nonneg _), Real.sqrt_sq hemittance.le]

theorem sq_rmsSize_ofTwiss (h : (ts.get p).Accepted) :
    (ofTwiss ts).rmsSize p ^ 2 = (ts.get p).emittance * (ts.get p).beta := by
  obtain ⟨hbeta, hemittance⟩ := (Twiss.accepted_iff _).mp h
  have hsquare : ((ofTwiss ts).block p).a = (ts.get p).emittance * (ts.get p).beta := by
    rw [block_ofTwiss]
    rfl
  have hpos := (mul_pos hemittance hbeta).le
  rw [rmsSize, hsquare, Scalar.real_sqrt, Scalar.real_maxNum, Scalar.real_zero, max_eq_left hpos,
    Real.sq_sqrt hpos]

end Covariance

namespace Twiss

/-- Ellipses and positive definite moments stand for each other, for one plane and in the beam of
three. -/
theorem moments_bijective :
    Set.BijOn moments {t : Twiss ℝ | t.Accepted} {m | m.block.PositiveDefinite} ∧
    (∀ t : Twiss ℝ, t.Accepted → ofMoments t.moments = .ok t) ∧
    (∀ m : Moments ℝ, (∃ t, ofMoments m = .ok t) ↔ m.block.PositiveDefinite) ∧
    (∀ (m : Moments ℝ) t, ofMoments m = .ok t → t.Accepted ∧ t.moments = m) ∧
    ∀ (ts : Triple (Twiss ℝ)) (p : Plane),
      ((Covariance.ofTwiss ts).twiss p = .ok (ts.get p) ↔ (ts.get p).Accepted) ∧
      ((ts.get p).Accepted → (Covariance.ofTwiss ts).emittance p = (ts.get p).emittance ∧
        (Covariance.ofTwiss ts).rmsSize p ^ 2 = (ts.get p).emittance * (ts.get p).beta) := by
  refine ⟨⟨fun t ht => Accepted.positiveDefinite ht, fun t ht u hu heq => ?_, fun m hm => ?_⟩,
    fun t ht => ht.ofMoments_moments, exists_ofMoments_iff, fun m t => moments_of_ofMoments,
    fun ts p => ⟨?_, fun h => ?_⟩⟩
  · have hsame := Accepted.ofMoments_moments ht
    rw [heq, Accepted.ofMoments_moments hu] at hsame
    exact (Except.ok.inj hsame).symm
  · obtain ⟨t, ht⟩ := (exists_ofMoments_iff m).mpr hm
    exact ⟨t, moments_of_ofMoments ht⟩
  · rw [Covariance.twiss_ofTwiss]
    exact ⟨fun h => (moments_of_ofMoments h).1, fun h => h.ofMoments_moments⟩
  · exact ⟨Covariance.emittance_ofTwiss ts p h, Covariance.sq_rmsSize_ofTwiss ts p h⟩

/-- A converging ellipse, read from its moments and from a beam that has others in the other planes.
-/
theorem moments_bijective_converging :
    Accepted ⟨1, 2, 3⟩ ∧ ofMoments ⟨6, -3, 3⟩ = .ok (⟨1, 2, 3⟩ : Twiss ℝ) ∧
      (Moments.block (⟨6, -3, 3⟩ : Moments ℝ)).PositiveDefinite ∧
      (Covariance.ofTwiss ⟨⟨0, 1, 1⟩, ⟨1, 2, 3⟩, ⟨-1, 4, 2⟩⟩).twiss .vertical =
        .ok (⟨1, 2, 3⟩ : Twiss ℝ) ∧
      (Covariance.ofTwiss ⟨⟨0, 1, 1⟩, ⟨1, 2, 3⟩, ⟨-1, 4, 2⟩⟩).rmsSize .vertical ^ 2 =
        (3 * 2 : ℝ) := by
  have haccepted : Accepted ⟨1, 2, 3⟩ := (accepted_iff _).mpr (by norm_num)
  have hmoments : (⟨1, 2, 3⟩ : Twiss ℝ).moments = ⟨6, -3, 3⟩ := by
    simp only [moments, gamma, Scalar.real_one]
    norm_num
  obtain ⟨-, hback, hiff, -, hbeam⟩ := moments_bijective
  have hread := hback _ haccepted
  rw [hmoments] at hread
  obtain ⟨hplane, hsizes⟩ := hbeam ⟨⟨0, 1, 1⟩, ⟨1, 2, 3⟩, ⟨-1, 4, 2⟩⟩ .vertical
  exact ⟨haccepted, hread, (hiff _).mp ⟨_, hread⟩, hplane.mpr haccepted, (hsizes haccepted).2⟩

end Twiss

end BeamOptics
