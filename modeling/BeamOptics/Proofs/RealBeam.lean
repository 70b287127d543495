import BeamOptics.Proofs.RealMatrix
import BeamOptics.Beam.Covariance

/-! Beams over the reals. A map that acts plane by plane takes each plane's block of moments between
its own block and the transposed one. A mixture of two beams moves the moments from the first to the
second one in proportion, and a relative distance is the distance over a reference that is never
zero. -/

namespace BeamOptics

def Block.form (m : Block ℝ) (u v : ℝ) : ℝ := m.a * u * u + (m.b + m.c) * u * v + m.d * v * v

/-- The row of a plane's position has entries in that plane alone. -/
theorem PhaseMap.ofBlocks_position_row (b : Triple (Block ℝ)) (p : Plane) (f : Fin 7 → ℝ) :
    ∑ k, (ofBlocks b).entry p.position k * f k =
      (b.get p).a * f p.position + (b.get p).b * f p.slope := by
  rw [Fin.sum_univ_seven]
  cases p <;> simp [ofBlocks, Mat.entry, Plane.position, Plane.slope, Triple.get]

/-- The row of a plane's slope has entries in that plane alone. -/
theorem PhaseMap.ofBlocks_slope_row (b : Triple (Block ℝ)) (p : Plane) (f : Fin 7 → ℝ) :
    ∑ k, (ofBlocks b).entry p.slope k * f k =
      (b.get p).c * f p.position + (b.get p).d * f p.slope := by
  rw [Fin.sum_univ_seven]
  cases p <;> simp [ofBlocks, Mat.entry, Plane.position, Plane.slope, Triple.get]

/-- Between two rows with entries in one plane alone, the transported moments come from that plane. -/
theorem PhaseMap.conjugate_entry_of_rows {M : PhaseMap ℝ} {p : Plane} {i j : Fin 7} {x y u v : ℝ}
    (hi : ∀ f : Fin 7 → ℝ, ∑ k, M.entry i k * f k = x * f p.position + y * f p.slope)
    (hj : ∀ f : Fin 7 → ℝ, ∑ k, M.entry j k * f k = u * f p.position + v * f p.slope)
    (S : PhaseMap ℝ) : (M.conjugate S).entry i j =
      u * (x * S.entry p.position p.position + y * S.entry p.slope p.position) +
        v * (x * S.entry p.position p.slope + y * S.entry p.slope p.slope) := by
  have hrow (k : Fin 7) : (M * S).entry i k = x * S.entry p.position k + y * S.entry p.slope k := by
    rw [Mat.entry_mul, Mat.total_eq_sum, hi]
  rw [conjugate, Mat.entry_mul, Mat.total_eq_sum]
  simp only [Mat.entry_transpose, mul_comm _ (M.entry j _)]
  rw [hj, hrow, hrow]

/-- The last row is `0, …, 0, 1`, so that points go to points. -/
def PhaseMap.Affine (M : PhaseMap ℝ) : Prop :=
  ∀ j, M.entry homogeneous j = if j = homogeneous then 1 else 0

/-- There is nothing to reset in the last row of a map of points. -/
theorem PhaseMap.Affine.homogenize_eq {M : PhaseMap ℝ} (hM : M.Affine) : M.homogenize = M := by
  apply Mat.ext_entry
  intro i j
  rw [homogenize, Mat.entry_ofFn, Scalar.real_zero, Scalar.real_one]
  split_ifs with hi hj
  · rw [hi, hM, if_pos hj]
  · rw [hi, hM, if_neg hj]
  · rfl

namespace Covariance

/-- A map that acts plane by plane takes the moments of a plane between its block and the transposed
block, whatever the couplings and the centroid. -/
theorem block_propagate (s : Covariance ℝ) (b : Triple (Block ℝ)) (p : Plane) :
    (s.propagate (PhaseMap.ofBlocks b)).block p =
      b.get p * s.block p * (b.get p).transpose := by
  have hposition := PhaseMap.ofBlocks_position_row b p
  have hslope := PhaseMap.ofBlocks_slope_row b p
  simp only [block, propagate, PhaseMap.block,
    PhaseMap.conjugate_entry_of_rows hposition hposition,
    PhaseMap.conjugate_entry_of_rows hposition hslope,
    PhaseMap.conjugate_entry_of_rows hslope hposition,
    PhaseMap.conjugate_entry_of_rows hslope hslope]
  change _ = Block.mul (Block.mul _ _) _
  simp only [Block.mul, Block.transpose, Block.mk.injEq]
  refine ⟨?_, ?_, ?_, ?_⟩ <;> ring

/-- The mean square position behind a map that acts plane by plane is the form of the plane's block
at the first row of the map's. -/
theorem block_propagate_form (s : Covariance ℝ) (b : Triple (Block ℝ)) (p : Plane) :
    ((s.propagate (PhaseMap.ofBlocks b)).block p).a =
      (s.block p).form (b.get p).a (b.get p).b := by
  rw [block_propagate]
  change ((b.get p).a * _ + (b.get p).b * _) * (b.get p).a +
    ((b.get p).a * _ + (b.get p).b * _) * (b.get p).b = _
  rw [Block.form]
  ring

/-- A beam behind two maps is the beam behind their product. -/
theorem propagate_propagate (s : Covariance ℝ) (M N : PhaseMap ℝ) :
    (s.propagate M).propagate N = s.propagate (N * M) := by
  simp only [propagate, PhaseMap.conjugate, Mat.transpose_mul, Mat.mul_assoc]

/-- The entries of a plane's block, among the moments of all coordinates. -/
theorem block_eq_entries (p : Plane) : ∃ i j : Fin 6, ∀ s : Covariance ℝ,
    s.block p = ⟨s.phaseMoments.entry i i, s.phaseMoments.entry i j, s.phaseMoments.entry j i,
      s.phaseMoments.entry j j⟩ := by
  cases p with
  | horizontal => exact ⟨0, 1, fun s => by simp only [phaseMoments, Mat.entry_ofFn]; rfl⟩
  | vertical => exact ⟨2, 3, fun s => by simp only [phaseMoments, Mat.entry_ofFn]; rfl⟩
  | longitudinal => exact ⟨4, 5, fun s => by simp only [phaseMoments, Mat.entry_ofFn]; rfl⟩

theorem castSucc_ne_homogeneous (i : Fin 6) : i.castSucc ≠ homogeneous :=
  Fin.ne_of_lt (Fin.castSucc_lt_last i)

/-- A symmetric matrix that ends in one: the last row and the last column hold one centroid. -/
structure Proper (s : Covariance ℝ) : Prop where
  symmetric : ∀ i j, s.matrix.entry i j = s.matrix.entry j i
  scale : s.matrix.entry homogeneous homogeneous = 1

/-- A proper matrix without a centroid has the last row of an affine map. -/
theorem Proper.affine {s : Covariance ℝ} (h : s.Proper)
    (hcentred : ∀ i, i ≠ homogeneous → s.matrix.entry i homogeneous = 0) : s.matrix.Affine := by
  intro j
  split_ifs with hj
  · rw [hj, h.scale]
  · rw [h.symmetric, hcentred j hj]

/-- The moments of a mixture are mixed, whatever becomes of the centroid. -/
theorem phaseMoments_relax {K : Type} [Scalar K] (s t : Covariance K) (alpha : K) :
    (s.relax t alpha).phaseMoments =
      s.phaseMoments.scale (1 - alpha) + t.phaseMoments.scale alpha := by
  apply Mat.ext_entry
  intro i j
  simp [phaseMoments, relax, PhaseMap.homogenize, castSucc_ne_homogeneous]

/-- A mixture mixes the blocks of its parts. -/
theorem block_relax (s t : Covariance ℝ) (alpha : ℝ) (p : Plane) :
    (s.relax t alpha).block p = (s.block p).scale (1 - alpha) + (t.block p).scale alpha := by
  obtain ⟨i, j, hblock⟩ := block_eq_entries p
  simp only [hblock, phaseMoments_relax, Mat.entry_add, Mat.entry_scale, Scalar.real_one]
  rfl

/-- A mixture lies on the way from one beam to the other. -/
theorem relax_sub_left (s t : Covariance ℝ) (alpha : ℝ) :
    (s.relax t alpha).phaseMoments - s.phaseMoments =
      (t.phaseMoments - s.phaseMoments).scale alpha := by
  rw [phaseMoments_relax]
  apply Mat.ext_entry
  intro i j
  simp only [Mat.entry_sub, Mat.entry_add, Mat.entry_scale, Scalar.real_one]
  ring

theorem relax_sub_right (s t : Covariance ℝ) (alpha : ℝ) :
    (s.relax t alpha).phaseMoments - t.phaseMoments =
      (s.phaseMoments - t.phaseMoments).scale (1 - alpha) := by
  rw [phaseMoments_relax]
  apply Mat.ext_entry
  intro i j
  simp only [Mat.entry_sub, Mat.entry_add, Mat.entry_scale, Scalar.real_one]
  ring

/-- What distances from a beam are relative to: the norm of its moments, and one if they vanish. -/
noncomputable def referenceNorm (s : Covariance ℝ) : ℝ :=
  if 0 < s.momentNorm then s.momentNorm else 1

theorem referenceNorm_pos (s : Covariance ℝ) : 0 < s.referenceNorm := by
  unfold referenceNorm
  split
  · assumption
  · exact one_pos

/-- Distances are relative to the reference norm. -/
theorem relativeDistance_eq (s t : Covariance ℝ) :
    s.relativeDistance t = (s.phaseMoments - t.phaseMoments).frobenius / t.referenceNorm := by
  change (if Scalar.ofNat 0 < t.momentNorm then
    (s.phaseMoments - t.phaseMoments).frobenius / t.momentNorm
    else (s.phaseMoments - t.phaseMoments).frobenius) = _
  rw [referenceNorm, Scalar.real_count, Nat.cast_zero]
  by_cases hpos : 0 < t.momentNorm
  · rw [if_pos hpos, if_pos hpos]
  · rw [if_neg hpos, if_neg hpos, div_one]

theorem phaseMoments_zero_entry (i j : Fin 6) :
    (zero : Covariance ℝ).phaseMoments.entry i j = 0 := by
  simp [phaseMoments, zero, PhaseMap.toOrigin, castSucc_ne_homogeneous]

theorem momentNorm_zero : (zero : Covariance ℝ).momentNorm = 0 := by
  rw [momentNorm, Mat.frobenius_eq_sqrt]
  simp [phaseMoments_zero_entry]

theorem referenceNorm_zero : (zero : Covariance ℝ).referenceNorm = 1 := by
  rw [referenceNorm, momentNorm_zero, if_neg (lt_irrefl _)]

/-- Away from the zero beam the distance is the norm of the moments, with nothing to compare it with. -/
theorem relativeDistance_relax_zero (s : Covariance ℝ) (alpha : ℝ) :
    (zero.relax s alpha).relativeDistance zero = |alpha| * s.momentNorm := by
  have hsub : s.phaseMoments - (zero : Covariance ℝ).phaseMoments = s.phaseMoments :=
    Mat.ext_entry fun i j => by rw [Mat.entry_sub, phaseMoments_zero_entry, sub_zero]
  rw [relativeDistance_eq, referenceNorm_zero, div_one, relax_sub_left, Mat.frobenius_scale, hsub,
    momentNorm]

end Covariance

end BeamOptics
