import BeamOptics.Proofs.Ellipses

/-! Beams that stay physical. A map that acts plane by plane, and is regular in each, keeps the
blocks of a beam positive definite and multiplies each emittance by the size of the block's
determinant. A mixture of two such beams is such a beam again, with at least the mixture of their
emittances, for the root of the determinant is concave on positive definite blocks. -/

namespace BeamOptics

/-! ### Blocks -/

namespace Block

variable {m n : Block ℝ}

theorem mul_transpose_form (m n : Block ℝ) (u v : ℝ) :
    (m * n * m.transpose).form u v = n.form (m.a * u + m.c * v) (m.b * u + m.d * v) := by
  simp only [mul_def, transpose, form]
  ring

theorem mul_transpose_symmetric (m : Block ℝ) (hn : n.b = n.c) :
    (m * n * m.transpose).b = (m * n * m.transpose).c := by
  simp only [mul_def, transpose, hn]
  ring

/-- A map multiplies the determinant of the moments by the square of its own. -/
theorem det_mul_transpose (m n : Block ℝ) : (m * n * m.transpose).det = m.det ^ 2 * n.det := by
  have htranspose : m.transpose.det = m.det := by
    simp only [det, transpose]
    ring
  rw [det_mul, det_mul, htranspose]
  ring

/-- A regular block takes no direction to the origin, so nothing positive is lost between it and its
transpose. -/
theorem PositiveDefinite.mul_transpose (hn : n.PositiveDefinite) (hm : m.det ≠ 0) :
    (m * n * m.transpose).PositiveDefinite := by
  intro u v huv
  rw [mul_transpose_form]
  apply hn
  by_contra! hzero
  obtain ⟨hfirst, hsecond⟩ := hzero
  have hu : m.det * u = 0 := by
    rw [det]
    linear_combination m.d * hfirst - m.c * hsecond
  have hv : m.det * v = 0 := by
    rw [det]
    linear_combination m.a * hsecond - m.b * hfirst
  rcases huv with hne | hne
  · exact mul_ne_zero hm hne hu
  · exact mul_ne_zero hm hne hv

theorem mix_form (m n : Block ℝ) (alpha u v : ℝ) :
    (m.scale (1 - alpha) + n.scale alpha).form u v =
      (1 - alpha) * m.form u v + alpha * n.form u v := by
  change ((m.scale (1 - alpha)).add (n.scale alpha)).form u v = _
  simp only [add, scale, form]
  ring

/-- Mixtures of positive definite blocks are positive definite. -/
theorem PositiveDefinite.mix (hm : m.PositiveDefinite) (hn : n.PositiveDefinite) {alpha : ℝ}
    (hnonneg : 0 ≤ alpha) (hle : alpha ≤ 1) :
    (m.scale (1 - alpha) + n.scale alpha).PositiveDefinite := by
  intro u v huv
  have hfirst := hm u v huv
  have hsecond := hn u v huv
  rw [mix_form]
  rcases hnonneg.eq_or_lt with rfl | hpos
  · linarith
  · have hbehind := mul_pos hpos hsecond
    have hfront := mul_nonneg (sub_nonneg.mpr hle) hfirst.le
    linarith

/-- What two blocks have in common in the determinant of their sum is at least twice the product of
the roots of their determinants. -/
theorem sqrt_det_mul_le (hm : m.PositiveDefinite) (hn : n.PositiveDefinite) (hmb : m.b = m.c)
    (hnb : n.b = n.c) : 2 * (√m.det * √n.det) ≤ m.a * n.d + m.d * n.a - 2 * m.b * n.b := by
  obtain ⟨hma, hmdet⟩ := (positiveDefinite_iff hmb).mp hm
  obtain ⟨hna, hndet⟩ := (positiveDefinite_iff hnb).mp hn
  have hmroot : √m.det * √m.det = m.a * m.d - m.b * m.b := by
    rw [Real.mul_self_sqrt hmdet.le, det, ← hmb]
  have hnroot : √n.det * √n.det = n.a * n.d - n.b * n.b := by
    rw [Real.mul_self_sqrt hndet.le, det, ← hnb]
  -- Times the two corners the difference is a sum of squares.
  have hsquares : m.a * n.a * (m.a * n.d + m.d * n.a - 2 * m.b * n.b - 2 * (√m.det * √n.det)) =
      (m.a * √n.det - n.a * √m.det) ^ 2 + (m.a * n.b - n.a * m.b) ^ 2 := by
    linear_combination -(n.a ^ 2) * hmroot - m.a ^ 2 * hnroot
  have hnonneg : 0 ≤
      m.a * n.a * (m.a * n.d + m.d * n.a - 2 * m.b * n.b - 2 * (√m.det * √n.det)) := by
    rw [hsquares]
    exact add_nonneg (sq_nonneg _) (sq_nonneg _)
  exact sub_nonneg.mp (nonneg_of_mul_nonneg_right hnonneg (mul_pos hma hna))

/-- The root of the determinant is concave on positive definite blocks. -/
theorem sqrt_det_mix (hm : m.PositiveDefinite) (hn : n.PositiveDefinite) (hmb : m.b = m.c)
    (hnb : n.b = n.c) {alpha : ℝ} (hnonneg : 0 ≤ alpha) (hle : alpha ≤ 1) :
    (1 - alpha) * √m.det + alpha * √n.det ≤ √(m.scale (1 - alpha) + n.scale alpha).det := by
  obtain ⟨-, hmdet⟩ := (positiveDefinite_iff hmb).mp hm
  obtain ⟨-, hndet⟩ := (positiveDefinite_iff hnb).mp hn
  -- The determinant of a mixture has a common term beside those of its parts.
  have hdet : (m.scale (1 - alpha) + n.scale alpha).det =
      (1 - alpha) ^ 2 * m.det + alpha ^ 2 * n.det +
        (1 - alpha) * alpha * (m.a * n.d + m.d * n.a - 2 * m.b * n.b) := by
    change ((m.scale (1 - alpha)).add (n.scale alpha)).det = _
    simp only [add, scale, det, ← hmb, ← hnb]
    ring
  have hcommon := mul_le_mul_of_nonneg_left (sqrt_det_mul_le hm hn hmb hnb)
    (mul_nonneg (sub_nonneg.mpr hle) hnonneg)
  apply Real.le_sqrt_of_sq_le
  -- After squaring, only the common terms differ.
  calc
    ((1 - alpha) * √m.det + alpha * √n.det) ^ 2 =
        (1 - alpha) ^ 2 * √m.det ^ 2 + alpha ^ 2 * √n.det ^ 2 +
          (1 - alpha) * alpha * (2 * (√m.det * √n.det)) := by ring
    _ = (1 - alpha) ^ 2 * m.det + alpha ^ 2 * n.det +
          (1 - alpha) * alpha * (2 * (√m.det * √n.det)) := by
      rw [Real.sq_sqrt hmdet.le, Real.sq_sqrt hndet.le]
    _ ≤ _ := by
      rw [hdet]
      exact add_le_add_right hcommon _

end Block

/-! ### Beams -/

namespace Covariance

variable {s t : Covariance ℝ}

structure Sound (s : Covariance ℝ) : Prop where
  symmetric : ∀ p, (s.block p).b = (s.block p).c
  physical : s.Physical

theorem Sound.ofTwiss {ts : Triple (Twiss ℝ)} (h : ∀ p, (ts.get p).Accepted) :
    (ofTwiss ts).Sound where
  symmetric p := by
    rw [block_ofTwiss]
    rfl
  physical p := by
    rw [block_ofTwiss]
    exact (h p).positiveDefinite

/-- Maps that act plane by plane, regular in each, leave a sound beam sound. -/
theorem Sound.propagate (h : s.Sound) {M : PhaseMap ℝ} (hM : M.Planar)
    (hdet : ∀ p, (M.block p).det ≠ 0) : (s.propagate M).Sound := by
  obtain ⟨b, rfl⟩ := hM
  simp only [PhaseMap.block_ofBlocks] at hdet
  constructor
  · intro p
    rw [block_propagate]
    exact Block.mul_transpose_symmetric _ (h.symmetric p)
  · intro p
    rw [block_propagate]
    exact (h.physical p).mul_transpose (hdet p)

/-- A mixture of sound beams is sound. -/
theorem Sound.relax (hs : s.Sound) (ht : t.Sound) {alpha : ℝ} (hnonneg : 0 ≤ alpha)
    (hle : alpha ≤ 1) : (s.relax t alpha).Sound := by
  constructor
  · intro p
    rw [block_relax]
    exact congrArg₂ (fun x y => x * (1 - alpha) + y * alpha) (hs.symmetric p) (ht.symmetric p)
  · intro p
    rw [block_relax]
    exact (hs.physical p).mix (ht.physical p) hnonneg hle

/-- A sound beam has an ellipse in every plane. -/
theorem Sound.exists_twiss (h : s.Sound) (p : Plane) : ∃ e, s.twiss p = .ok e := by
  have hblock : (s.moments p).block = s.block p :=
    congrArg (Block.mk (s.block p).a (s.block p).b · (s.block p).d) (h.symmetric p)
  rw [twiss, Twiss.exists_ofMoments_iff, hblock]
  exact h.physical p

/-- The emittance follows the determinant of the map's block, whatever the beam. -/
theorem emittance_propagate (s : Covariance ℝ) {M : PhaseMap ℝ} (hM : M.Planar) (p : Plane) :
    (s.propagate M).emittance p = |(M.block p).det| * s.emittance p := by
  obtain ⟨b, rfl⟩ := hM
  have hsquare : 0 ≤ (b.get p).det ^ 2 := sq_nonneg _
  rw [emittance, emittance, block_propagate, Block.det_mul_transpose, PhaseMap.block_ofBlocks]
  simp only [Scalar.real_sqrt, Scalar.real_maxNum, Scalar.real_zero]
  calc
    √(max ((b.get p).det ^ 2 * (s.block p).det) 0) =
        √((b.get p).det ^ 2 * max (s.block p).det 0) := by
      rw [mul_max_of_nonneg _ _ hsquare, mul_zero]
    _ = |(b.get p).det| * √(max (s.block p).det 0) := by
      rw [Real.sqrt_mul hsquare, Real.sqrt_sq_eq_abs]

theorem Sound.emittance_eq (h : s.Sound) (p : Plane) : s.emittance p = √(s.block p).det := by
  obtain ⟨-, hdet⟩ := (Block.positiveDefinite_iff (h.symmetric p)).mp (h.physical p)
  rw [emittance, Scalar.real_sqrt, Scalar.real_maxNum, Scalar.real_zero, max_eq_left hdet.le]

/-- Mixing never lowers the emittance below the mixture of emittances. -/
theorem Sound.emittance_relax (hs : s.Sound) (ht : t.Sound) {alpha : ℝ} (hnonneg : 0 ≤ alpha)
    (hle : alpha ≤ 1) (p : Plane) :
    (1 - alpha) * s.emittance p + alpha * t.emittance p ≤ (s.relax t alpha).emittance p := by
  rw [hs.emittance_eq, ht.emittance_eq, (hs.relax ht hnonneg hle).emittance_eq, block_relax]
  exact Block.sqrt_det_mix (hs.physical p) (ht.physical p) (hs.symmetric p) (ht.symmetric p)
    hnonneg hle

/-- The beams that are made from beams of ellipses by maps that act plane by plane, regular in each,
and by mixing. -/
inductive Attainable : Covariance ℝ → Prop where
  | ofTwiss {ts : Triple (Twiss ℝ)} (accepted : ∀ p, (ts.get p).Accepted) : Attainable (.ofTwiss ts)
  | propagate {s : Covariance ℝ} {M : PhaseMap ℝ} (beam : Attainable s) (planar : M.Planar)
      (regular : ∀ p, (M.block p).det ≠ 0) : Attainable (s.propagate M)
  | relax {s t : Covariance ℝ} {alpha : ℝ} (first : Attainable s) (second : Attainable t)
      (nonneg : 0 ≤ alpha) (le_one : alpha ≤ 1) : Attainable (s.relax t alpha)

theorem Attainable.sound (h : s.Attainable) : s.Sound := by
  induction h with
  | ofTwiss accepted => exact .ofTwiss accepted
  | propagate _ planar regular ih => exact ih.propagate planar regular
  | relax _ _ nonneg le_one ihs iht => exact ihs.relax iht nonneg le_one

/-- Beams stay physical: whatever maps and mixtures they are made by, they have an ellipse in every
plane, maps multiply their emittances by the determinants of their blocks, and mixtures lose no
emittance. -/
theorem attainable_physical :
    (∀ s : Covariance ℝ, s.Attainable →
      (∀ p, (s.block p).b = (s.block p).c) ∧ s.Physical ∧ ∀ p, ∃ e, s.twiss p = .ok e) ∧
    (∀ (s : Covariance ℝ) (M : PhaseMap ℝ), M.Planar → ∀ p,
      (s.propagate M).emittance p = |(M.block p).det| * s.emittance p) ∧
    ∀ s t : Covariance ℝ, s.Attainable → t.Attainable → ∀ {alpha : ℝ}, 0 ≤ alpha → alpha ≤ 1 → ∀ p,
      (1 - alpha) * s.emittance p + alpha * t.emittance p ≤ (s.relax t alpha).emittance p := by
  refine ⟨fun s hs => ?_, fun s M hM => s.emittance_propagate hM, fun s t hs ht => ?_⟩
  · exact ⟨hs.sound.symmetric, hs.sound.physical, hs.sound.exists_twiss⟩
  · intro alpha hnonneg hle
    exact hs.sound.emittance_relax ht.sound hnonneg hle

noncomputable def threefoldBeam : Covariance ℝ := ofTwiss ⟨⟨0, 1, 1⟩, ⟨1, 2, 3⟩, ⟨-1, 4, 2⟩⟩

noncomputable def threefoldMap : PhaseMap ℝ :=
  PhaseMap.ofBlocks ⟨⟨2, 0, 0, 1⟩, ⟨0, 1, 1, 0⟩, ⟨1, 1, 0, 1⟩⟩

/-- The beam, the beam behind the map and a mixture of the two. -/
theorem attainable_physical_threefold :
    threefoldBeam.Attainable ∧ (threefoldBeam.propagate threefoldMap).Attainable ∧
      (∀ p, ∃ e,
        (threefoldBeam.relax (threefoldBeam.propagate threefoldMap) (1 / 3)).twiss p = .ok e) ∧
      (threefoldBeam.propagate threefoldMap).emittance .vertical =
        |(-1 : ℝ)| * threefoldBeam.emittance .vertical ∧
      (1 - 1 / 3) * threefoldBeam.emittance .horizontal +
          1 / 3 * (threefoldBeam.propagate threefoldMap).emittance .horizontal ≤
        (threefoldBeam.relax (threefoldBeam.propagate threefoldMap) (1 / 3)).emittance
          .horizontal := by
  have hbeam : threefoldBeam.Attainable := by
    refine .ofTwiss fun p => (Twiss.accepted_iff _).mpr ?_
    cases p <;> norm_num [Triple.get]
  have hplanar : threefoldMap.Planar := ⟨_, rfl⟩
  -- The map turns the vertical plane over, and none of the planes is lost.
  have hdet (p : Plane) : (threefoldMap.block p).det ≠ 0 := by
    rw [threefoldMap, PhaseMap.block_ofBlocks]
    cases p <;> norm_num [Triple.get, Block.det]
  have hvertical : (threefoldMap.block .vertical).det = -1 := by
    rw [threefoldMap, PhaseMap.block_ofBlocks]
    norm_num [Triple.get, Block.det]
  have hbehind := hbeam.propagate hplanar hdet
  obtain ⟨hphysical, hmap, hmixture⟩ := attainable_physical
  refine ⟨hbeam, hbehind, ?_, ?_, ?_⟩
  · exact (hphysical _ (hbeam.relax hbehind (by norm_num) (by norm_num))).2.2
  · rw [hmap _ _ hplanar, hvertical]
  · exact hmixture _ _ hbeam hbehind (by norm_num) (by norm_num) _

end Covariance

end BeamOptics
