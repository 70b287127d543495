import BeamOptics.Proofs.UncoupledBeams

/-! Off-centre beams. The last column of a beam's matrix holds the beam's centroid, whatever is done
to the beam. The last row holds it too until two beams are mixed: a mixture keeps its column and
resets its row. Beams made without mixing are symmetric, and a mixture of symmetric beams is
symmetric only if its centroid is at the origin. -/

namespace BeamOptics

/-! ### Maps of points -/

namespace PhaseMap

/-- A map is homogeneous without tolerance exactly if its last row is that of an affine map. -/
theorem affine_iff_isHomogeneous {M : PhaseMap ℝ} : M.Affine ↔ M.isHomogeneous 0 = true := by
  have hexact : M.isHomogeneous 0 = true ↔
      (∀ j : Fin 6, M.entry homogeneous j.castSucc = 0) ∧ M.entry homogeneous homogeneous = 1 := by
    simp only [isHomogeneous, Scalar.real_abs, Scalar.real_one, Bool.and_eq_true, List.all_eq_true,
      List.mem_finRange, forall_const, decide_eq_true_eq, abs_nonpos_iff, sub_eq_zero]
  rw [hexact]
  constructor
  · intro h
    exact ⟨fun j => (h j.castSucc).trans (if_neg (Covariance.castSucc_ne_homogeneous j)),
      (h homogeneous).trans (if_pos rfl)⟩
  · rintro ⟨hrow, hlast⟩ j
    induction j using Fin.lastCases with
    | last => exact hlast.trans (if_pos rfl).symm
    | cast j => exact (hrow j).trans (if_neg (Covariance.castSucc_ne_homogeneous j)).symm

theorem affine_displacement (shift : Vector ℝ 6) : (displacement shift).Affine := by
  intro j
  have hlast : ¬homogeneous.val < 6 := lt_irrefl 6
  rw [displacement, Mat.entry_ofFn, dif_neg fun h => hlast h.1]
  simp only [Scalar.real_zero, Scalar.real_one, eq_comm]

namespace Affine

variable {M : PhaseMap ℝ}

theorem total_row (hM : M.Affine) (f : Fin 7 → ℝ) :
    (Mat.total fun k => M.entry homogeneous k * f k) = f homogeneous := by
  rw [Mat.total_eq_sum]
  simp only [hM _, ite_mul, one_mul, zero_mul, Finset.sum_ite_eq', Finset.mem_univ, if_true]

/-- The column of the transported moments is the image of their column. -/
theorem conjugate_column (hM : M.Affine) (S : PhaseMap ℝ) (i : Fin 7) :
    (M.conjugate S).entry i homogeneous =
      Mat.total fun k => M.entry i k * S.entry k homogeneous := by
  rw [conjugate, Mat.entry_mul]
  simp only [Mat.entry_transpose, mul_comm _ (M.entry homogeneous _)]
  rw [hM.total_row, Mat.entry_mul]

/-- The row of the transported moments is the image of their row. -/
theorem conjugate_row (hM : M.Affine) (S : PhaseMap ℝ) (j : Fin 7) :
    (M.conjugate S).entry homogeneous j =
      Mat.total fun k => M.entry j k * S.entry homogeneous k := by
  have hrow (k : Fin 7) : (M * S).entry homogeneous k = S.entry homogeneous k := by
    rw [Mat.entry_mul, hM.total_row]
  rw [conjugate, Mat.entry_mul]
  simp only [hrow, Mat.entry_transpose, mul_comm]

end Affine

theorem apply_coordinate (M : PhaseMap ℝ) (p : Point ℝ) (i : Fin 7) :
    (M.apply p).coordinates[i] = Mat.total fun k => M.entry i k * p.coordinates[k] := by
  simp [apply, Mat.mulVec, Mat.laneTotal]

/-- A displaced coordinate takes its shift times the constant coordinate. -/
theorem displacement_row (shift : Vector ℝ 6) (i : Fin 6) (f : Fin 7 → ℝ) :
    (Mat.total fun k => (displacement shift).entry i.castSucc k * f k) =
      f i.castSucc + shift[i] * f homogeneous := by
  have hphase (k : Fin 6) : (displacement shift).entry i.castSucc k.castSucc =
      if i = k then 1 else 0 := by
    simp [displacement, Covariance.castSucc_ne_homogeneous]
  have hlast : (displacement shift).entry i.castSucc (Fin.last 6) = shift[i] := by
    have hi : i.castSucc.val < 6 ∧ Fin.last 6 = homogeneous := ⟨i.isLt, rfl⟩
    rw [displacement, Mat.entry_ofFn, dif_pos hi]
    rfl
  rw [Mat.total_eq_sum, Fin.sum_univ_castSucc, hlast]
  simp only [hphase, ite_mul, one_mul, zero_mul, Finset.sum_ite_eq, Finset.mem_univ, if_true]
  rfl

theorem entry_setBlock_homogeneous (M : PhaseMap ℝ) (p : Plane) (b : Block ℝ) (i : Fin 7) :
    (M.setBlock p b).entry i homogeneous = M.entry i homogeneous ∧
      (M.setBlock p b).entry homogeneous i = M.entry homogeneous i := by
  have hp : homogeneous ≠ p.position := by cases p <;> decide
  have hs : homogeneous ≠ p.slope := by cases p <;> decide
  simp [setBlock, hp, hs]

end PhaseMap

namespace Point

theorem origin_coordinate (i : Fin 7) :
    (origin : Point ℝ).coordinates[i] = if i = homogeneous then 1 else 0 := by
  induction i using Fin.lastCases with
  | last => exact Scalar.real_one.trans (if_pos rfl).symm
  | cast i =>
    rw [if_neg (Covariance.castSucc_ne_homogeneous i), ← Scalar.real_zero]
    simp [origin, ofCoordinates]

theorem ext_coordinate {p q : Point ℝ} (h : ∀ i : Fin 7, p.coordinates[i] = q.coordinates[i]) :
    p = q := by
  cases p with | mk x =>
  cases q with | mk y =>
  congr 1
  apply Vector.ext
  intro i hi
  exact h ⟨i, hi⟩

noncomputable def between (p q : Point ℝ) (alpha : ℝ) : Point ℝ :=
  ⟨Vector.ofFn fun i => (1 - alpha) * p.coordinates[i] + alpha * q.coordinates[i]⟩

@[simp] theorem between_coordinate (p q : Point ℝ) (alpha : ℝ) (i : Fin 7) :
    (between p q alpha).coordinates[i] =
      (1 - alpha) * p.coordinates[i] + alpha * q.coordinates[i] := by
  simp [between]

end Point

/-! ### Symmetric beams -/

namespace Covariance

variable {s t : Covariance ℝ}

theorem uncoupled_zero : (zero : Covariance ℝ).Uncoupled where
  symmetric i j := by simp only [zero, PhaseMap.toOrigin, Mat.entry_ofFn, and_comm]
  centred i hi := by simp [zero, PhaseMap.toOrigin, hi]
  scale := by simp [zero, PhaseMap.toOrigin]
  uncoupled i j hi _ _ := by simp [zero, PhaseMap.toOrigin, hi]

/-- The last column of an uncoupled beam holds the origin. -/
theorem Uncoupled.column (h : s.Uncoupled) (i : Fin 7) :
    s.matrix.entry i homogeneous = (Point.origin : Point ℝ).coordinates[i] := by
  rw [Point.origin_coordinate]
  split_ifs with hi
  · rw [hi, h.scale]
  · exact h.centred i hi

theorem Uncoupled.row (h : s.Uncoupled) (j : Fin 7) :
    s.matrix.entry homogeneous j = (Point.origin : Point ℝ).coordinates[j] :=
  (h.symmetric homogeneous j).trans (h.column j)

namespace Proper

theorem transpose_eq (h : s.Proper) : s.matrix.transpose = s.matrix := by
  apply Mat.ext_entry
  intro i j
  rw [Mat.entry_transpose, h.symmetric]

/-- Affine maps carry proper matrices to proper ones. -/
theorem propagate {M : PhaseMap ℝ} (h : s.Proper) (hM : M.Affine) : (s.propagate M).Proper where
  symmetric i j := by
    have hconj : (M.conjugate s.matrix).transpose = M.conjugate s.matrix := by
      rw [PhaseMap.conjugate, Mat.transpose_mul, Mat.transpose_mul, Mat.transpose_transpose,
        h.transpose_eq, Mat.mul_assoc]
    calc (M.conjugate s.matrix).entry i j
        = (M.conjugate s.matrix).transpose.entry j i := (Mat.entry_transpose _ _ _).symm
      _ = (M.conjugate s.matrix).entry j i := by rw [hconj]
  scale := by
    rw [Covariance.propagate, hM.conjugate_column, hM.total_row, h.scale]

/-- Replacing moments of one plane leaves the centroid where it is. -/
theorem setMoments (h : s.Proper) (p : Plane) (m : Moments ℝ) : (s.setMoments p m).Proper where
  symmetric i j := by
    have hmirror := h.symmetric i j
    have hplane : p.position ≠ p.slope := by cases p <;> decide
    simp only [Covariance.setMoments, PhaseMap.setBlock, Mat.entry_update, Moments.block]
    -- Either both places are in the block or neither is, and the block is its own mirror image.
    grind
  scale := by
    rw [Covariance.setMoments, (PhaseMap.entry_setBlock_homogeneous ..).1, h.scale]

/-- A mixture is symmetric as it is, before its row is reset. -/
theorem mixture (hs : s.Proper) (ht : t.Proper) (alpha : ℝ) :
    Proper ⟨s.matrix.scale (1 - alpha) + t.matrix.scale alpha⟩ where
  symmetric i j := by
    simp only [Mat.entry_add, Mat.entry_scale, hs.symmetric i j, ht.symmetric i j]
  scale := by
    simp only [Mat.entry_add, Mat.entry_scale, hs.scale, ht.scale]
    ring

/-- A matrix that is symmetric and ends in one stays so without its row only if there is nothing in
the row. -/
theorem homogenize_iff (h : s.Proper) :
    Proper ⟨s.matrix.homogenize⟩ ↔ ∀ i, i ≠ homogeneous → s.matrix.entry i homogeneous = 0 := by
  constructor
  · intro hreset i hi
    have hi' := hreset.symmetric i homogeneous
    simpa [PhaseMap.homogenize, hi] using hi'
  · intro hcentred
    rw [(h.affine hcentred).homogenize_eq]
    exact h

/-- A mixture loses its row, so it is symmetric only if it has nothing in its column. -/
theorem relax_iff (hs : s.Proper) (ht : t.Proper) (alpha : ℝ) : (s.relax t alpha).Proper ↔
    ∀ i, i ≠ homogeneous → (s.relax t alpha).matrix.entry i homogeneous = 0 := by
  have hrelax : s.relax t alpha =
      ⟨PhaseMap.homogenize (s.matrix.scale (1 - alpha) + t.matrix.scale alpha)⟩ := by
    rw [relax, Scalar.real_one]
  rw [hrelax, (hs.mixture ht alpha).homogenize_iff]
  refine forall₂_congr fun i hi => ?_
  rw [PhaseMap.homogenize, Mat.entry_ofFn, if_neg hi]

/-- The matrix of a proper beam is one that a beam can be made of. -/
theorem ofMatrix_eq (h : s.Proper) : ofMatrix s.matrix = .ok s := by
  have hliteral (m : ℕ) (e : ℕ) : (0 : ℝ) ≤ OfScientific.ofScientific m true e :=
    NNRat.cast_nonneg _
  have htol : (0 : ℝ) ≤ symmetryTolerance * max s.phaseMoments.maxAbs smallestNormal :=
    mul_nonneg (hliteral 1 12) ((hliteral _ _).trans (le_max_right _ _))
  have hnone : belowDiagonal.find? (fun ij : Fin 6 × Fin 6 =>
      symmetryTolerance * max s.phaseMoments.maxAbs smallestNormal <
        Scalar.abs (s.phaseMoments.entry ij.1 ij.2 - s.phaseMoments.entry ij.2 ij.1)) = none := by
    rw [List.find?_eq_none]
    intro ij _
    have hsame : s.phaseMoments.entry ij.1 ij.2 = s.phaseMoments.entry ij.2 ij.1 := by
      simp only [phaseMoments, Mat.entry_ofFn, h.symmetric ij.1.castSucc]
    rw [hsame, sub_self, Scalar.real_abs, abs_zero, decide_eq_true_eq, not_lt]
    exact htol
  unfold ofMatrix
  dsimp only [Scalar.real_maxNum]
  rw [hnone]
  simp [h.scale]

end Proper

theorem entry_relax (s t : Covariance ℝ) (alpha : ℝ) {i : Fin 7} (hi : i ≠ homogeneous)
    (j : Fin 7) : (s.relax t alpha).matrix.entry i j =
      (1 - alpha) * s.matrix.entry i j + alpha * t.matrix.entry i j := by
  rw [relax, PhaseMap.homogenize, Mat.entry_ofFn, if_neg hi, Mat.entry_add, Mat.entry_scale,
    Mat.entry_scale, Scalar.real_one, mul_comm, mul_comm alpha]

/-- A mixture has the last row of a centred beam, whatever it mixes. -/
theorem entry_relax_homogeneous (s t : Covariance ℝ) (alpha : ℝ) (j : Fin 7) :
    (s.relax t alpha).matrix.entry homogeneous j = if j = homogeneous then 1 else 0 := by
  simp [relax, PhaseMap.homogenize]

/-! ### Recipes -/

/-- A way to make a beam: a centred one to begin with, or an operation on beams made before. -/
inductive Recipe where
  | zero
  | ofTwiss (ellipses : Triple (Twiss ℝ))
  | ofMoments (moments : Triple (Moments ℝ))
  | propagate (r : Recipe) (M : PhaseMap ℝ) (affine : M.Affine)
  | setMoments (r : Recipe) (p : Plane) (m : Moments ℝ)
  | relax (r q : Recipe) (alpha : ℝ)

namespace Recipe

noncomputable def beam : Recipe → Covariance ℝ
  | zero => .zero
  | ofTwiss ellipses => .ofTwiss ellipses
  | ofMoments moments => .ofMoments moments
  | propagate r M _ => r.beam.propagate M
  | setMoments r p m => r.beam.setMoments p m
  | relax r q alpha => r.beam.relax q.beam alpha

def parts : Recipe → List Recipe
  | zero => [zero]
  | ofTwiss ellipses => [ofTwiss ellipses]
  | ofMoments moments => [ofMoments moments]
  | propagate r M affine => propagate r M affine :: r.parts
  | setMoments r p m => setMoments r p m :: r.parts
  | relax r q alpha => relax r q alpha :: (r.parts ++ q.parts)

/-- A point that starts at the origin, moves as the maps move points, and is replaced by `join`
where two beams are mixed. -/
noncomputable def carried (join : Point ℝ → Point ℝ → ℝ → Point ℝ) : Recipe → Point ℝ
  | zero | ofTwiss _ | ofMoments _ => .origin
  | propagate r M _ => M.apply (r.carried join)
  | setMoments r _ _ => r.carried join
  | relax r q alpha => join (r.carried join) (q.carried join) alpha

noncomputable def centroid : Recipe → Point ℝ := carried Point.between

noncomputable def restartedCentroid : Recipe → Point ℝ := carried fun _ _ _ => .origin

theorem centroid_relax (r q : Recipe) (alpha : ℝ) (i : Fin 7) :
    (relax r q alpha).centroid.coordinates[i] =
      (1 - alpha) * r.centroid.coordinates[i] + alpha * q.centroid.coordinates[i] :=
  Point.between_coordinate ..

theorem self_mem_parts (r : Recipe) : r ∈ r.parts := by
  cases r <;> exact List.mem_cons_self

/-- Whatever the recipe, the matrix ends in one. -/
theorem beam_scale (r : Recipe) : r.beam.matrix.entry homogeneous homogeneous = 1 := by
  induction r with
  | zero => exact uncoupled_zero.scale
  | ofTwiss ellipses => exact (uncoupled_ofMoments _).scale
  | ofMoments moments => exact (uncoupled_ofMoments _).scale
  | propagate r M hM ih => rw [beam, Covariance.propagate, hM.conjugate_column, hM.total_row, ih]
  | setMoments r p m ih =>
    rw [beam, Covariance.setMoments, (PhaseMap.entry_setBlock_homogeneous ..).1, ih]
  | relax r q alpha => rw [beam, entry_relax_homogeneous, if_pos rfl]

/-- The last column of the matrix is the centroid. -/
theorem beam_column (r : Recipe) (i : Fin 7) :
    r.beam.matrix.entry i homogeneous = r.centroid.coordinates[i] := by
  -- By induction over the recipe: every operation does to the column what it does to the centroid.
  induction r generalizing i with
  | zero => exact uncoupled_zero.column i
  | ofTwiss ellipses => exact (uncoupled_ofMoments _).column i
  | ofMoments moments => exact (uncoupled_ofMoments _).column i
  | propagate r M hM ih =>
    rw [beam, Covariance.propagate, hM.conjugate_column, centroid, carried,
      PhaseMap.apply_coordinate]
    simp only [ih]
    rfl
  | setMoments r p m ih =>
    rw [beam, Covariance.setMoments, (PhaseMap.entry_setBlock_homogeneous ..).1, ih]
    rfl
  | relax r q alpha ihr ihq =>
    rw [centroid_relax, ← ihr, ← ihq, beam]
    by_cases hi : i = homogeneous
    · -- The last coordinate of a mixture of points is one, as the reset entry is.
      rw [hi, entry_relax_homogeneous, if_pos rfl, beam_scale, beam_scale]
      ring
    · exact entry_relax _ _ _ hi _

/-- The last row of the matrix is what the centroid would be if every mixture put it back at the
origin. -/
theorem beam_row (r : Recipe) (j : Fin 7) :
    r.beam.matrix.entry homogeneous j = r.restartedCentroid.coordinates[j] := by
  induction r generalizing j with
  | zero => exact uncoupled_zero.row j
  | ofTwiss ellipses => exact (uncoupled_ofMoments _).row j
  | ofMoments moments => exact (uncoupled_ofMoments _).row j
  | propagate r M hM ih =>
    rw [beam, Covariance.propagate, hM.conjugate_row, restartedCentroid, carried,
      PhaseMap.apply_coordinate]
    simp only [ih]
    rfl
  | setMoments r p m ih =>
    rw [beam, Covariance.setMoments, (PhaseMap.entry_setBlock_homogeneous ..).2, ih]
    rfl
  | relax r q alpha =>
    rw [beam, entry_relax_homogeneous, restartedCentroid, carried, Point.origin_coordinate]

/-- Row and column agree exactly if the centroid is where it would be with every mixture put back at
the origin. -/
theorem row_eq_column_iff (r : Recipe) :
    (∀ i, r.beam.matrix.entry homogeneous i = r.beam.matrix.entry i homogeneous) ↔
      r.restartedCentroid = r.centroid := by
  simp only [beam_row, beam_column]
  constructor
  · exact Point.ext_coordinate
  · intro h i
    rw [h]

def CentredIfMixed : Recipe → Prop
  | relax r q alpha => (relax r q alpha).centroid = .origin
  | _ => True

/-- A mixture of proper matrices is proper exactly if its centroid is at the origin. -/
theorem relax_proper_iff {r q : Recipe} (hr : r.beam.Proper) (hq : q.beam.Proper) (alpha : ℝ) :
    (relax r q alpha).beam.Proper ↔ (relax r q alpha).CentredIfMixed := by
  have hscale := beam_scale (relax r q alpha)
  have hcolumn := beam_column (relax r q alpha)
  rw [beam] at hscale hcolumn
  rw [CentredIfMixed, beam, hr.relax_iff hq]
  constructor
  · intro hzero
    apply Point.ext_coordinate
    intro i
    rw [← hcolumn, Point.origin_coordinate]
    split_ifs with hi
    · rw [hi, hscale]
    · exact hzero i hi
  · intro horigin i hi
    rw [hcolumn, horigin, Point.origin_coordinate, if_neg hi]

/-- All beams made on the way are symmetric exactly if all mixtures made on the way are centred. -/
theorem proper_iff_centred (r : Recipe) :
    (∀ q ∈ r.parts, q.beam.Proper) ↔ ∀ q ∈ r.parts, q.CentredIfMixed := by
  induction r with
  | zero => simp [parts, beam, CentredIfMixed, uncoupled_zero.proper]
  | ofTwiss ellipses =>
    have hproper : (Covariance.ofTwiss ellipses).Proper := (uncoupled_ofMoments _).proper
    simp [parts, beam, CentredIfMixed, hproper]
  | ofMoments moments => simp [parts, beam, CentredIfMixed, (uncoupled_ofMoments moments).proper]
  | propagate r M hM ih =>
    -- What was made before is proper on both sides, so only the last operation is in question.
    rw [parts, List.forall_mem_cons, List.forall_mem_cons, ← ih]
    apply and_congr_left
    intro hparts
    exact iff_of_true ((hparts r r.self_mem_parts).propagate hM) trivial
  | setMoments r p m ih =>
    rw [parts, List.forall_mem_cons, List.forall_mem_cons, ← ih]
    apply and_congr_left
    intro hparts
    exact iff_of_true ((hparts r r.self_mem_parts).setMoments p m) trivial
  | relax r q alpha ihr ihq =>
    simp only [parts, List.forall_mem_cons, List.forall_mem_append]
    rw [← ihr, ← ihq]
    apply and_congr_left
    rintro ⟨hr, hq⟩
    exact relax_proper_iff (hr r r.self_mem_parts) (hq q q.self_mem_parts) alpha

/-- A displaced beam has its centroid where the origin went. -/
theorem column_displaced (moments : Triple (Moments ℝ)) (shift : Vector ℝ 6) (i : Fin 6) :
    (propagate (ofMoments moments) (PhaseMap.displacement shift)
      (PhaseMap.affine_displacement shift)).beam.matrix.entry i.castSucc homogeneous = shift[i] := by
  have hstart (k : Fin 7) : (ofMoments moments).beam.matrix.entry k homogeneous =
      if k = homogeneous then 1 else 0 :=
    ((uncoupled_ofMoments moments).column k).trans (Point.origin_coordinate k)
  rw [beam, Covariance.propagate, (PhaseMap.affine_displacement shift).conjugate_column,
    PhaseMap.displacement_row, hstart, hstart, if_neg (castSucc_ne_homogeneous i), if_pos rfl,
    zero_add, mul_one]

noncomputable def beside : Recipe :=
  propagate (ofMoments ⟨⟨1, 0, 1⟩, ⟨1, 0, 1⟩, ⟨1, 0, 1⟩⟩)
    (PhaseMap.displacement #v[1, 0, 0, 0, 0, 0]) (PhaseMap.affine_displacement _)

/-- Half and half with the beam without moments, it has half its centroid in the column and none of
it in the row. -/
theorem halfBeside_not_proper :
    (relax beside zero (1 / 2)).beam.matrix.entry homogeneous Plane.horizontal.position = 0 ∧
      (relax beside zero (1 / 2)).beam.matrix.entry Plane.horizontal.position homogeneous = 1 / 2 ∧
      ¬(relax beside zero (1 / 2)).beam.Proper := by
  have hrow : (relax beside zero (1 / 2)).beam.matrix.entry homogeneous
      Plane.horizontal.position = 0 := by
    rw [beam, entry_relax_homogeneous, if_neg (by decide)]
  have hcolumn : (relax beside zero (1 / 2)).beam.matrix.entry Plane.horizontal.position
      homogeneous = 1 / 2 := by
    have hposition : Plane.horizontal.position ≠ homogeneous := by decide
    have hbeside : beside.beam.matrix.entry Plane.horizontal.position homogeneous = 1 :=
      column_displaced _ _ 0
    have hzero : zero.beam.matrix.entry Plane.horizontal.position homogeneous = 0 :=
      uncoupled_zero.centred _ hposition
    rw [beam, entry_relax _ _ _ hposition, hbeside, hzero]
    norm_num
  refine ⟨hrow, hcolumn, fun hproper => ?_⟩
  have hmirror := hproper.symmetric homogeneous Plane.horizontal.position
  rw [hrow, hcolumn] at hmirror
  norm_num at hmirror

end Recipe

/-! ### Displaced mixtures -/

/-- The row and the column enter the moments of a displaced beam on different sides. -/
theorem phaseMoments_displacement (s : Covariance ℝ) (shift : Vector ℝ 6) (i j : Fin 6) :
    (s.propagate (PhaseMap.displacement shift)).phaseMoments.entry i j =
      s.phaseMoments.entry i j + shift[i] * s.matrix.entry homogeneous j.castSucc +
        s.matrix.entry i.castSucc homogeneous * shift[j] +
        shift[i] * shift[j] * s.matrix.entry homogeneous homogeneous := by
  rw [phaseMoments, Mat.entry_ofFn, propagate, PhaseMap.conjugate, Mat.entry_mul]
  simp only [Mat.entry_transpose, mul_comm _ ((PhaseMap.displacement shift).entry j.castSucc _)]
  rw [PhaseMap.displacement_row, Mat.entry_mul, Mat.entry_mul, PhaseMap.displacement_row,
    PhaseMap.displacement_row, phaseMoments, Mat.entry_ofFn]
  ring

/-- A displaced mixture has moments that differ from their mirror images, unless it was moved along
its centroid. -/
theorem phaseMoments_displaced_relax (hs : s.Proper) (ht : t.Proper) (alpha : ℝ)
    (shift : Vector ℝ 6) (i j : Fin 6) :
    ((s.relax t alpha).propagate (PhaseMap.displacement shift)).phaseMoments.entry i j -
        ((s.relax t alpha).propagate (PhaseMap.displacement shift)).phaseMoments.entry j i =
      (s.relax t alpha).matrix.entry i.castSucc homogeneous * shift[j] -
        shift[i] * (s.relax t alpha).matrix.entry j.castSucc homogeneous := by
  have hmoments : (s.relax t alpha).phaseMoments.entry i j =
      (s.relax t alpha).phaseMoments.entry j i := by
    simp only [phaseMoments, Mat.entry_ofFn]
    rw [entry_relax _ _ _ (castSucc_ne_homogeneous i),
      entry_relax _ _ _ (castSucc_ne_homogeneous j), hs.symmetric, ht.symmetric]
  have hrow (k : Fin 6) : (s.relax t alpha).matrix.entry homogeneous k.castSucc = 0 :=
    (entry_relax_homogeneous s t alpha _).trans (if_neg (castSucc_ne_homogeneous k))
  rw [phaseMoments_displacement, phaseMoments_displacement, hmoments, hrow, hrow]
  ring

end Covariance

end BeamOptics
