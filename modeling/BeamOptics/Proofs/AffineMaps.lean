import BeamOptics.Proofs.Centroids
import BeamOptics.Proofs.Solvers

/-! Maps of points as a group. A map whose last row is `0, …, 0, 1` keeps the last coordinate of
every point, and so do products and inverses of such maps. They act on points one after the other,
and displacements move past them by their linear part. Sums and multiples lose the last row and get
it back when it is reset. -/

namespace BeamOptics

/-! ### Images of points -/

namespace Point

theorem get_phaseCoordinates (p : Point ℝ) (i : Fin 6) :
    p.phaseCoordinates.get i = p.coordinates.get i.castSucc := by
  rw [phaseCoordinates, Vector.get_ofFn]
  rfl

/-- Points with the same phase coordinates and the same last coordinate are equal. -/
theorem ext_phase {p q : Point ℝ} (h : ∀ i, p.phaseCoordinates.get i = q.phaseCoordinates.get i)
    (hlast : p.coordinates[homogeneous] = q.coordinates[homogeneous]) : p = q := by
  apply ext_coordinate
  intro i
  induction i using Fin.lastCases with
  | last => exact hlast
  | cast i =>
    have hi := h i
    rw [get_phaseCoordinates, get_phaseCoordinates] at hi
    exact hi

theorem ofCoordinates_homogeneous (c : Vector ℝ 6) :
    (ofCoordinates c).coordinates[homogeneous] = 1 := by
  simp [ofCoordinates, homogeneous]

theorem ofVec_homogeneous {v : Vec ℝ} {p : Point ℝ} (h : ofVec v = .ok p) :
    p.coordinates[homogeneous] = 1 := by
  obtain ⟨c, -, rfl⟩ := map_eq_ok.mp h
  simp [homogeneous]

end Point

namespace PhaseMap

/-- Maps that take every point alike are the same. -/
theorem ext_apply {M N : PhaseMap ℝ} (h : ∀ p, M.apply p = N.apply p) : M = N := by
  apply Mat.ext_entry
  intro i j
  -- The image of the point with one coordinate is the column of that coordinate.
  have hcolumn (M : PhaseMap ℝ) :
      (M.apply ⟨Vector.ofFn fun k => if k = j then 1 else 0⟩).coordinates[i] = M.entry i j := by
    rw [apply_coordinate, Mat.total_eq_sum]
    simp
  rw [← hcolumn M, h, hcolumn]

theorem mul_apply (M N : PhaseMap ℝ) (p : Point ℝ) : (M * N).apply p = M.apply (N.apply p) :=
  congrArg Point.mk (Mat.mulVec_mul M N p.coordinates)

theorem identity_apply (p : Point ℝ) : (identity : PhaseMap ℝ).apply p = p :=
  congrArg Point.mk (Mat.identity_mulVec p.coordinates)

theorem Affine.apply_homogeneous {M : PhaseMap ℝ} (hM : M.Affine) (p : Point ℝ) :
    (M.apply p).coordinates[homogeneous] = p.coordinates[homogeneous] := by
  rw [apply_coordinate, hM.total_row]

theorem displacement_apply (shift : Vector ℝ 6) (p : Point ℝ) (i : Fin 6) :
    ((displacement shift).apply p).phaseCoordinates.get i =
      p.phaseCoordinates.get i + shift.get i * p.coordinates[homogeneous] := by
  rw [Point.get_phaseCoordinates, Point.get_phaseCoordinates]
  exact (apply_coordinate _ p i.castSucc).trans (displacement_row shift i _)

def linear (M : PhaseMap ℝ) : Mat ℝ 6 := Mat.ofFn fun i j => M.entry i.castSucc j.castSucc

/-- The linear part acts on the phase coordinates, and the last column is added as often as the last
coordinate says. -/
theorem apply_phaseCoordinates (M : PhaseMap ℝ) (p : Point ℝ) (i : Fin 6) :
    (M.apply p).phaseCoordinates.get i = ∑ k, M.linear.entry i k * p.phaseCoordinates.get k +
      M.entry i.castSucc homogeneous * p.coordinates[homogeneous] := by
  simp only [Point.get_phaseCoordinates, linear, Mat.entry_ofFn]
  refine (apply_coordinate M p i.castSucc).trans ?_
  rw [Mat.total_eq_sum, Fin.sum_univ_castSucc]
  rfl

/-- A map takes a displacement by its linear part. -/
theorem apply_displacement (M : PhaseMap ℝ) (shift : Vector ℝ 6) (p : Point ℝ) (i : Fin 6) :
    (M.apply ((displacement shift).apply p)).phaseCoordinates.get i =
      (M.apply p).phaseCoordinates.get i +
        (M.linear.mulVec shift).get i * p.coordinates[homogeneous] := by
  rw [apply_phaseCoordinates, apply_phaseCoordinates, Mat.get_mulVec, Finset.sum_mul,
    (affine_displacement shift).apply_homogeneous]
  simp only [displacement_apply, mul_add, Finset.sum_add_distrib, mul_assoc]
  exact add_right_comm _ _ _

namespace Affine

variable {M N : PhaseMap ℝ}

theorem mul (hM : M.Affine) (hN : N.Affine) : (M * N).Affine := by
  intro j
  rw [Mat.entry_mul, hM.total_row, hN]

/-- The last row of a product with a map of points is that of the other factor. -/
theorem of_mul_eq_identity (hM : M.Affine) (h : M * N = Mat.identity 7) : N.Affine := by
  intro j
  rw [← hM.total_row fun k => N.entry k j, ← Mat.entry_mul, h]
  simp [eq_comm]

/-- A displacement in front of an affine map is its linear image behind the map. -/
theorem mul_displacement (hM : M.Affine) (shift : Vector ℝ 6) :
    M * displacement shift = displacement (M.linear.mulVec shift) * M := by
  apply ext_apply
  intro p
  rw [mul_apply, mul_apply]
  refine Point.ext_phase (fun i => ?_) ?_
  · rw [apply_displacement, displacement_apply, hM.apply_homogeneous]
  · rw [hM.apply_homogeneous, (affine_displacement _).apply_homogeneous,
      (affine_displacement _).apply_homogeneous, hM.apply_homogeneous]

end Affine

theorem displacement_mul (d e : Vector ℝ 6) :
    displacement d * displacement e = displacement (d + e) := by
  have hlast (shift : Vector ℝ 6) := (affine_displacement shift).apply_homogeneous
  have hadd (i : Fin 6) : (d + e).get i = d.get i + e.get i := Vector.getElem_add d e i i.isLt
  apply ext_apply
  intro p
  rw [mul_apply]
  refine Point.ext_phase (fun i => ?_) ?_
  · rw [displacement_apply, displacement_apply, displacement_apply, hlast, hadd]
    ring
  · rw [hlast, hlast, hlast]

/-! ### Inverses -/

def Undo (M X : PhaseMap ℝ) : Prop := ∀ p, X.apply (M.apply p) = p ∧ M.apply (X.apply p) = p

theorem mul_of_inverse {M X : PhaseMap ℝ} (h : M.inverse = .ok X) : M * X = Mat.identity 7 := by
  obtain ⟨e, he, -⟩ := map_eq_ok.mp h
  obtain ⟨Y, hY, hproduct⟩ := (Mat.passes_of_factorize he).exists_solveMat (.identity 7)
  obtain rfl : X = Y := Except.ok.inj (h.symm.trans hY)
  exact hproduct

/-- What undoes a map from the right undoes it from both sides. -/
theorem undo_of_mul {M X : PhaseMap ℝ} (h : M * X = Mat.identity 7) : M.Undo X := by
  intro p
  rw [← mul_apply, ← mul_apply, h, Mat.PassesPivotTest.mul_eq_identity h]
  exact ⟨identity_apply p, identity_apply p⟩

/-! ### The last row -/

theorem affine_homogenize (M : PhaseMap ℝ) : M.homogenize.Affine := by
  intro j
  simp [homogenize]

theorem homogenize_eq_iff (M : PhaseMap ℝ) : M.homogenize = M ↔ M.Affine :=
  ⟨fun h => h ▸ M.affine_homogenize, Affine.homogenize_eq⟩

end PhaseMap

/-! ### Unit triangular matrices -/

namespace Mat

variable {n : ℕ}

def UnitUpper (A : Mat ℝ n) : Prop := ∀ i j, j ≤ i → A.entry i j = if i = j then 1 else 0

/-- The elimination of a unit upper triangular matrix exchanges no rows. -/
theorem UnitUpper.pivotRow_eq {A : Mat ℝ (n + 1)} (h : A.UnitUpper) : A.pivotRow = 0 := by
  by_contra hne
  have hle := A.abs_entry_le_pivot 0
  rw [h _ _ le_rfl, h _ _ (Fin.zero_le _), if_pos rfl, if_neg hne] at hle
  norm_num at hle

/-- The elimination has nothing to do: it leaves the rows as they are and finds the diagonal. -/
theorem UnitUpper.pivots_eq {A : Mat ℝ n} (h : A.UnitUpper) :
    A.eliminate.pivots = List.replicate n 1 := by
  induction n with
  | zero => rfl
  | succ n ih =>
    have hpivot : A.entry A.pivotRow 0 = 1 := by rw [h.pivotRow_eq, h _ _ le_rfl, if_pos rfl]
    obtain ⟨right, factors, B, heliminate, -, hfactors, hB⟩ :=
      eliminate_step (hpivot.trans_ne one_ne_zero)
    have hrow (i : Fin n) : exchange A.pivotRow i.succ = i.succ := by
      rw [h.pivotRow_eq, exchange, if_neg (Fin.succ_ne_zero i), if_neg (Fin.succ_ne_zero i)]
    have hfactor (i : Fin n) : factors.get i = 0 := by
      have hi := hfactors i
      rw [hrow, hpivot, mul_one, h _ _ (Fin.zero_le _), if_neg (Fin.succ_ne_zero i)] at hi
      exact hi.symm
    have hrest : B.UnitUpper := by
      intro i j hij
      rw [hB, hrow, hfactor, mul_zero, sub_zero, h _ _ (Fin.succ_le_succ_iff.mpr hij)]
      simp only [Fin.succ_inj]
    rw [heliminate, Elimination.pivots, ih hrest, hpivot, List.replicate_succ]

/-- The pivots are one, so the matrix is inverted unless its entries are enormous. -/
theorem UnitUpper.passes {A : Mat ℝ (n + 1)} (h : A.UnitUpper)
    (hbound : ∀ i j, |A.entry i j| ≤ 10 ^ 12) : A.PassesPivotTest := by
  have hfold (k : ℕ) : (List.replicate k (1 : ℝ)).foldl (fun acc q => min acc |q|) 1 = 1 := by
    induction k with
    | zero => rfl
    | succ k ih => rw [List.replicate_succ, List.foldl_cons, abs_one, min_self, ih]
  have hsmallest : A.eliminate.smallestPivot = 1 := by
    rw [Elimination.smallestPivot, h.pivots_eq, List.replicate_succ]
    exact (congrArg (List.foldl _ · _) abs_one).trans (hfold n)
  have hmax : A.maxAbs ≤ 10 ^ 12 := maxAbs_le (by norm_num) hbound
  rw [PassesPivotTest, hsmallest, negligiblePivot]
  norm_num at hmax ⊢
  linarith

end Mat

namespace PhaseMap

/-! ### Drifts -/

theorem affine_drift (length gamma : ℝ) : (drift length gamma).Affine := by
  intro j
  fin_cases j <;> simp [drift, ofBlocks, Mat.entry, homogeneous]

/-- Drifts are inverted unless they are enormous. -/
theorem drift_passes {length gamma : ℝ} (htransverse : |length| ≤ 10 ^ 12)
    (hlongitudinal : |length / (gamma * gamma)| ≤ 10 ^ 12) :
    (drift length gamma).PassesPivotTest := by
  have hupper : (drift length gamma).UnitUpper := by
    intro i j hij
    fin_cases i <;> fin_cases j <;> simp [drift, ofBlocks, Mat.entry] at hij ⊢
  have hone : (1 : ℝ) ≤ 10 ^ 12 := by norm_num
  refine hupper.passes fun i j => ?_
  fin_cases i <;> fin_cases j <;>
    simp [drift, ofBlocks, Mat.entry, hone, htransverse, hlongitudinal]

/-! ### The group -/

/-- Homogeneous maps form the affine group: they are closed under products, which act on points one
after the other and keep the one in the last coordinate, and under the inverses that are found,
which undo them. Displacements add up and move past a map by its linear part. Resetting the last row
leaves homogeneous maps alone and no others, and makes sums and multiples homogeneous. Beams are
transported by the product as by one map after the other. -/
theorem homogeneous_group {A B : PhaseMap ℝ} (hA : A.isHomogeneous 0 = true)
    (hB : B.isHomogeneous 0 = true) :
    ((A * B).isHomogeneous 0 = true ∧
      (∀ p, (A * B).apply p = A.apply (B.apply p) ∧
        ((A * B).apply p).coordinates[homogeneous] = p.coordinates[homogeneous]) ∧
      (∀ c, ((A * B).apply (.ofCoordinates c)).coordinates[homogeneous] = 1) ∧
      ∀ v p, Point.ofVec v = .ok p → ((A * B).apply p).coordinates[homogeneous] = 1) ∧
    (∀ X : PhaseMap ℝ, A.inverse = .ok X → X.isHomogeneous 0 = true ∧ A.Undo X) ∧
    (∀ d e, (displacement d * displacement e : PhaseMap ℝ) = displacement (d + e)) ∧
    (∀ d, A * displacement d = displacement (A.linear.mulVec d) * A) ∧
    (∀ M : PhaseMap ℝ, M.homogenize.homogenize = M.homogenize ∧
      (M.homogenize = M ↔ M.isHomogeneous 0 = true)) ∧
    (∀ (M N : PhaseMap ℝ) (k : ℝ), (homogenize (M + N)).isHomogeneous 0 = true ∧
      (homogenize (M.scale k)).isHomogeneous 0 = true) ∧
    ∀ s : Covariance ℝ, (s.propagate A).propagate B = s.propagate (B * A) := by
  -- Everything is said of affine maps, whose last row the composition keeps.
  simp only [← affine_iff_isHomogeneous] at hA hB ⊢
  have hkeep := (hA.mul hB).apply_homogeneous
  refine ⟨⟨hA.mul hB, fun p => ⟨mul_apply A B p, hkeep p⟩, fun c => ?_, fun v p hp => ?_⟩,
    fun X hX => ?_, displacement_mul, hA.mul_displacement, fun M => ?_, fun M N k => ?_,
    fun s => s.propagate_propagate A B⟩
  · rw [hkeep, Point.ofCoordinates_homogeneous]
  · rw [hkeep, Point.ofVec_homogeneous hp]
  · have hproduct := mul_of_inverse hX
    exact ⟨hA.of_mul_eq_identity hproduct, undo_of_mul hproduct⟩
  · exact ⟨M.affine_homogenize.homogenize_eq, M.homogenize_eq_iff⟩
  · exact ⟨affine_homogenize _, affine_homogenize _⟩

noncomputable def twoMetres : PhaseMap ℝ := drift 2 1

noncomputable def kick : PhaseMap ℝ := displacement #v[0, 1, 0, 0, 0, 0]

/-- Free motion is undone. A kick before two metres of it is the kick and a displacement by two
metres after. -/
theorem homogeneous_group_drift : (twoMetres * kick : PhaseMap ℝ).isHomogeneous 0 = true ∧
    (∃ X : PhaseMap ℝ, twoMetres.inverse = .ok X ∧ X.isHomogeneous 0 = true ∧ twoMetres.Undo X) ∧
    twoMetres * kick = displacement #v[2, 1, 0, 0, 0, 0] * twoMetres := by
  have htwo := affine_iff_isHomogeneous.mp (affine_drift 2 1)
  have hkick := affine_iff_isHomogeneous.mp (affine_displacement #v[0, 1, 0, 0, 0, 0])
  obtain ⟨⟨hproduct, -⟩, hinverse, -, hpast, -⟩ := homogeneous_group htwo hkick
  have hpasses : (drift 2 1).PassesPivotTest := drift_passes (by norm_num) (by norm_num)
  obtain ⟨X, hX, -⟩ := hpasses.exists_solveMat (.identity 7)
  have hmoved : (linear (drift 2 1)).mulVec #v[0, 1, 0, 0, 0, 0] = #v[2, 1, 0, 0, 0, 0] := by
    apply Mat.mulVec_eq_iff.mpr
    intro i
    simp only [linear, Mat.entry_ofFn]
    rw [Fin.sum_univ_six]
    fin_cases i <;> simp [drift, ofBlocks, Mat.entry, Vector.get]
  refine ⟨hproduct, ⟨X, hX, hinverse X hX⟩, ?_⟩
  rw [twoMetres, kick, hpast, hmoved]

end PhaseMap

end BeamOptics
