import BeamOptics.Proofs.Determinants
import BeamOptics.Proofs.LeastSquares

/-! Observability. The mean square position behind a map is a quadratic form of the first row of the
plane's block, so the normal matrix of a plane is regular unless a form that is not zero vanishes on all
these rows. The zeros of a form lie on two lines through the origin at most, and any two lines are the
zeros of a form; so it takes three rows in three directions to observe the moments. -/

namespace BeamOptics.Observation

open Matrix

/-! ### Singular normal matrices -/

/-- A vector is sent to zero exactly if it satisfies all equations without their right-hand sides.
-/
theorem normalMatrix_mulVec_eq_zero {eqs : List (Vector ℝ 3 × ℝ)} {x : Fin 3 → ℝ} :
    (normalMatrix eqs).toMatrix *ᵥ x = 0 ↔ ∀ e ∈ eqs, ∑ j, e.1.get j * x j = 0 := by
  have hrow (i : Fin 3) : ((normalMatrix eqs).toMatrix *ᵥ x) i =
      (eqs.map fun e => (∑ j, e.1.get j * x j) * e.1.get i).sum := normalMatrix_combination x i
  constructor
  · intro h
    -- The left sides are weighted with themselves, so that their squares add up to zero.
    have hsquares : (eqs.map fun e => (∑ j, e.1.get j * x j) * ∑ j, e.1.get j * x j).sum = 0 := by
      rw [sum_combination x]
      apply Finset.sum_eq_zero
      intro i _
      have hi := congrFun h i
      rw [hrow] at hi
      simp only [mul_comm (Vector.get _ i)]
      rw [hi, Pi.zero_apply, mul_zero]
    have hnonneg : ∀ t ∈ eqs.map fun e => (∑ j, e.1.get j * x j) * ∑ j, e.1.get j * x j, 0 ≤ t := by
      intro t ht
      obtain ⟨e, -, rfl⟩ := List.mem_map.mp ht
      exact mul_self_nonneg _
    intro e he
    have hzero := List.all_zero_of_le_zero_le_of_sum_eq_zero hnonneg hsquares
      (List.mem_map_of_mem he)
    exact mul_self_eq_zero.mp hzero
  · intro h
    ext i
    rw [hrow]
    apply List.sum_eq_zero
    intro t ht
    obtain ⟨e, he, rfl⟩ := List.mem_map.mp ht
    rw [h e he, zero_mul]

/-! ### Quadratic forms of the rows -/

noncomputable def firstRow (p : Plane) (M : PhaseMap ℝ) : Fin 2 → ℝ := ![(M.block p).a, (M.block p).b]

noncomputable def form (x : Fin 3 → ℝ) (u : Fin 2 → ℝ) : ℝ :=
  x 0 * u 0 ^ 2 + 2 * x 1 * u 0 * u 1 + x 2 * u 1 ^ 2

/-- The mean square position behind a map is the form of the moments at the map's first row. -/
theorem sum_row (p : Plane) (M : PhaseMap ℝ) (x : Fin 3 → ℝ) :
    ∑ j, (row M p).get j * x j = form x (firstRow p M) := by
  have hrow : ∑ j, (row M p).get j * x j = (M.block p).a * (M.block p).a * x 0 +
      2 * (M.block p).a * (M.block p).b * x 1 + (M.block p).b * (M.block p).b * x 2 := by
    rw [Fin.sum_univ_three]
    rfl
  rw [hrow]
  simp only [form, firstRow, cons_val_zero, cons_val_one]
  ring

variable {maps : List (PhaseMap ℝ)} {readings : List (Reading ℝ)} {p : Plane}

/-- The normal matrix is singular exactly if some form vanishes on all first rows. -/
theorem det_normalMatrix_eq_zero (hlength : maps.length = readings.length) :
    (normalMatrix (equations maps readings p)).toMatrix.det = 0 ↔
      ∃ x ≠ 0, ∀ u ∈ maps.map (firstRow p), form x u = 0 := by
  have hform (x : Fin 3 → ℝ) : (normalMatrix (equations maps readings p)).toMatrix *ᵥ x = 0 ↔
      ∀ u ∈ maps.map (firstRow p), form x u = 0 :=
    calc (normalMatrix (equations maps readings p)).toMatrix *ᵥ x = 0
        ↔ ∀ r ∈ (equations maps readings p).map Prod.fst, ∑ j, r.get j * x j = 0 := by
          rw [normalMatrix_mulVec_eq_zero, List.forall_mem_map]
      _ ↔ ∀ u ∈ maps.map (firstRow p), form x u = 0 := by
          rw [map_fst_equations hlength, List.forall_mem_map, List.forall_mem_map]
          simp only [sum_row]
  simp only [← exists_mulVec_eq_zero_iff, hform]

/-! ### Directions -/

section Directions

variable {us : List (Fin 2 → ℝ)} {u v w d e : Fin 2 → ℝ} {x : Fin 3 → ℝ}

def ThreeDirections (us : List (Fin 2 → ℝ)) : Prop :=
  ∃ u ∈ us, ∃ v ∈ us, ∃ w ∈ us,
    LinearIndependent ℝ ![u, v] ∧ LinearIndependent ℝ ![u, w] ∧ LinearIndependent ℝ ![v, w]

/-- The vectors lie on two lines through the origin. -/
def OnTwoLines (us : List (Fin 2 → ℝ)) : Prop :=
  ∃ d e : Fin 2 → ℝ, d ≠ 0 ∧ e ≠ 0 ∧ ∀ u ∈ us, u ∈ Submodule.span ℝ {d} ∨ u ∈ Submodule.span ℝ {e}

theorem independent_iff : LinearIndependent ℝ ![u, v] ↔ u 0 * v 1 - u 1 * v 0 ≠ 0 :=
  calc LinearIndependent ℝ ![u, v]
      ↔ IsUnit (of ![u, v]) := linearIndependent_rows_iff_isUnit
    _ ↔ u 0 * v 1 - u 1 * v 0 ≠ 0 := by
        rw [isUnit_iff_isUnit_det, isUnit_iff_ne_zero, det_fin_two]
        rfl

theorem not_independent_iff (hd : d ≠ 0) :
    ¬ LinearIndependent ℝ ![d, u] ↔ u ∈ Submodule.span ℝ {d} := by
  rw [LinearIndependent.pair_iff' hd, Submodule.mem_span_singleton]
  push Not
  rfl

/-- The coefficients with which moments enter the values of their form at three points. -/
noncomputable def valueMatrix (u v w : Fin 2 → ℝ) : Matrix (Fin 3) (Fin 3) ℝ :=
  !![u 0 ^ 2, 2 * u 0 * u 1, u 1 ^ 2; v 0 ^ 2, 2 * v 0 * v 1, v 1 ^ 2;
    w 0 ^ 2, 2 * w 0 * w 1, w 1 ^ 2]

theorem valueMatrix_mulVec (u v w : Fin 2 → ℝ) (x : Fin 3 → ℝ) :
    valueMatrix u v w *ᵥ x = ![form x u, form x v, form x w] := by
  ext i
  fin_cases i <;> simp [valueMatrix, mulVec, dotProduct, Fin.sum_univ_succ, form] <;> ring

/-- The determinant of the values is twice the product of the areas that the points span by twos. -/
theorem det_valueMatrix (u v w : Fin 2 → ℝ) : (valueMatrix u v w).det =
    2 * (u 0 * v 1 - u 1 * v 0) * (u 0 * w 1 - u 1 * w 0) * (v 0 * w 1 - v 1 * w 0) := by
  simp only [valueMatrix, det_fin_three, of_apply, cons_val_zero, cons_val_one, cons_val]
  ring

/-- A form that vanishes in three directions is zero. -/
theorem form_eq_zero_of_directions (huv : LinearIndependent ℝ ![u, v])
    (huw : LinearIndependent ℝ ![u, w]) (hvw : LinearIndependent ℝ ![v, w]) (hu : form x u = 0)
    (hv : form x v = 0) (hw : form x w = 0) : x = 0 := by
  -- Up to the factor two the determinant is one of Vandermonde: a product of the three areas.
  have hdet : (valueMatrix u v w).det ≠ 0 := by
    rw [det_valueMatrix]
    exact mul_ne_zero (mul_ne_zero (mul_ne_zero two_ne_zero (independent_iff.mp huv))
      (independent_iff.mp huw)) (independent_iff.mp hvw)
  apply eq_zero_of_mulVec_eq_zero hdet
  rw [valueMatrix_mulVec, hu, hv, hw]
  simp

noncomputable def lineForm (d e : Fin 2 → ℝ) : Fin 3 → ℝ :=
  ![d 1 * e 1, -(d 1 * e 0 + d 0 * e 1) / 2, d 0 * e 0]

/-- The form of two lines is the product of their equations. -/
theorem form_lineForm (d e u : Fin 2 → ℝ) :
    form (lineForm d e) u = (d 1 * u 0 - d 0 * u 1) * (e 1 * u 0 - e 0 * u 1) := by
  simp only [form, lineForm, cons_val_zero, cons_val_one, cons_val]
  ring

theorem lineForm_ne_zero (hd : d ≠ 0) (he : e ≠ 0) : lineForm d e ≠ 0 := by
  intro hzero
  have h11 : d 1 * e 1 = 0 := congrFun hzero 0
  have hmixed : -(d 1 * e 0 + d 0 * e 1) / 2 = 0 := congrFun hzero 1
  have h00 : d 0 * e 0 = 0 := congrFun hzero 2
  -- The squared lengths of the two points multiply to a sum of products with these.
  have hlengths : (d ⬝ᵥ d) * (e ⬝ᵥ e) = 0 := by
    simp only [dotProduct, Fin.sum_univ_two]
    linear_combination d 1 * e 1 * h11 + 4 * (-(d 1 * e 0 + d 0 * e 1) / 2) * hmixed +
      d 0 * e 0 * h00 - 2 * (d 0 * e 0) * h11
  rcases mul_eq_zero.mp hlengths with hlength | hlength
  · exact hd (dotProduct_self_eq_zero.mp hlength)
  · exact he (dotProduct_self_eq_zero.mp hlength)

theorem area_eq_zero (h : u ∈ Submodule.span ℝ {d}) : d 1 * u 0 - d 0 * u 1 = 0 := by
  obtain ⟨k, rfl⟩ := Submodule.mem_span_singleton.mp h
  rw [Pi.smul_apply, Pi.smul_apply, smul_eq_mul, smul_eq_mul]
  ring

/-- Vectors on two lines have a form that vanishes on all of them. -/
theorem exists_form (h : OnTwoLines us) : ∃ x ≠ 0, ∀ u ∈ us, form x u = 0 := by
  obtain ⟨d, e, hd, he, hlines⟩ := h
  refine ⟨lineForm d e, lineForm_ne_zero hd he, fun u hu => ?_⟩
  rw [form_lineForm]
  rcases hlines u hu with hline | hline
  · rw [area_eq_zero hline, zero_mul]
  · rw [area_eq_zero hline, mul_zero]

/-- Without three directions two lines are enough. -/
theorem onTwoLines_of_not_threeDirections (h : ¬ ThreeDirections us) : OnTwoLines us := by
  by_cases hpair : ∃ u ∈ us, ∃ v ∈ us, LinearIndependent ℝ ![u, v]
  · obtain ⟨u, hu, v, hv, huv⟩ := hpair
    have hune : u ≠ 0 := huv.ne_zero 0
    have hvne : v ≠ 0 := huv.ne_zero 1
    refine ⟨u, v, hune, hvne, fun w hw => ?_⟩
    rw [← not_independent_iff hune, ← not_independent_iff hvne]
    by_contra! hboth
    exact h ⟨u, hu, v, hv, w, hw, huv, hboth.1, hboth.2⟩
  -- Without two directions one line will do: that of any vector that does not vanish.
  obtain ⟨d, hd, hline⟩ : ∃ d ≠ 0, ∀ w ∈ us, w ∈ Submodule.span ℝ {d} := by
    by_cases hsome : ∃ d ∈ us, d ≠ 0
    · obtain ⟨d, hdmem, hd⟩ := hsome
      refine ⟨d, hd, fun w hw => (not_independent_iff hd).mp fun hdw => ?_⟩
      exact hpair ⟨d, hdmem, w, hw, hdw⟩
    · push Not at hsome
      refine ⟨1, one_ne_zero, fun w hw => ?_⟩
      rw [hsome w hw]
      exact Submodule.zero_mem _
  exact ⟨d, d, hd, hd, fun w hw => .inl (hline w hw)⟩

end Directions

/-- The normal equations of a plane are regular exactly if the maps look in three directions. -/
theorem isUnit_normalMatrix_iff (hlength : maps.length = readings.length) (p : Plane) :
    IsUnit (normalMatrix (equations maps readings p)).toMatrix ↔
      ThreeDirections (maps.map (firstRow p)) := by
  rw [isUnit_iff_isUnit_det, isUnit_iff_ne_zero, ne_eq, det_normalMatrix_eq_zero hlength, not_iff_comm]
  constructor
  · intro hnot
    exact exists_form (onTwoLines_of_not_threeDirections hnot)
  · rintro ⟨x, hx, hform⟩ ⟨u, hu, v, hv, w, hw, huv, huw, hvw⟩
    exact hx (form_eq_zero_of_directions huv huw hvw (hform u hu) (hform v hv) (hform w hw))

/-! ### Unobservable planes -/

noncomputable def isSolved (maps : List (PhaseMap ℝ)) (readings : List (Reading ℝ)) (p : Plane) : Bool :=
  ((normalMatrix (equations maps readings p)).solve (normalRhs (equations maps readings p))).isOk

noncomputable def firstUnsolved (maps : List (PhaseMap ℝ)) (readings : List (Reading ℝ)) :
    Option Plane :=
  Plane.all.find? fun p => !isSolved maps readings p

theorem planeMoments_cases (maps : List (PhaseMap ℝ)) (readings : List (Reading ℝ)) (p : Plane) :
    (isSolved maps readings p = false ∧
      planeMoments maps readings p = .error (.numeric (.unobservable p))) ∨
      (isSolved maps readings p = true ∧ ∃ m, planeMoments maps readings p = .ok m) := by
  unfold isSolved planeMoments
  dsimp only
  cases (normalMatrix (equations maps readings p)).solve (normalRhs (equations maps readings p)) with
  | error f => exact .inl ⟨rfl, rfl⟩
  | ok x => exact .inr ⟨rfl, _, rfl⟩

/-- The fault names the first plane whose equations are not solved. -/
theorem observe_of_firstUnsolved {q : Plane} (hlength : maps.length = readings.length)
    (h : firstUnsolved maps readings = some q) :
    observe maps readings = .error (.numeric (.unobservable q)) := by
  unfold observe
  rw [if_neg (not_not.mpr hlength)]
  -- The planes are solved one after the other, and the first one that is not ends the observation.
  unfold firstUnsolved Plane.all at h
  obtain ⟨hx, hmx⟩ | ⟨hx, x, hmx⟩ := planeMoments_cases maps readings .horizontal
  · obtain rfl : Plane.horizontal = q := by simpa [hx] using h
    rw [hmx]
    rfl
  obtain ⟨hy, hmy⟩ | ⟨hy, y, hmy⟩ := planeMoments_cases maps readings .vertical
  · obtain rfl : Plane.vertical = q := by simpa [hx, hy] using h
    rw [hmx, hmy]
    rfl
  obtain ⟨hz, hmz⟩ | ⟨hz, z, hmz⟩ := planeMoments_cases maps readings .longitudinal
  · obtain rfl : Plane.longitudinal = q := by simpa [hx, hy, hz] using h
    rw [hmx, hmy, hmz]
    rfl
  · simp [hx, hy, hz] at h

/-- Maps that look in two directions only leave the plane unsolved. -/
theorem isSolved_of_onTwoLines (hlength : maps.length = readings.length)
    (h : OnTwoLines (maps.map (firstRow p))) : isSolved maps readings p = false := by
  have hsingular := (det_normalMatrix_eq_zero hlength).mpr (exists_form h)
  unfold isSolved
  cases hsolve : (normalMatrix (equations maps readings p)).solve
      (normalRhs (equations maps readings p)) with
  | error f => rfl
  | ok x =>
    obtain ⟨e, he, -⟩ := map_eq_ok.mp hsolve
    exact absurd hsingular (Mat.passes_of_factorize he).det_ne_zero

theorem exists_firstUnsolved (h : isSolved maps readings p = false) :
    ∃ q, firstUnsolved maps readings = some q := by
  rw [← Option.isSome_iff_exists, firstUnsolved, List.find?_isSome]
  exact ⟨p, p.mem_all, by rw [h]; rfl⟩

end BeamOptics.Observation

namespace BeamOptics

open Observation

variable {maps : List (PhaseMap ℝ)} {readings : List (Reading ℝ)}

/-- A run whose first maps are not observed through fails in its first iteration. -/
theorem Estimator.estimate_unobserved {G : Type} {source : MapSource ℝ G} {e : Estimator ℝ G}
    {initial : Covariance ℝ} {f : Fault ℝ} (hr : Reading.setFault? readings = none)
    (hanswer : (source.maps e.source initial (readings.map (·.position))).1 = .ok maps)
    (hobs : observe maps readings = .error f) :
    ∃ state, estimate source e initial readings =
      (.error f, { fresh state e.settings with status := .failed, begun := 1 }) := by
  -- The maps are made before they are observed through, so the source is left behind its first call.
  have hattempt : (fresh e.source e.settings).attempt initial readings (.ok maps) = .error f := by
    unfold attempt
    exact bind_eq_error.mpr (.inr ⟨maps, rfl, bind_eq_error.mpr (.inl hobs)⟩)
  have hiterate : iterate source initial readings (fresh e.source e.settings) =
      (.error f, { fresh (ask source readings initial (fresh e.source e.settings)).2 e.settings with
        begun := 1 }) := by
    rw [iterate_eq]
    change behind _ _ ((fresh e.source e.settings).attempt initial readings
      (source.maps e.source initial (readings.map (·.position))).1) = _
    rw [hanswer, hattempt]
    rfl
  exact ⟨_, estimate_error hr (run_stopped hiterate _)⟩

/-- Through maps whose first rows have three directions in a plane, and no others, the normal matrix
of the plane is regular. Where the rows lie on two lines, both reconstructions report the first plane
that was not solved, and an estimation does so in its first iteration. -/
theorem observability (hlength : maps.length = readings.length) :
    (∀ p, IsUnit (normalMatrix (equations maps readings p)).toMatrix ↔
      ThreeDirections (maps.map (firstRow p))) ∧
    (Reading.setFault? readings = none → (∃ p, OnTwoLines (maps.map (firstRow p))) →
      ∃ q, firstUnsolved maps readings = some q ∧
        zeroCurrent maps readings = .error (.numeric (.unobservable q)) ∧
        ∀ {G : Type} (source : MapSource ℝ G) (e : Estimator ℝ G) (initial : Covariance ℝ),
          (source.maps e.source initial (readings.map (·.position))).1 = .ok maps →
            (Estimator.estimate source e initial readings).1 = .error (.numeric (.unobservable q)) ∧
            (Estimator.estimate source e initial readings).2.status = .failed ∧
            (Estimator.estimate source e initial readings).2.begun = 1 ∧
            (Estimator.estimate source e initial readings).2.covariance = none) := by
  refine ⟨isUnit_normalMatrix_iff hlength, ?_⟩
  rintro hr ⟨p, hlines⟩
  -- The planes are looked at in order, so that an earlier one may be reported.
  obtain ⟨q, hq⟩ := exists_firstUnsolved (isSolved_of_onTwoLines hlength hlines)
  have hobs := observe_of_firstUnsolved hlength hq
  refine ⟨q, hq, ?_, ?_⟩
  · unfold zeroCurrent Reading.check
    rw [hr]
    exact hobs
  · intro G source e initial hanswer
    obtain ⟨state, hestimate⟩ := Estimator.estimate_unobserved hr hanswer hobs
    rw [hestimate]
    exact ⟨rfl, rfl, rfl, rfl⟩

/-- The maps of a quarter turn and a drift, but in the vertical plane none of them moves a point. -/
noncomputable def uprightTurn : List (PhaseMap ℝ) :=
  [⟨1, 0, 0, 1⟩, ⟨0, 1, -1, 0⟩, ⟨1, 1, 0, 1⟩].map fun b => PhaseMap.ofBlocks ⟨b, ⟨1, 0, 0, 1⟩, b⟩

theorem observability_uprightTurn :
    uprightTurn.length = unitReadings.length ∧ Reading.setFault? unitReadings = none ∧
      OnTwoLines (uprightTurn.map (firstRow .vertical)) ∧
      IsUnit (normalMatrix (equations uprightTurn unitReadings .horizontal)).toMatrix ∧
      zeroCurrent uprightTurn unitReadings = .error (.numeric (.unobservable .vertical)) ∧
      (Estimator.estimate (.steady uprightTurn) (.fresh () coarse) .zero unitReadings).1 =
        .error (.numeric (.unobservable .vertical)) := by
  have hlength : uprightTurn.length = unitReadings.length := by
    simp [uprightTurn, unitReadings]
  -- The vertical maps have one row in common, and the horizontal ones look in three directions.
  have hhorizontal : uprightTurn.map (firstRow .horizontal) = [![1, 0], ![0, 1], ![1, 1]] := by
    simp [uprightTurn, firstRow, PhaseMap.block, PhaseMap.ofBlocks, Mat.entry, Plane.position,
      Plane.slope]
  have hvertical : uprightTurn.map (firstRow .vertical) = [![1, 0], ![1, 0], ![1, 0]] := by
    simp [uprightTurn, firstRow, PhaseMap.block, PhaseMap.ofBlocks, Mat.entry, Plane.position,
      Plane.slope]
  have hthree : ThreeDirections (uprightTurn.map (firstRow .horizontal)) := by
    rw [hhorizontal]
    refine ⟨![1, 0], by simp, ![0, 1], by simp, ![1, 1], by simp, ?_, ?_, ?_⟩ <;>
      rw [independent_iff] <;> simp
  have hlines : OnTwoLines (uprightTurn.map (firstRow .vertical)) := by
    have hne : (![1, 0] : Fin 2 → ℝ) ≠ 0 := fun h => one_ne_zero (congrFun h 0)
    rw [hvertical]
    exact ⟨![1, 0], ![1, 0], hne, hne, by simp [Submodule.mem_span_singleton_self]⟩
  have hsolved : isSolved uprightTurn unitReadings .horizontal = true := by
    have hequations : equations uprightTurn unitReadings .horizontal = skewEquations 1 1 := by
      simp [equations, skewEquations, uprightTurn, unitReadings, row, PhaseMap.block,
        PhaseMap.ofBlocks, Mat.entry, Plane.position, Plane.slope, Triple.get]
    rw [isSolved, hequations, solve_skew (by norm_num) le_rfl (mul_one 1)]
    rfl
  obtain ⟨hregular, hreport⟩ := observability hlength
  obtain ⟨q, hq, hzero, hestimate⟩ := hreport unitReadings_setFault ⟨.vertical, hlines⟩
  -- The horizontal plane is solved, so that the vertical one is reported.
  obtain rfl : Plane.vertical = q := by
    have hfirst : firstUnsolved uprightTurn unitReadings = some .vertical := by
      simp [firstUnsolved, Plane.all, hsolved, isSolved_of_onTwoLines hlength hlines]
    exact Option.some.inj (hfirst.symm.trans hq)
  exact ⟨hlength, unitReadings_setFault, hlines, (hregular .horizontal).mpr hthree, hzero,
    (hestimate _ _ _ rfl).1⟩

end BeamOptics
