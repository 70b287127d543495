import BeamOptics.Proofs.SteadySource

/-! The fit as a solution of least squares. The normal equations say that what the equations miss is
orthogonal to every column of coefficients; so any other moments miss more, by the squares of what the
left sides differ by, and these vanish together only where the normal equations have one more solution.
A pivot test that passes leaves them only one. -/

namespace BeamOptics.Observation

variable {maps maps' : List (PhaseMap ℝ)} {readings readings' : List (Reading ℝ)}

/-! ### Normal equations -/

section Equations

variable {eqs : List (Vector ℝ 3 × ℝ)} {x y : Vector ℝ 3}

/-- The coefficients of the moments in the square of the size behind a shear. -/
theorem row_shear {M : PhaseMap ℝ} {p : Plane} {z : ℝ} (h : M.block p = ⟨1, z, 0, 1⟩) :
    row M p = #v[1, 2 * z, z ^ 2] := by
  have hproduct : (2 : ℝ) * 1 * z = 2 * z := by ring
  rw [row, h, sq]
  exact congrArg₂ (fun a b => #v[a, b, z * z]) (one_mul 1) hproduct

/-- Each reading behind a drift gives the equation of the slip up to its place. -/
theorem equations_drifts {p : Plane} {gamma share : ℝ}
    (h : ∀ z, (PhaseMap.drift z gamma).block p = ⟨1, z * share, 0, 1⟩)
    (readings : List (Reading ℝ)) :
    equations ((readings.map (·.position)).map fun z => PhaseMap.drift z gamma) readings p =
      readings.map fun r =>
        (#v[1, 2 * (r.position * share), (r.position * share) ^ 2], r.sizes.get p) := by
  rw [equations, List.map_map, List.map_map, List.zip_map']
  apply List.map_congr_left
  intro r _
  dsimp only [Function.comp]
  rw [row_shear (h r.position)]

noncomputable def excess (x : Vector ℝ 3) (e : Vector ℝ 3 × ℝ) : ℝ :=
  ∑ j, e.1.get j * x.get j - e.2 * e.2

/-- A sum over the equations, weighted with a combination of the columns, is taken column by column. -/
theorem sum_combination (d : Fin 3 → ℝ) (f : Vector ℝ 3 × ℝ → ℝ) :
    (eqs.map fun e => (∑ j, e.1.get j * d j) * f e).sum =
      ∑ j, d j * (eqs.map fun e => e.1.get j * f e).sum := by
  induction eqs with
  | nil => simp
  | cons e eqs ih =>
    simp only [List.map_cons, List.sum_cons, mul_add, Finset.sum_add_distrib]
    rw [ih, Finset.sum_mul]
    congr 1
    apply Finset.sum_congr rfl
    intro j _
    ring

/-- A row of the normal matrix, read as a sum over the equations instead of one over the moments. -/
theorem normalMatrix_combination (d : Fin 3 → ℝ) (i : Fin 3) :
    ∑ j, (normalMatrix eqs).entry i j * d j =
      (eqs.map fun e => (∑ j, e.1.get j * d j) * e.1.get i).sum := by
  rw [sum_combination d]
  apply Finset.sum_congr rfl
  intro j _
  rw [normalMatrix_entry, mul_comm]
  simp only [mul_comm]

/-- The normal equations hold where no column sees the excess. -/
theorem normal_solves_iff : (normalMatrix eqs).Solves x (normalRhs eqs) ↔
    ∀ i, (eqs.map fun e => e.1.get i * excess x e).sum = 0 := by
  apply forall_congr'
  intro i
  have hexcess : (eqs.map fun e => e.1.get i * excess x e).sum =
      ∑ j, (normalMatrix eqs).entry i j * x.get j - (normalRhs eqs).get i := by
    apply eq_sub_of_add_eq
    rw [normalMatrix_combination (x.get ·), normalRhs_get, ← List.sum_map_add]
    congr 1
    apply List.map_congr_left
    intro e _
    rw [excess]
    ring
  rw [hexcess, sub_eq_zero]

/-- Moments that satisfy each equation solve the normal equations. -/
theorem normal_solves (h : ∀ e ∈ eqs, ∑ j, e.1.get j * x.get j = e.2 * e.2) :
    (normalMatrix eqs).Solves x (normalRhs eqs) := by
  rw [normal_solves_iff]
  intro i
  apply List.sum_eq_zero
  intro t ht
  obtain ⟨e, he, rfl⟩ := List.mem_map.mp ht
  rw [excess, h e he, sub_self, mul_zero]

/-! ### Squares -/

noncomputable def squares (eqs : List (Vector ℝ 3 × ℝ)) (x : Vector ℝ 3) : ℝ :=
  (eqs.map fun e => excess x e ^ 2).sum

/-- From a solution of the normal equations on, squares add up as in a right triangle. -/
theorem squares_eq_add (h : (normalMatrix eqs).Solves x (normalRhs eqs)) (y : Vector ℝ 3) :
    squares eqs y = squares eqs x + (eqs.map fun e => (excess y e - excess x e) ^ 2).sum := by
  have hdiff (e : Vector ℝ 3 × ℝ) :
      excess y e - excess x e = ∑ j, e.1.get j * (y.get j - x.get j) := by
    simp only [excess, mul_sub, Finset.sum_sub_distrib]
    ring
  -- What the left sides differ by is a combination of columns, and none of them sees the excess.
  have hcross : (eqs.map fun e => (excess y e - excess x e) * excess x e).sum = 0 := by
    simp only [hdiff]
    rw [sum_combination fun j => y.get j - x.get j]
    apply Finset.sum_eq_zero
    intro j _
    rw [normal_solves_iff.mp h j, mul_zero]
  calc
    squares eqs y = (eqs.map fun e => excess x e ^ 2 + (excess y e - excess x e) ^ 2 +
        2 * ((excess y e - excess x e) * excess x e)).sum := by
      rw [squares]
      congr 1
      apply List.map_congr_left
      intro e _
      ring
    _ = squares eqs x + (eqs.map fun e => (excess y e - excess x e) ^ 2).sum := by
      rw [List.sum_map_add, List.sum_map_add, List.sum_map_mul_left, hcross, mul_zero, add_zero]
      rfl

/-- A returned solution has the least squares, and it alone. -/
theorem squares_lt (h : (normalMatrix eqs).solve (normalRhs eqs) = .ok x) (hne : y ≠ x) :
    squares eqs x < squares eqs y := by
  have hx : (normalMatrix eqs).Solves x (normalRhs eqs) := (Mat.solves_iff_of_solve h x).mpr rfl
  have hnonneg : ∀ t ∈ eqs.map fun e => (excess y e - excess x e) ^ 2, 0 ≤ t := by
    intro t ht
    obtain ⟨e, -, rfl⟩ := List.mem_map.mp ht
    exact sq_nonneg _
  rw [squares_eq_add hx y]
  apply lt_add_of_pos_right
  apply lt_of_le_of_ne (List.sum_nonneg hnonneg)
  intro hzero
  -- Without a difference in any equation the other moments solve the normal equations as well.
  have hsame : ∀ e ∈ eqs, excess y e = excess x e := by
    intro e he
    have hsq := List.all_zero_of_le_zero_le_of_sum_eq_zero hnonneg hzero.symm
      (List.mem_map_of_mem he)
    exact sub_eq_zero.mp (pow_eq_zero_iff two_ne_zero |>.mp hsq)
  apply hne
  rw [← Mat.solves_iff_of_solve h, normal_solves_iff]
  intro i
  have hcolumn := normal_solves_iff.mp hx i
  rw [← hcolumn]
  congr 1
  apply List.map_congr_left
  intro e he
  rw [hsame e he]

end Equations

/-! ### Planes -/

def momentVector (m : Moments ℝ) : Vector ℝ 3 := #v[m.s11, m.s12, m.s22]

theorem momentVector_injective : Function.Injective momentVector := by
  intro m n h
  have hget (i : Fin 3) : (momentVector m).get i = (momentVector n).get i := by rw [h]
  cases m
  cases n
  rw [Moments.mk.injEq]
  exact ⟨hget 0, hget 1, hget 2⟩

/-- The moments of a plane are the solution of its normal equations. -/
theorem planeMoments_eq_ok {p : Plane} {m : Moments ℝ} :
    planeMoments maps readings p = .ok m ↔
      (normalMatrix (equations maps readings p)).solve (normalRhs (equations maps readings p)) =
        .ok (momentVector m) := by
  unfold planeMoments
  dsimp only
  -- The solver decides: its fault is the plane's, and its solution is read as moments.
  cases (normalMatrix (equations maps readings p)).solve (normalRhs (equations maps readings p)) with
  | error f =>
    constructor
    · intro h
      cases h
    · intro h
      cases h
  | ok x =>
    have hx : x = momentVector ⟨x[0], x[1], x[2]⟩ := by
      apply Vector.ext
      intro i hi
      interval_cases i <;> rfl
    constructor
    · intro h
      rw [← Except.ok.inj h, ← hx]
    · intro h
      rw [hx] at h
      exact congrArg Except.ok (momentVector_injective (Except.ok.inj h))

theorem map_fst_equations {K : Type} [Scalar K] {maps : List (PhaseMap K)} {readings : List (Reading K)}
    (hlength : maps.length = readings.length) (p : Plane) :
    (equations maps readings p).map Prod.fst = maps.map (row · p) := by
  rw [equations]
  exact List.map_fst_zip (by rw [List.length_map, List.length_map, hlength])

/-- The equations of a plane, reading by reading. -/
theorem equations_eq_map (maps : List (PhaseMap ℝ)) (readings : List (Reading ℝ)) (p : Plane) :
    equations maps readings p = (maps.zip readings).map fun e => (row e.1 p, e.2.sizes.get p) := by
  rw [equations, List.zip_map]
  rfl

noncomputable def overshoot (p : Plane) (m : Moments ℝ) (e : PhaseMap ℝ × Reading ℝ) : ℝ :=
  (e.1.block p).a ^ 2 * m.s11 + 2 * (e.1.block p).a * (e.1.block p).b * m.s12 +
    (e.1.block p).b ^ 2 * m.s22 - e.2.sizes.get p ^ 2

noncomputable def misfit (maps : List (PhaseMap ℝ)) (readings : List (Reading ℝ)) (p : Plane)
    (m : Moments ℝ) : ℝ :=
  ((maps.zip readings).map fun e => overshoot p m e ^ 2).sum

/-- The misfit of a plane is the sum of squares that its equations leave. -/
theorem misfit_eq_squares (maps : List (PhaseMap ℝ)) (readings : List (Reading ℝ)) (p : Plane)
    (m : Moments ℝ) :
    misfit maps readings p m = squares (equations maps readings p) (momentVector m) := by
  rw [misfit, squares, equations_eq_map, List.map_map]
  congr 1
  apply List.map_congr_left
  rintro ⟨M, r⟩ _
  have hrow : ∑ j, (row M p).get j * (momentVector m).get j =
      (M.block p).a * (M.block p).a * m.s11 + 2 * (M.block p).a * (M.block p).b * m.s12 +
        (M.block p).b * (M.block p).b * m.s22 := by
    rw [Fin.sum_univ_three]
    rfl
  change _ = excess (momentVector m) (row M p, r.sizes.get p) ^ 2
  rw [excess, hrow, overshoot]
  ring

/-- The moments that a plane returns leave less than any others. -/
theorem misfit_lt {p : Plane} {m n : Moments ℝ} (h : planeMoments maps readings p = .ok m)
    (hne : n ≠ m) : misfit maps readings p m < misfit maps readings p n := by
  rw [misfit_eq_squares, misfit_eq_squares]
  exact squares_lt (planeMoments_eq_ok.mp h) (momentVector_injective.ne hne)

/-- Sums over the readings do not see in which order they come. -/
theorem planeMoments_perm (h : (maps.zip readings).Perm (maps'.zip readings')) (p : Plane) :
    planeMoments maps readings p = planeMoments maps' readings' p := by
  have hperm : (equations maps readings p).Perm (equations maps' readings' p) := by
    rw [equations_eq_map, equations_eq_map]
    exact h.map _
  have hmatrix : normalMatrix (equations maps readings p) =
      normalMatrix (equations maps' readings' p) := by
    apply Mat.ext_entry
    intro i j
    rw [normalMatrix_entry, normalMatrix_entry]
    exact (hperm.map _).sum_eq
  have hget (i : Fin 3) : (normalRhs (equations maps readings p)).get i =
      (normalRhs (equations maps' readings' p)).get i := by
    rw [normalRhs_get, normalRhs_get]
    exact (hperm.map _).sum_eq
  have hrhs : normalRhs (equations maps readings p) = normalRhs (equations maps' readings' p) :=
    Vector.ext fun i hi => hget ⟨i, hi⟩
  rw [planeMoments, planeMoments, hmatrix, hrhs]

/-! ### The fit -/

/-- The fit is the centred beam of the moments that fit best in each plane. -/
theorem observe_eq_ok {K : Type} [Scalar K] {maps : List (PhaseMap K)} {readings : List (Reading K)}
    {fit : Covariance K} : observe maps readings = .ok fit ↔
    maps.length = readings.length ∧
      ∃ m, (∀ p, planeMoments maps readings p = .ok (m.get p)) ∧ fit = Covariance.ofMoments m := by
  unfold observe
  by_cases hlength : maps.length ≠ readings.length
  · rw [if_pos hlength]
    constructor
    · intro h
      cases h
    · exact fun h => absurd h.1 hlength
  rw [if_neg hlength]
  constructor
  · -- The moments of the three planes are found one after the other.
    intro h
    obtain ⟨-, -, h⟩ := bind_eq_ok.mp h
    obtain ⟨x, hx, h⟩ := bind_eq_ok.mp h
    obtain ⟨y, hy, h⟩ := bind_eq_ok.mp h
    obtain ⟨z, hz, h⟩ := bind_eq_ok.mp h
    refine ⟨not_not.mp hlength, ⟨x, y, z⟩, fun p => ?_, (pure_eq_ok.mp h).symm⟩
    cases p <;> assumption
  · rintro ⟨-, m, hm, rfl⟩
    rw [hm .horizontal, hm .vertical, hm .longitudinal]
    rfl

/-- A fit has in each plane the moments of least squares, and these alone, is centred and without
coupling between planes, and stays the same in any other order of the pairs of a map and a reading. -/
theorem observe_leastSquares {fit : Covariance ℝ} (h : observe maps readings = .ok fit) :
    (∀ p m, m ≠ fit.moments p →
      misfit maps readings p (fit.moments p) < misfit maps readings p m) ∧
    fit.Uncoupled ∧
    ∀ {maps' : List (PhaseMap ℝ)} {readings' : List (Reading ℝ)},
      maps'.length = readings'.length → (maps.zip readings).Perm (maps'.zip readings') →
        observe maps' readings' = .ok fit := by
  obtain ⟨-, found, hfound, rfl⟩ := observe_eq_ok.mp h
  refine ⟨?_, Covariance.uncoupled_ofMoments found, ?_⟩
  · intro p m hne
    rw [Covariance.moments_ofMoments] at hne ⊢
    exact misfit_lt (hfound p) hne
  · intro maps' readings' hlength hperm
    apply observe_eq_ok.mpr
    refine ⟨hlength, found, ?_, rfl⟩
    intro p
    rw [← planeMoments_perm hperm p]
    exact hfound p

theorem observe_leastSquares_quarterTurn :
    observe quarterTurn unitReadings = .ok unitBeam ∧
      misfit quarterTurn unitReadings .vertical (unitBeam.moments .vertical) <
        misfit quarterTurn unitReadings .vertical ⟨1, 0, 1⟩ ∧
      unitBeam.Uncoupled ∧
      observe quarterTurn.reverse unitReadings.reverse = .ok unitBeam := by
  obtain ⟨hleast, huncoupled, horder⟩ := observe_leastSquares observe_quarterTurn
  have hne : (⟨1, 0, 1⟩ : Moments ℝ) ≠ unitBeam.moments .vertical := by
    intro heq
    have h12 : (0 : ℝ) = -1 / 2 := congrArg Moments.s12 heq
    norm_num at h12
  have hperm : (quarterTurn.zip unitReadings).Perm (quarterTurn.reverse.zip unitReadings.reverse) :=
    (List.reverse_perm _).symm
  exact ⟨observe_quarterTurn, hleast .vertical _ hne, huncoupled, horder rfl hperm⟩

end BeamOptics.Observation
