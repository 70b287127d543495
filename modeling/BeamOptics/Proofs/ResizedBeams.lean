import BeamOptics.Proofs.ParallelWalks
import BeamOptics.Proofs.Secants
import BeamOptics.Proofs.Synthesis

/-! Beams of another size. Sizes grow by a factor, moments by its square, and a space charge that grows
like the moments gives the same kicks. Then a line has the same maps, the readings the same residual,
and the fit through the maps grows with them. -/

namespace BeamOptics

noncomputable def Reading.resize (r : Reading ℝ) (c : ℝ) : Reading ℝ :=
  { r with sizes := r.sizes.map (· * c) }

noncomputable def Moments.scale (m : Moments ℝ) (k : ℝ) : Moments ℝ := ⟨m.s11 * k, m.s12 * k, m.s22 * k⟩

/-- The space charge that acts on a beam of another size as the model does on the beam. -/
noncomputable def SpaceCharge.resize (model : SpaceCharge ℝ) (c : ℝ) : SpaceCharge ℝ :=
  ⟨model.perveance * c ^ 2, model.longitudinalPerveance * c ^ 2, model.sliceLength⟩

noncomputable def BeamLine.resize (line : BeamLine ℝ) (c : ℝ) : BeamLine ℝ :=
  { line with spaceCharge := line.spaceCharge.map (·.resize c) }

namespace Covariance

/-- The moments of `t` are those of `s` for a beam larger by a factor. Centroids may be any. -/
def Resizes (c : ℝ) (s t : Covariance ℝ) : Prop := t.phaseMoments = s.phaseMoments.scale (c ^ 2)

namespace Resizes

variable {c : ℝ} {s s' t t' : Covariance ℝ}

theorem entry (h : s.Resizes c t) (i j : Fin 6) :
    t.phaseMoments.entry i j = s.phaseMoments.entry i j * c ^ 2 := by
  rw [h, Mat.entry_scale]

theorem block (h : s.Resizes c t) (p : Plane) : t.block p = (s.block p).scale (c ^ 2) := by
  obtain ⟨i, j, hp⟩ := block_eq_entries p
  simp only [hp, h.entry, Block.scale]

theorem moments (h : s.Resizes c t) (p : Plane) : t.moments p = (s.moments p).scale (c ^ 2) := by
  rw [Covariance.moments, h.block]
  rfl

/-- Mean square positions grow with the square of the factor behind any map that acts plane by plane. -/
theorem propagate (h : s.Resizes c t) {M : PhaseMap ℝ} (hM : M.Planar) (p : Plane) :
    ((t.propagate M).block p).a = ((s.propagate M).block p).a * c ^ 2 := by
  obtain ⟨b, rfl⟩ := hM
  rw [block_propagate_form, block_propagate_form, h.block, Block.form, Block.form, Block.scale]
  ring

/-- Sizes behind a map that acts plane by plane are in proportion. -/
theorem rmsSize (h : s.Resizes c t) (hc : 0 ≤ c) {M : PhaseMap ℝ} (hM : M.Planar) (p : Plane) :
    (t.propagate M).rmsSize p = (s.propagate M).rmsSize p * c := by
  simp only [Covariance.rmsSize, h.propagate hM, Scalar.real_sqrt, Scalar.real_maxNum,
    Scalar.real_zero]
  have hmax (a : ℝ) : max (a * c ^ 2) 0 = max a 0 * c ^ 2 := by
    rw [max_mul_of_nonneg _ _ (sq_nonneg c), zero_mul]
  rw [hmax, Real.sqrt_mul' _ (sq_nonneg c), Real.sqrt_sq hc]

theorem relax (h : s.Resizes c s') (h' : t.Resizes c t') (alpha : ℝ) :
    (s.relax t alpha).Resizes c (s'.relax t' alpha) := by
  apply Mat.ext_entry
  intro i j
  simp only [phaseMoments_relax, Mat.entry_add, Mat.entry_scale, h.entry, h'.entry]
  ring

theorem momentNorm (h : s.Resizes c t) : t.momentNorm = s.momentNorm * c ^ 2 := by
  rw [Covariance.momentNorm, h, Mat.frobenius_scale, abs_of_nonneg (sq_nonneg c), mul_comm]
  rfl

/-- A distance relative to a beam does not depend on the size; from a beam without moments it is the
absolute one, and grows like the moments. -/
theorem relativeDistance (hc : 0 < c) (h : s.Resizes c s') (h' : t.Resizes c t') :
    s'.relativeDistance t' =
      if t.momentNorm = 0 then c ^ 2 * s.relativeDistance t else s.relativeDistance t := by
  have hsquare : 0 < c ^ 2 := by positivity
  have hdistance : (s'.phaseMoments - t'.phaseMoments).frobenius =
      c ^ 2 * (s.phaseMoments - t.phaseMoments).frobenius := by
    have hscale : s'.phaseMoments - t'.phaseMoments =
        (s.phaseMoments - t.phaseMoments).scale (c ^ 2) := by
      apply Mat.ext_entry
      intro i j
      simp only [Mat.entry_sub, Mat.entry_scale, h.entry, h'.entry, sub_mul]
    rw [hscale, Mat.frobenius_scale, abs_of_pos hsquare]
  rw [relativeDistance_eq, relativeDistance_eq, hdistance, referenceNorm, referenceNorm,
    h'.momentNorm]
  by_cases hzero : t.momentNorm = 0
  · rw [if_pos hzero, hzero, zero_mul, if_neg (lt_irrefl _), div_one, div_one]
  · have hpos : 0 < t.momentNorm := (Mat.frobenius_nonneg _).lt_of_ne' hzero
    rw [if_neg hzero, if_pos hpos, if_pos (mul_pos hpos hsquare), mul_comm (t.momentNorm),
      mul_div_mul_left _ _ hsquare.ne']

end Resizes

theorem zero_resizes (c : ℝ) : zero.Resizes c zero := by
  apply Mat.ext_entry
  intro i j
  rw [Mat.entry_scale, phaseMoments_zero_entry, zero_mul]

/-- Between no beam and a beam stand all the sizes of the beam. -/
theorem resizes_relax_zero (s : Covariance ℝ) (c : ℝ) : s.Resizes c (zero.relax s (c ^ 2)) := by
  apply Mat.ext_entry
  intro i j
  rw [phaseMoments_relax, Mat.entry_add, Mat.entry_scale, Mat.entry_scale, phaseMoments_zero_entry,
    zero_mul, zero_add]

end Covariance

/-! ### Maps -/

section Maps

variable {c : ℝ} {s t : Covariance ℝ} {M : PhaseMap ℝ}

/-- The local sizes are in proportion, so that both beams have them or neither. -/
theorem SpaceCharge.localSizes_resize (h : s.Resizes c t) (hc : 0 < c) (hM : M.Planar) :
    localSizes (t.propagate M) = (localSizes (s.propagate M)).map (·.map (· * c)) := by
  obtain ⟨sizes, hsizes⟩ : ∃ sizes : Triple ℝ, sizes = Triple.ofFn fun p =>
      √((s.propagate M).matrix.entry p.position p.position) := ⟨_, rfl⟩
  have hscaled : (Triple.ofFn fun p => √((t.propagate M).matrix.entry p.position p.position)) =
      sizes.map (· * c) := by
    apply Triple.ext_get
    intro p
    have hroot := congrArg Real.sqrt (h.propagate hM p)
    rw [Real.sqrt_mul' _ (sq_nonneg c), Real.sqrt_sq hc.le] at hroot
    rw [hsizes, Triple.get_map, Triple.get_ofFn, Triple.get_ofFn]
    exact hroot
  have hpositive : (fun p => !Scalar.isPositive ((sizes.map (· * c)).get p)) =
      fun p => !Scalar.isPositive (sizes.get p) := by
    funext p
    simp [hc]
  unfold localSizes
  simp only [Scalar.real_sqrt]
  rw [hscaled, ← hsizes, hpositive]
  cases hfound : Plane.all.find? fun p => !Scalar.isPositive (sizes.get p) with
  | none => rfl
  | some p =>
    -- A size that is reported is not positive, and roots are not negative.
    have hle : ¬ 0 < sizes.get p := by simpa using List.find?_some hfound
    have hzero : sizes.get p = 0 := by
      refine le_antisymm (not_lt.mp hle) ?_
      rw [hsizes, Triple.get_ofFn]
      exact Real.sqrt_nonneg _
    simp only [Except.map, Triple.get_map, hzero, zero_mul]

/-- The resized model kicks the resized beam as the model kicks the beam. -/
theorem SpaceCharge.kick_resize (model : SpaceCharge ℝ) (h : s.Resizes c t) (hc : 0 < c)
    (hM : M.Planar) (length : ℝ) :
    (model.resize c).kick (t.propagate M) length = model.kick (s.propagate M) length := by
  -- Each term of a kick has the factor squared above and below the line.
  have hsquare : c ^ 2 ≠ 0 := by positivity
  have htransverse (k w a b : ℝ) :
      k * c ^ 2 / (w * (a * c) * (a * c + b * c)) = k / (w * a * (a + b)) := by
    rw [← mul_div_mul_right k (w * a * (a + b)) hsquare]
    ring_nf
  have hvertical (k w a b : ℝ) :
      k * c ^ 2 / (w * (b * c) * (a * c + b * c)) = k / (w * b * (a + b)) := by
    rw [← mul_div_mul_right k (w * b * (a + b)) hsquare]
    ring_nf
  have hlongitudinal (k a : ℝ) : k * c ^ 2 / (a * c * (a * c)) = k / (a * a) := by
    rw [← mul_div_mul_right k (a * a) hsquare]
    ring_nf
  unfold kick
  rw [localSizes_resize h hc hM]
  cases localSizes (s.propagate M) with
  | error f => rfl
  | ok sizes =>
    apply congrArg Except.ok
    simp only [resize, Triple.map, htransverse, hvertical, hlongitudinal]

theorem PhaseMap.Planar.mul {N : PhaseMap ℝ} (hM : M.Planar) (hN : N.Planar) : (M * N).Planar := by
  obtain ⟨b, rfl⟩ := hM
  obtain ⟨b', rfl⟩ := hN
  exact ⟨_, ofBlocks_mul b b'⟩

def PhaseMap.Same (M N : PhaseMap ℝ) : Prop := M = N ∧ M.Planar

/-- A drift acts alike on both beams. -/
theorem driftSegment_resize (model : SpaceCharge ℝ) (h : s.Resizes c t) (hc : 0 < c) (hM : M.Planar)
    (length gamma y z : ℝ) :
    Alike (· = ·) PhaseMap.Same (driftSegment (some ⟨s, model⟩) length gamma y z M)
      (driftSegment (some ⟨t, model.resize c⟩) length gamma y z M) := by
  have hslices : (⟨s, model⟩ : ChargedBeam ℝ).model.sliceLength =
      (⟨t, model.resize c⟩ : ChargedBeam ℝ).model.sliceLength := rfl
  have hsame : PhaseMap.Same M M := ⟨rfl, hM⟩
  refine driftSegment_alike hslices ?_ ?_ length gamma y z hsame
  · rintro M _ ⟨rfl, hM⟩ length gamma
    exact ⟨rfl, .mul ⟨_, rfl⟩ hM⟩
  · rintro M _ ⟨rfl, hM⟩ length
    rw [SpaceCharge.kick_resize model h hc hM]
    refine .self (fun _ => rfl) fun kick hkick => ⟨rfl, .mul ?_ hM⟩
    exact PhaseMap.planar_iff.mpr ⟨1, SpaceCharge.kick_hasArea hkick⟩

/-- The maps of a line for a beam are those of the line and the beam of another size. -/
theorem BeamLine.mapsAt_resize (line : BeamLine ℝ) (hc : 0 < c) (h : s.Resizes c t)
    (positions : List ℝ) :
    Alike (· = ·) (fun Ms Ns => Ms = Ns ∧ ∀ M ∈ Ms, M.Planar) (line.mapsAt s positions)
      ((line.resize c).mapsAt t positions) := by
  -- The charges act alike on every map that acts plane by plane.
  have hcharges : ParallelCharges (· = ·) PhaseMap.Same (line.charge s)
      ((line.resize c).charge t) := by
    refine ⟨fun _ => rfl, ⟨rfl, _, PhaseMap.ofBlocks_identity.symm⟩, ?_, ?_⟩
    · rintro length gamma y z M _ ⟨rfl, hM⟩
      unfold charge resize
      cases line.spaceCharge with
      | none =>
        refine .self (fun _ => rfl) fun N hN => ⟨rfl, ?_⟩
        obtain ⟨a, ha⟩ := PhaseMap.planar_iff.mp hM
        exact PhaseMap.planar_iff.mpr ⟨a, driftSegment_hasArea ha hN⟩
      | some model => exact driftSegment_resize model h hc hM length gamma y z
    · rintro p y z M _ ⟨rfl, hM⟩
      exact ⟨rfl, .mul ⟨_, rfl⟩ hM⟩
  refine (walk_alike hcharges line _ positions).mono (fun _ _ => id) fun Ms Ns hMs => ?_
  induction hMs with
  | nil => exact ⟨rfl, nofun⟩
  | cons hM _ ih =>
    obtain ⟨rfl, hplanar⟩ := hM
    obtain ⟨rfl, hall⟩ := ih
    exact ⟨rfl, List.forall_mem_cons.mpr ⟨hplanar, hall⟩⟩

end Maps

/-! ### Fits -/

section Fits

variable {c : ℝ} {s t : Covariance ℝ} {Ms : List (PhaseMap ℝ)}

noncomputable def Comparison.resize (r : Comparison ℝ) (c : ℝ) : Comparison ℝ :=
  { r with predicted := r.predicted.map (· * c), measured := r.measured.map (· * c) }

/-- Relative deviations do not notice the size. -/
theorem Comparison.deviation_resize (r : Comparison ℝ) (hc : c ≠ 0) :
    (r.resize c).deviation = r.deviation := by
  apply Triple.ext_get
  intro p
  simp only [deviation, resize, Triple.get_ofFn, Triple.get_map]
  rw [← sub_mul, mul_div_mul_right _ _ hc]

/-- A beam of another size explains readings of that size as well. -/
theorem Covariance.Resizes.residual (h : s.Resizes c t) (hc : 0 < c)
    (hMs : ∀ M ∈ Ms, M.Planar) (readings : List (Reading ℝ)) :
    t.residual Ms (readings.map (·.resize c)) = s.residual Ms readings := by
  have henvelope : t.envelope Ms = (s.envelope Ms).map (·.map (· * c)) := by
    rw [envelope, envelope, List.map_map]
    apply List.map_congr_left
    intro M hM
    apply Triple.ext_get
    intro p
    simp only [Function.comp_apply, sizes, Triple.get_map, Triple.get_ofFn, h.rmsSize hc.le (hMs M hM)]
  have hcompare : t.compare Ms (readings.map (·.resize c)) =
      (s.compare Ms readings).map (·.map (·.resize c)) := by
    unfold compare
    rw [List.length_map, henvelope]
    split_ifs
    · rfl
    · rw [List.zip_map, List.map_map, Except.map, List.map_map]
      rfl
  -- The deviations of the rows are the same, and so are their mean squares.
  unfold Covariance.residual
  rw [hcompare]
  cases s.compare Ms readings with
  | error f => rfl
  | ok rows =>
    change (if (rows.map (·.resize c)).isEmpty then _ else _) = if rows.isEmpty then _ else _
    simp only [List.isEmpty_map, List.flatMap_map, List.length_map,
      Comparison.deviation_resize _ hc.ne']

namespace Covariance

/-- From the readings of a beam, a beam of another size deviates by the same part everywhere. -/
theorem Resizes.deviation (h : s.Resizes c t) (hc : 0 ≤ c) {M : PhaseMap ℝ} (hM : M.Planar)
    {r : Reading ℝ} (hr : r.sizes = (s.propagate M).sizes) {p : Plane} (hpos : 0 < r.sizes.get p) :
    t.deviation M r p = c - 1 := by
  have hsize : (s.propagate M).rmsSize p = r.sizes.get p := by
    rw [hr, sizes, Triple.get_ofFn]
  rw [Covariance.deviation, h.rmsSize hc hM, hsize, sub_div, mul_div_cancel_left₀ _ hpos.ne',
    div_self hpos.ne']

/-- Readings that a beam gives itself tell how much larger another beam is, however many they are; and
no residual is left only where all of the sizes are as measured. -/
theorem residual_rescaled (s : Covariance ℝ) :
    (∀ {maps : List (PhaseMap ℝ)} {positions : List ℝ} {readings : List (Reading ℝ)} {c : ℝ},
      maps ≠ [] → (∀ M ∈ maps, M.Planar) → s.synthesize maps positions = .ok readings → 0 ≤ c →
        (zero.relax s (c ^ 2)).residual maps readings = .ok |c - 1|) ∧
    ∀ {maps : List (PhaseMap ℝ)} {readings : List (Reading ℝ)},
      (∀ r ∈ readings, ∀ p, 0 < r.sizes.get p) →
        (s.residual maps readings = .ok 0 ↔ s.envelope maps = readings.map (·.sizes)) := by
  refine ⟨?_, residual_eq_zero_iff⟩
  intro maps positions readings c hne hmaps hreadings hc
  obtain ⟨hgives, -⟩ := gives_of_synthesize hreadings
  apply residual_of_deviation hgives.length_eq hne
  rintro ⟨M, r⟩ hmem p
  obtain ⟨hsizes, hpos⟩ := (List.forall₂_iff_zip.mp hgives).2 hmem
  exact (resizes_relax_zero s c).deviation hc (hmaps M (List.of_mem_zip hmem).1) hsizes (hpos p)

open Estimator in

/-- Three times the size is a residual of two. -/
theorem residual_rescaled_quarterTurn :
    unitBeam.synthesize quarterTurn [0, 1, 2] = .ok unitReadings ∧
      (zero.relax unitBeam (3 ^ 2)).residual quarterTurn unitReadings = .ok |(3 : ℝ) - 1| ∧
      unitBeam.envelope quarterTurn = unitReadings.map (·.sizes) := by
  have hpos := Reading.sizes_pos unitReadings_setFault
  have hreadings := synthesize_quarterTurn
  refine ⟨hreadings, (residual_rescaled unitBeam).1 (by simp [quarterTurn]) quarterTurn_planar
    hreadings (by norm_num), ((residual_rescaled unitBeam).2 hpos).mp ?_⟩
  exact (gives_of_synthesize hreadings).1.residual

end Covariance

namespace Observation

/-- The fitted moments grow with the square of the sizes. -/
theorem planeMoments_resize (Ms : List (PhaseMap ℝ)) (readings : List (Reading ℝ)) (p : Plane) :
    planeMoments Ms (readings.map (·.resize c)) p =
      (planeMoments Ms readings p).map (·.scale (c ^ 2)) := by
  -- Only the sizes grow, so the matrix of the normal equations stays.
  have hequations : equations Ms (readings.map (·.resize c)) p =
      (equations Ms readings p).map fun e => (e.1, e.2 * c) := by
    have hsizes : (readings.map (·.resize c)).map (·.sizes.get p) =
        (readings.map (·.sizes.get p)).map (· * c) := by
      simp only [List.map_map, Function.comp_def, Reading.resize, Triple.get_map]
    rw [equations, equations, hsizes, List.zip_map_right]
    rfl
  have hmatrix : normalMatrix ((equations Ms readings p).map fun e => (e.1, e.2 * c)) =
      normalMatrix (equations Ms readings p) := by
    apply Mat.ext_entry
    intro i j
    rw [normalMatrix_entry, normalMatrix_entry, List.map_map]
    rfl
  have hrhs : normalRhs ((equations Ms readings p).map fun e => (e.1, e.2 * c)) =
      (normalRhs (equations Ms readings p)).map (· * c ^ 2) := by
    have hget (i : Fin 3) :
        (normalRhs ((equations Ms readings p).map fun e => (e.1, e.2 * c))).get i =
          ((normalRhs (equations Ms readings p)).map (· * c ^ 2)).get i := by
      rw [get_map_mul, normalRhs_get, normalRhs_get, List.map_map, ← List.sum_map_mul_right]
      congr 1
      apply List.map_congr_left
      intro e _
      simp only [Function.comp_apply]
      ring
    exact Vector.ext fun i hi => hget ⟨i, hi⟩
  unfold planeMoments
  dsimp only
  rw [hequations, hmatrix, hrhs, Mat.solve_map_mul]
  cases (normalMatrix (equations Ms readings p)).solve (normalRhs (equations Ms readings p)) with
  | error f => rfl
  | ok m =>
    apply congrArg Except.ok
    simp only [Moments.scale, Vector.getElem_map]

theorem ofMoments_resizes (m : Triple (Moments ℝ)) :
    (Covariance.ofMoments m).Resizes c (Covariance.ofMoments (m.map (·.scale (c ^ 2)))) := by
  have hzero : (Scalar.ofNat 0 : ℝ) = Scalar.ofNat 0 * c ^ 2 := by simp
  apply Mat.ext_entry
  intro i j
  rw [Mat.entry_scale]
  fin_cases i <;> fin_cases j <;> first | rfl | exact hzero

/-- The fit of readings of another size is the fit of that size. -/
theorem observe_resize (Ms : List (PhaseMap ℝ)) (readings : List (Reading ℝ)) :
    Alike (· = ·) (Covariance.Resizes c) (observe Ms readings)
      (observe Ms (readings.map (·.resize c))) := by
  -- In each plane the solution of the equations is scaled with their right-hand sides.
  have hplane (p : Plane) : Alike (· = ·) (fun m m' => m' = m.scale (c ^ 2))
      (planeMoments Ms readings p) (planeMoments Ms (readings.map (·.resize c)) p) := by
    rw [planeMoments_resize]
    cases planeMoments Ms readings p with
    | error f => exact .error rfl
    | ok m => exact .ok rfl
  unfold observe
  rw [List.length_map]
  split_ifs
  · exact .error rfl
  refine (hplane .horizontal).bind ?_
  rintro x _ rfl
  refine (hplane .vertical).bind ?_
  rintro y _ rfl
  refine (hplane .longitudinal).bind ?_
  rintro z _ rfl
  exact .ok (ofMoments_resizes ⟨x, y, z⟩)

end Observation

end Fits

end BeamOptics
