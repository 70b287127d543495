import BeamOptics.Proofs.ParallelRuns
import BeamOptics.Proofs.ResizedBeams
import BeamOptics.Command.Reconstruction

/-! The reconstruction of a beam of another size. Its run goes side by side with that of the beam, with
the same factors, residuals and relative steps. From a trial whose moments vanish the step is an
absolute one and grows like the moments, so there, and only there, the tolerance may tell the two
apart. -/

namespace BeamOptics

/-- Faults that differ at most in the sizes of a reading or in the step of a run. -/
inductive Fault.SameKind {K : Type} : Fault K → Fault K → Prop
  | same (f : Fault K) : SameKind f f
  | readingSizes (location : String) (sizes sizes' : Triple K) :
      SameKind (.setup (.readingSizes location sizes)) (.setup (.readingSizes location sizes'))
  | notConverged (iterations : ℕ) (step step' : K) :
      SameKind (.notConverged iterations step) (.notConverged iterations step')

theorem Fault.SameKind.of_eq {K : Type} {f g : Fault K} (h : f = g) : f.SameKind g := h ▸ .same f

namespace Reading

variable {c : ℝ}

/-- A reading and its multiple are both sound, or both at fault in their sizes. -/
theorem fault?_resize (r : Reading ℝ) (hc : 0 < c) :
    r.fault? = none ∧ (r.resize c).fault? = none ∨
      r.fault? = some (.readingSizes r.location r.sizes) ∧
        (r.resize c).fault? = some (.readingSizes r.location (r.resize c).sizes) := by
  have hpositive : (r.resize c).sizes.toList.all Scalar.isPositive =
      r.sizes.toList.all Scalar.isPositive := by
    simp [resize, Triple.map, Triple.toList, hc]
  unfold fault?
  rw [hpositive]
  cases r.sizes.toList.all Scalar.isPositive with
  | true => exact Or.inl ⟨rfl, rfl⟩
  | false => exact Or.inr ⟨rfl, rfl⟩

/-- Readings are accepted or refused whatever their unit. -/
theorem check_resize (readings : List (Reading ℝ)) (hc : 0 < c) :
    Alike Fault.SameKind (fun _ _ => True) (check readings) (check (readings.map (·.resize c))) := by
  -- The first faulty reading is the same one, because a factor keeps the sign of every size.
  have hfirst (rs : List (Reading ℝ)) :
      rs.findSome? fault? = none ∧ (rs.map (·.resize c)).findSome? fault? = none ∨
        ∃ location sizes sizes', rs.findSome? fault? = some (.readingSizes location sizes) ∧
          (rs.map (·.resize c)).findSome? fault? = some (.readingSizes location sizes') := by
    induction rs with
    | nil => exact Or.inl ⟨rfl, rfl⟩
    | cons r rs ih =>
      rw [List.map_cons, List.findSome?_cons, List.findSome?_cons]
      rcases fault?_resize r hc with ⟨h, h'⟩ | ⟨h, h'⟩
      · rw [h, h']
        exact ih
      · rw [h, h']
        exact Or.inr ⟨_, _, _, rfl, rfl⟩
  unfold check setFault?
  rw [List.length_map]
  split_ifs
  · exact .error (.same _)
  · rcases hfirst readings with ⟨h, h'⟩ | ⟨location, sizes, sizes', h, h'⟩
    · rw [h, h']
      exact .ok trivial
    · rw [h, h']
      exact .error (.readingSizes ..)

end Reading

namespace Estimator

open Command

variable {c : ℝ}

def resizing (c : ℝ) : Likeness ℝ (BeamLine ℝ) (BeamLine ℝ) where
  source line line' := line' = line.resize c
  maps Ms Ns := Ms = Ns ∧ ∀ M ∈ Ms, M.Planar
  beam := Covariance.Resizes c
  histories h h' := ∀ p, h'.get p = (h.get p).scale (c ^ 2)
  fault := Fault.SameKind

/-- The increments on record grow with the square of the beam's size. -/
theorem recordIncrements_resize {h h' : Histories ℝ}
    (hh : ∀ p, h'.get p = (h.get p).scale (c ^ 2)) {i j : Iteration ℝ}
    (htrial : i.trial.Resizes c j.trial) (hrecursion : i.recursion.Resizes c j.recursion)
    {s s' t t' : Covariance ℝ} (hs : s.Resizes c s') (ht : t.Resizes c t') (p : Plane) :
    (recordIncrements h' j s' t').get p =
      ((recordIncrements h i s t).get p).scale (c ^ 2) := by
  have hincrement {new new' old old' : Covariance ℝ} (hnew : new.Resizes c new')
      (hold : old.Resizes c old') :
      momentIncrement p old' new' = (momentIncrement p old new).scale (c ^ 2) := by
    simp only [momentIncrement, hnew.moments, hold.moments, Moments.scale, Vec.scale, List.map_cons,
      List.map_nil, sub_mul]
  have hrecord (h : Histories ℝ) (i : Iteration ℝ) (s t : Covariance ℝ) :
      (recordIncrements h i s t).get p =
        (h.get p).push (momentIncrement p i.trial s) (momentIncrement p i.recursion t) := by
    rw [recordIncrements, Triple.get_ofFn]
    rfl
  rw [hrecord, hrecord, hh, hincrement hs htrial, hincrement ht hrecursion, History.push_scale]

/-- Every part of an iteration keeps beams and readings in proportion. -/
theorem resizing_kept (hc : 0 < c) (readings : List (Reading ℝ)) :
    (resizing c).Kept lineSource lineSource readings (readings.map (·.resize c)) where
  check := Reading.check_resize readings hc
  answer := by
    rintro line _ s t rfl hst
    -- The readings of both runs stand at the same places.
    have hpositions : (readings.map (·.resize c)).map (·.position) = readings.map (·.position) := by
      rw [List.map_map]
      rfl
    rw [hpositions]
    exact (line.mapsAt_resize hc hst _).mono (fun _ _ => .of_eq) fun _ _ => id
  behind := fun h _ => h
  observe := by
    rintro Ms _ ⟨rfl, -⟩
    exact (Observation.observe_resize Ms readings).mono (fun _ _ => .of_eq) fun _ _ => id
  residual := by
    rintro Ms _ s t ⟨rfl, hplanar⟩ hst
    exact .of_eq (hst.residual hc hplanar readings).symm .same
  relax := fun alpha h h' => h.relax h' alpha
  empty := by
    intro p
    rw [Histories.empty, Triple.get_ofFn]
    rfl
  record := fun hh hij hs ht => recordIncrements_resize hh hij.trial hij.recursion hs ht
  factor := by
    intro settings h h' hh
    -- Increments of moments have the factor squared, and candidates do not see it.
    rw [relaxation_congr settings fun p => ?_]
    rw [hh p]
    exact (h.get p).candidate_scale (by positivity) _
  cap := .notConverged

structure Resized (c : ℝ) (x y : Except (Fault ℝ) (Covariance ℝ) × Estimator ℝ (BeamLine ℝ)) :
    Prop where
  result : Alike Fault.SameKind (Covariance.Resizes c) x.1 y.1
  status : y.2.status = x.2.status
  begun : y.2.begun = x.2.begun
  alphas : y.2.alphas = x.2.alphas
  residual : y.2.residual = x.2.residual
  convergence : y.2.convergence = x.2.completed.head?.map fun i =>
    if i.trial.momentNorm = 0 then c ^ 2 * i.step else i.step

/-- The steps agree, except from a trial without moments, where the step is not relative to
anything. -/
theorem Likeness.Twins.step_resizing (hc : 0 < c) {i j : Iteration ℝ}
    (h : (resizing c).Twins i j) :
    j.step = if i.trial.momentNorm = 0 then c ^ 2 * i.step else i.step := by
  rw [h.step, h.step', Covariance.Resizes.relativeDistance hc h.next h.trial]

/-- The estimation of a beam of another size goes side by side with that of the beam, on every line and
from every first trial. The tolerance has to see the steps from trials without moments alike, which are
absolute. -/
theorem estimate_resized (hc : 0 < c) (e : Estimator ℝ (BeamLine ℝ))
    {initial initial' : Covariance ℝ} (hinitial : initial.Resizes c initial')
    (readings : List (Reading ℝ))
    (hdecide : ∀ i ∈ (estimate lineSource e initial readings).2.completed,
      i.trial.momentNorm = 0 →
        (i.step < e.settings.tolerance ↔ c ^ 2 * i.step < e.settings.tolerance)) :
    Resized c (estimate lineSource e initial readings)
      (estimate lineSource { e with source := e.source.resize c } initial'
        (readings.map (·.resize c))) := by
  -- A distance relative to moments does not see the factor, and on the others both runs decide
  -- alike.
  have hboth : ∀ i ∈ (estimate lineSource e initial readings).2.completed, ∀ j,
      (resizing c).Twins i j →
        (i.step < e.settings.tolerance ↔ j.step < e.settings.tolerance) := by
    intro i hi j htwins
    rw [htwins.step_resizing hc]
    split_ifs with hzero
    · exact hdecide i hi hzero
    · exact Iff.rfl
  obtain ⟨hresult, hbeside⟩ := Likeness.estimate_alike (d := { e with source := e.source.resize c })
    (resizing_kept hc readings) hinitial rfl rfl hboth
  exact ⟨hresult, hbeside.status.symm, hbeside.begun.symm, hbeside.alphas.symm,
    hbeside.residual.symm, hbeside.convergence fun _ _ h => h.step_resizing hc⟩

end Estimator

/-! ### A parallel beam in a drift -/

/-- The maps of a drift without space charge. -/
theorem BeamLine.mapsAt_drift {line : BeamLine ℝ} (hline : line.Built) {length : ℝ}
    (helements : line.elements = [.drift length]) (hfree : line.spaceCharge = none)
    (beam : Covariance ℝ) {ps : List ℝ} (hps : checkPositions line.length 0 ps = .ok ()) :
    line.mapsAt beam ps = .ok (ps.map fun z => PhaseMap.drift z line.probe.gamma) := by
  have hlength : 0 < length := by
    refine hline.length_pos (.drift length) ?_
    rw [helements]
    exact List.mem_singleton_self _
  have hcharge : line.charge beam = none := by
    rw [charge, hfree]
    rfl
  have hthrough : line.wayThrough none =
      .ok (PhaseMap.drift length line.probe.gamma, line.probe) := by
    have hsegment : driftSegment none length line.probe.gamma 0 length PhaseMap.identity =
        .ok (PhaseMap.drift length line.probe.gamma) := driftSegment_front _ hlength.le nofun
    rw [wayThrough, helements, through_cons]
    exact bind_eq_ok.mpr ⟨_, rfl, bind_eq_ok.mpr ⟨_, hsegment, rfl⟩⟩
  rw [mapsAt, hcharge]
  exact walk_front hline helements hthrough hps (fun _ _ => Or.inl rfl) fun _ hc => nomatch hc

section Spread

variable {t : ℝ}

/-- The equations of a plane behind drifts of lengths in equal steps, for readings of one. -/
noncomputable def spreadEquations (t : ℝ) : List (Vector ℝ 3 × ℝ) :=
  [0, t, 2 * t].map fun z => (#v[1, 2 * z, z ^ 2], 1)

noncomputable def spreadNormal (t : ℝ) : Mat ℝ 3 :=
  ⟨#v[#v[3, 6 * t, 5 * t ^ 2], #v[6 * t, 20 * t ^ 2, 18 * t ^ 3],
    #v[5 * t ^ 2, 18 * t ^ 3, 17 * t ^ 4]]⟩

theorem spreadNormal_eq (t : ℝ) :
    spreadNormal t = .ofSquares 3 (8 * t ^ 2) (2 / 3 * t ^ 4) (2 * t) (5 / 3 * t ^ 2) (1 * t) := by
  simp only [spreadNormal, Mat.ofSquares, Mat.mk.injEq]
  ring_nf

/-- The normal equations pass the pivot test, and their solution is the beam of parallel rays. -/
theorem spreadNormal_solve (h₀ : 1 / 16 ≤ t) (h₁ : t ≤ 1 / 4) :
    (spreadNormal t).solve #v[3, 6 * t, 5 * t ^ 2] = .ok #v[1, 0, 0] := by
  have hsolves : (spreadNormal t).Solves #v[1, 0, 0] #v[3, 6 * t, 5 * t ^ 2] := by
    intro i
    rw [Fin.sum_univ_three]
    fin_cases i <;> simp [spreadNormal, Mat.entry, Vector.get]
  rw [spreadNormal_eq] at hsolves ⊢
  exact Mat.solve_ofSquares_powers h₀ h₁ (by norm_num) (by norm_num) (by norm_num) (by norm_num)
    (by norm_num) (by norm_num) (by norm_num [Mat.negligiblePivot]) hsolves

open Observation in
theorem normalMatrix_spread : normalMatrix (spreadEquations t) = spreadNormal t := by
  apply Mat.ext_entry
  intro i j
  rw [normalMatrix_entry]
  fin_cases i <;> fin_cases j
  all_goals simp [spreadEquations, spreadNormal, Mat.entry, Vector.get]
  all_goals ring

open Observation in
theorem normalRhs_spread : normalRhs (spreadEquations t) = #v[3, 6 * t, 5 * t ^ 2] := by
  apply Vector.ext
  intro i hi
  have h := normalRhs_get (spreadEquations t) ⟨i, hi⟩
  refine h.trans ?_
  interval_cases i
  all_goals simp [spreadEquations, Vector.get]
  all_goals ring

noncomputable def shortDrift : BeamLine ℝ where
  probe := ⟨1, 1, 1⟩
  elements := [.drift (1 / 2)]

noncomputable def spreadReadings : List (Reading ℝ) :=
  [⟨"M1", 0, ⟨1, 1, 1⟩⟩, ⟨"M2", 1 / 4, ⟨1, 1, 1⟩⟩, ⟨"M3", 1 / 2, ⟨1, 1, 1⟩⟩]

noncomputable def spreadMaps : List (PhaseMap ℝ) := [0, 1 / 4, 1 / 2].map fun z => PhaseMap.drift z 2

noncomputable def parallelBeam : Covariance ℝ := .ofMoments ⟨⟨1, 0, 0⟩, ⟨1, 0, 0⟩, ⟨1, 0, 0⟩⟩

theorem shortDrift_built : shortDrift.Built := by
  refine .new (BeamLine.mk?_of_isPositive _ (List.cons_ne_nil _ _) fun e he => ?_)
  rw [List.mem_singleton.mp he, Element.length, Scalar.real_isPositive]
  norm_num

theorem mapsAt_shortDrift (beam : Covariance ℝ) :
    shortDrift.mapsAt beam (spreadReadings.map (·.position)) = .ok spreadMaps := by
  have hgamma : shortDrift.probe.gamma = 2 := by
    rw [shortDrift, Probe.gamma, Relativity.gamma, Scalar.real_one, div_one]
    exact one_add_one_eq_two
  have hps : BeamLine.checkPositions shortDrift.length 0 (spreadReadings.map (·.position)) =
      .ok () := by
    rw [BeamLine.checkPositions_eq_ok le_rfl, BeamLine.length_eq_sum]
    norm_num [shortDrift, spreadReadings, Element.length, BeamLine.positionSlack]
  rw [BeamLine.mapsAt_drift shortDrift_built rfl rfl beam hps, hgamma]
  rfl

open Observation in
theorem equations_spread {p : Plane} {t : ℝ}
    (h : ∀ z, (PhaseMap.drift z 2).block p = ⟨1, z * (4 * t), 0, 1⟩) :
    equations spreadMaps spreadReadings p = spreadEquations t := by
  have hmiddle : 1 / 4 * (4 * t) = t := by ring
  have hlast : 1 / 2 * (4 * t) = 2 * t := by ring
  have hsize : (⟨1, 1, 1⟩ : Triple ℝ).get p = 1 := by
    cases p <;> rfl
  refine (equations_drifts h spreadReadings).trans ?_
  simp only [spreadReadings, spreadEquations, List.map_cons, List.map_nil, hsize, zero_mul, hmiddle,
    hlast]

open Observation in
theorem observe_spread : observe spreadMaps spreadReadings = .ok parallelBeam := by
  have hplane (p : Plane) : planeMoments spreadMaps spreadReadings p = .ok ⟨1, 0, 0⟩ := by
    obtain ⟨share, hlower, hupper, hblock⟩ := PhaseMap.exists_block_drift one_le_two p
    have hshear (z : ℝ) : (PhaseMap.drift z 2).block p = ⟨1, z * (4 * (share / 4)), 0, 1⟩ := by
      rw [hblock, mul_div_cancel₀ _ four_ne_zero]
    norm_num at hlower
    unfold planeMoments
    dsimp only
    rw [equations_spread hshear, normalMatrix_spread, normalRhs_spread,
      spreadNormal_solve (by linarith) (by linarith)]
    rfl
  refine observe_eq_ok.mpr ⟨rfl, ⟨⟨1, 0, 0⟩, ⟨1, 0, 0⟩, ⟨1, 0, 0⟩⟩, fun p => ?_, rfl⟩
  rw [hplane]
  cases p <;> rfl

noncomputable def halfway : Settings ℝ := ⟨1, 1, 1 / 2, 0⟩

theorem halfway_check : halfway.check = .ok () := Settings.check_real.mpr (by norm_num [halfway])

theorem parallelBeam_step :
    (Covariance.zero.relax parallelBeam halfway.relaxationFloor).relativeDistance .zero =
      √3 / 2 := by
  have hnorm : parallelBeam.momentNorm = √3 := by
    change (Covariance.alike ⟨1, 0, 0⟩).momentNorm = _
    rw [Covariance.momentNorm_alike]
    norm_num
  rw [Covariance.relativeDistance_relax_zero, hnorm, halfway, abs_of_pos one_half_pos]
  ring

namespace Estimator

open Command

/-- The one iteration goes half of the way to the fit, and its step is near enough. -/
theorem estimate_shortDrift : ∃ g r residual,
    estimate lineSource (fresh shortDrift halfway) .zero spreadReadings =
      (.ok (Covariance.zero.relax parallelBeam halfway.relaxationFloor),
        ⟨g, halfway, .converged, 1, [firstIteration halfway .zero parallelBeam r],
          .empty planeMoments, some residual⟩) := by
  have haccepted : Reading.setFault? spreadReadings = none := by
    simp [Reading.setFault?, Reading.fewest, spreadReadings, Reading.fault?, Triple.toList]
  have hlength := length_of_observe observe_spread
  obtain ⟨r, hres⟩ := residual_isOk hlength
    (Covariance.zero.relax parallelBeam halfway.relaxationFloor)
  have hstep : (Covariance.zero.relax parallelBeam halfway.relaxationFloor).relativeDistance .zero <
      halfway.tolerance := by
    rw [parallelBeam_step, halfway, div_lt_one two_pos, Real.sqrt_lt' two_pos]
    norm_num
  have hanswer : (ask lineSource spreadReadings .zero (fresh shortDrift halfway)).1 =
      .ok spreadMaps := mapsAt_shortDrift .zero
  exact ⟨_, r, r, estimate_answered haccepted hanswer observe_spread rfl hres hstep
    (bind_eq_ok.mpr ⟨spreadMaps, mapsAt_shortDrift _, hres⟩)⟩

/-- The same beam in twice the size. The step from a trial without moments is four times as long, and
the run that was done behind its first iteration is not. -/
theorem estimate_doubled_shortDrift :
    shortDrift.Built ∧ halfway.check = .ok () ∧ Covariance.zero.Resizes 2 .zero ∧
      (∃ beam, (estimate lineSource (fresh shortDrift halfway) .zero spreadReadings).1 =
        .ok beam) ∧
      ∃ step, (estimate lineSource (fresh (shortDrift.resize 2) halfway) .zero
        (spreadReadings.map (·.resize 2))).1 = .error (.notConverged 1 step) := by
  obtain ⟨g, r, residual, hbase⟩ := estimate_shortDrift
  refine ⟨shortDrift_built, halfway_check, Covariance.zero_resizes 2, ⟨_, by rw [hbase]⟩, ?_⟩
  -- The larger readings are fitted through the same maps by the larger beam.
  have haccepted : Reading.setFault? (spreadReadings.map (·.resize 2)) = none := by
    simp [Reading.setFault?, Reading.fewest, spreadReadings, Reading.fault?, Triple.toList,
      Reading.resize, Triple.map]
  obtain ⟨fit, hfit, hresizes⟩ : ∃ fit, Observation.observe spreadMaps
      (spreadReadings.map (·.resize 2)) = .ok fit ∧ parallelBeam.Resizes 2 fit := by
    have hobserve := Observation.observe_resize (c := 2) spreadMaps spreadReadings
    rw [observe_spread] at hobserve
    obtain ⟨_, _, hnot, -⟩ | ⟨_, fit, hbeam, hfit, hresizes⟩ := hobserve.elim
    · cases hnot
    · cases hbeam
      exact ⟨fit, hfit, hresizes⟩
  obtain ⟨r', hres⟩ := residual_isOk (length_of_observe hfit)
    (Covariance.zero.relax fit halfway.relaxationFloor)
  have hanswer : (ask lineSource (spreadReadings.map (·.resize 2)) .zero
      (fresh (shortDrift.resize 2) halfway)).1 = .ok spreadMaps := mapsAt_shortDrift .zero
  have hi := iterate_answered hanswer hfit hres
  -- From a trial without moments the step is a length, and the larger beam makes it too long.
  have hstep : ¬ (firstIteration halfway .zero fit r').step < halfway.tolerance := by
    have hnext := (Covariance.zero_resizes 2).relax hresizes halfway.relaxationFloor
    have hlength := hnext.relativeDistance two_pos (Covariance.zero_resizes 2)
    rw [if_pos Covariance.momentNorm_zero, parallelBeam_step] at hlength
    have hroot : 1 ≤ √3 := Real.one_le_sqrt.mpr (by norm_num)
    change ¬ (Covariance.zero.relax fit halfway.relaxationFloor).relativeDistance .zero < 1
    rw [hlength]
    linarith
  have hend := estimate_error (e := fresh (shortDrift.resize 2) halfway) haccepted
    (run_capped hi hstep)
  exact ⟨_, congrArg Prod.fst hend⟩

/-- The run on the short drift and the run for a beam half as large. -/
theorem estimate_resized_shortDrift :
    (0 : ℝ) < 1 / 2 ∧ Covariance.zero.Resizes (1 / 2) .zero ∧
      (∀ i ∈ (estimate lineSource (fresh shortDrift halfway) .zero spreadReadings).2.completed,
        i.trial.momentNorm = 0 →
          (i.step < halfway.tolerance ↔ (1 / 2) ^ 2 * i.step < halfway.tolerance)) ∧
      Resized (1 / 2) (estimate lineSource (fresh shortDrift halfway) .zero spreadReadings)
        (estimate lineSource (fresh (shortDrift.resize (1 / 2)) halfway) .zero
          (spreadReadings.map (·.resize (1 / 2)))) := by
  obtain ⟨g, r, residual, hbase⟩ := estimate_shortDrift
  have hdecide : ∀ i ∈ (estimate lineSource (fresh shortDrift halfway) .zero
      spreadReadings).2.completed, i.trial.momentNorm = 0 →
        (i.step < halfway.tolerance ↔ (1 / 2) ^ 2 * i.step < halfway.tolerance) := by
    intro i hi _
    rw [hbase] at hi
    obtain rfl := List.mem_singleton.mp hi
    -- The step is below the tolerance, and so is a quarter of it.
    have hstep : (firstIteration halfway .zero parallelBeam r).step = √3 / 2 := parallelBeam_step
    have hroot : √3 < 2 := (Real.sqrt_lt' two_pos).mpr (by norm_num)
    have hnonneg := Real.sqrt_nonneg 3
    rw [hstep, halfway]
    constructor
    · intro _
      linarith
    · intro _
      linarith
  have hpos : (0 : ℝ) < 1 / 2 := by norm_num
  exact ⟨hpos, Covariance.zero_resizes _, hdecide,
    estimate_resized hpos (fresh shortDrift halfway) (Covariance.zero_resizes _) spreadReadings hdecide⟩

end Estimator

end Spread

end BeamOptics
