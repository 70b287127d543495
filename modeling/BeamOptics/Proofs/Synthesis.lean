import BeamOptics.Proofs.FreshRuns
import BeamOptics.Proofs.LeastSquares
import BeamOptics.Proofs.LongitudinalArea
import BeamOptics.Proofs.Residuals

/-! Readings that a beam gives itself. They satisfy the equations of the observation exactly, so a
fit through the same maps is the beam, and a run that starts at the beam ends there behind its first
iteration. -/

namespace BeamOptics

/-- A list is worked through exactly if each of its members is. -/
theorem mapM_eq_ok {α β ε : Type} {f : α → Except ε β} {xs : List α} {ys : List β} :
    xs.mapM f = .ok ys ↔ List.Forall₂ (fun x y => f x = .ok y) xs ys := by
  induction xs generalizing ys with
  | nil =>
    rw [List.mapM_nil, pure_eq_ok, List.forall₂_nil_left_iff, eq_comm]
  | cons x xs ih =>
    rw [List.mapM_cons, bind_eq_ok, List.forall₂_cons_left_iff]
    apply exists_congr
    intro y
    rw [bind_eq_ok]
    constructor
    · rintro ⟨hy, zs, hzs, he⟩
      cases pure_eq_ok.mp he
      exact ⟨zs, hy, ih.mp hzs, rfl⟩
    · rintro ⟨zs, hy, hzs, rfl⟩
      exact ⟨hy, zs, ih.mpr hzs, rfl⟩

/-- A reading is accepted exactly if its sizes are positive. -/
theorem Reading.mk?_eq_ok {location : String} {position : ℝ} {sizes : Triple ℝ} {r : Reading ℝ} :
    Reading.mk? location position sizes = .ok r ↔
      r = ⟨location, position, sizes⟩ ∧ ∀ p, 0 < sizes.get p := by
  have hplanes : (∀ p, 0 < sizes.get p) ↔ 0 < sizes.x ∧ 0 < sizes.y ∧ 0 < sizes.z := by
    constructor
    · intro h
      exact ⟨h .horizontal, h .vertical, h .longitudinal⟩
    · rintro ⟨hx, hy, hz⟩ p
      cases p with
      | horizontal => exact hx
      | vertical => exact hy
      | longitudinal => exact hz
  -- Places are real numbers here, so that only a size can be at fault.
  have hfault : (⟨location, position, sizes⟩ : Reading ℝ).fault? = none ↔
      ∀ p, 0 < sizes.get p := by
    rw [hplanes]
    simp [fault?, Triple.toList]
  rw [← hfault]
  unfold mk?
  dsimp only
  cases (⟨location, position, sizes⟩ : Reading ℝ).fault? with
  | none => simp [eq_comm]
  | some cause => simp

theorem Reading.sizes_pos {readings : List (Reading ℝ)} (h : setFault? readings = none) :
    ∀ r ∈ readings, ∀ p, 0 < r.sizes.get p := by
  intro r hr
  unfold setFault? at h
  split_ifs at h
  have hfault : r.fault? = none := List.findSome?_eq_none_iff.mp h r hr
  have hmk : mk? r.location r.position r.sizes = .ok r := by
    unfold mk?
    dsimp only
    rw [hfault]
  exact (mk?_eq_ok.mp hmk).2

def Covariance.Gives (beam : Covariance ℝ) (maps : List (PhaseMap ℝ))
    (readings : List (Reading ℝ)) : Prop :=
  List.Forall₂ (fun M r => r.sizes = (beam.propagate M).sizes ∧ ∀ p, 0 < r.sizes.get p) maps readings

namespace Covariance

variable {beam : Covariance ℝ} {maps : List (PhaseMap ℝ)} {positions : List ℝ}
  {readings : List (Reading ℝ)}

/-- Readings made from sizes behind maps are given by the beam, at the positions asked for. -/
theorem gives_of_mapM {k : ℕ} (hlength : maps.length = positions.length)
    (h : (((beam.envelope maps).zip positions).zipIdx k).mapM (fun ((sizes, position), i) =>
      Reading.mk? ("M" ++ toString i) position sizes) = .ok readings) :
    beam.Gives maps readings ∧ readings.map (·.position) = positions := by
  rw [mapM_eq_ok] at h
  -- The induction is on maps and positions together; the places count on.
  induction maps generalizing positions readings k with
  | nil =>
    cases List.eq_nil_of_length_eq_zero hlength.symm
    cases h
    exact ⟨.nil, rfl⟩
  | cons M maps ih =>
    cases positions with
    | nil => cases hlength
    | cons position positions =>
      obtain ⟨r, rest, hr, hrest, rfl⟩ := List.forall₂_cons_left_iff.mp h
      obtain ⟨rfl, hpos⟩ := Reading.mk?_eq_ok.mp hr
      obtain ⟨hgives, hpositions⟩ := ih (Nat.succ.inj hlength) hrest
      exact ⟨.cons ⟨rfl, hpos⟩ hgives, congrArg (position :: ·) hpositions⟩

theorem gives_of_synthesize (h : beam.synthesize maps positions = .ok readings) :
    beam.Gives maps readings ∧ readings.map (·.position) = positions := by
  unfold synthesize at h
  split_ifs at h with hlength
  exact gives_of_mapM (not_not.mp hlength) h

/-- A beam has no residual at the readings that it gives. -/
theorem Gives.residual (h : beam.Gives maps readings) : beam.residual maps readings = .ok 0 := by
  rw [residual_eq_zero_iff_misfit h.length_eq]
  rintro ⟨M, r⟩ hmem
  obtain ⟨hsizes, hpos⟩ := (List.forall₂_iff_zip.mp h).2 hmem
  exact (misfit_eq_zero_iff hpos).mpr hsizes.symm

end Covariance

namespace Observation

open Covariance

variable {beam : Covariance ℝ} {m : Triple (Moments ℝ)} {maps : List (PhaseMap ℝ)}
  {readings : List (Reading ℝ)}

/-- The moments of a beam satisfy the equations of the readings that it gives. -/
theorem equations_of_gives (hmaps : ∀ M ∈ maps, M.Planar)
    (h : (Covariance.ofMoments m).Gives maps readings) (p : Plane) :
    ∀ e ∈ equations maps readings p,
      ∑ j, e.1.get j * (momentVector (m.get p)).get j = e.2 * e.2 := by
  intro e he
  rw [equations_eq_map] at he
  obtain ⟨⟨M, r⟩, hmem, rfl⟩ := List.mem_map.mp he
  obtain ⟨hsizes, hpos⟩ := (List.forall₂_iff_zip.mp h).2 hmem
  obtain ⟨b, rfl⟩ := hmaps M (List.of_mem_zip hmem).1
  have hsize : r.sizes.get p =
      ((Covariance.ofMoments m).propagate (PhaseMap.ofBlocks b)).rmsSize p := by
    rw [hsizes, Covariance.sizes, Triple.get_ofFn]
  change ∑ j, (row (PhaseMap.ofBlocks b) p).get j * (momentVector (m.get p)).get j =
    r.sizes.get p * r.sizes.get p
  rw [hsize, Covariance.sq_rmsSize (hsize ▸ hpos p), Covariance.block_propagate_a, row,
    PhaseMap.block_ofBlocks, Fin.sum_univ_three]
  rfl

/-- The moments of a plane are recovered from the sizes that they give. -/
theorem planeMoments_of_gives (hmaps : ∀ M ∈ maps, M.Planar)
    (h : (Covariance.ofMoments m).Gives maps readings) {p : Plane} {found : Moments ℝ}
    (hfound : planeMoments maps readings p = .ok found) : found = m.get p := by
  have hsolves := normal_solves (equations_of_gives hmaps h p)
  apply momentVector_injective
  exact ((Mat.solves_iff_of_solve (planeMoments_eq_ok.mp hfound) _).mp hsolves).symm

/-- A fit through the maps that the readings were made with is the beam that gave them. -/
theorem observe_of_gives (hbeam : beam.Uncoupled) (hmaps : ∀ M ∈ maps, M.Planar)
    (h : beam.Gives maps readings) {fit : Covariance ℝ} (hfit : observe maps readings = .ok fit) :
    fit = beam := by
  rw [hbeam.eq_ofMoments] at h ⊢
  obtain ⟨-, m, hm, rfl⟩ := observe_eq_ok.mp hfit
  congr 1
  exact Triple.ext_get fun p => planeMoments_of_gives hmaps h (hm p)

theorem zeroCurrent_eq_ok {fit : Covariance ℝ} :
    zeroCurrent maps readings = .ok fit ↔
      Reading.setFault? readings = none ∧ observe maps readings = .ok fit := by
  unfold zeroCurrent
  rw [bind_eq_ok]
  unfold Reading.check
  cases Reading.setFault? readings with
  | none => simp
  | some cause => simp

end Observation

/-! ### A run that starts at the beam -/

inductive MapSource.Reached {K G : Type} (source : MapSource K G) (start : G) : G → Prop
  | start : Reached source start start
  | call {g : G} (before : Reached source start g) (trial : Covariance K) (positions : List K) :
      Reached source start (source.maps g trial positions).2

namespace Estimator

variable {G : Type} {beam : Covariance ℝ} {maps : List (PhaseMap ℝ)} {positions : List ℝ}
  {readings : List (Reading ℝ)}

/-- The run came to the beam in its first iteration, without a step and without a residual. -/
structure AtOnce (after : Estimator ℝ G) (beam : Covariance ℝ) : Prop where
  status : after.status = .converged
  begun : after.begun = 1
  completed : after.completed.length = 1
  covariance : after.covariance = some beam
  convergence : after.convergence = some 0
  residual : after.residual = some 0

/-- A run from a beam that is the fit through its own maps ends there, behind its first iteration. -/
theorem estimate_of_fit {source : MapSource ℝ G} {e : Estimator ℝ G} (hbeam : beam.Uncoupled)
    (hr : Reading.setFault? readings = none) (hobs : Observation.observe maps readings = .ok beam)
    (he : e.settings.check = .ok ())
    (hsource : ∀ g, source.Reached e.source g →
      (source.maps g beam (readings.map (·.position))).1 = .ok maps)
    {residual : ℝ} (hres : beam.residual maps readings = .ok residual) :
    ∃ g, estimate source e beam readings =
      (.ok beam, ⟨g, e.settings, .converged, 1, [firstIteration e.settings beam beam residual],
        .empty planeMoments, some residual⟩) := by
  obtain ⟨-, htolerance, -⟩ := Settings.check_real.mp he
  have hnone : beam.relativeDistance beam = 0 := Covariance.relativeDistance_self beam
  have hnext : beam.relax beam e.settings.relaxationFloor = beam := hbeam.relax_self _
  have hstep : beam.relativeDistance beam < e.settings.tolerance := hnone ▸ htolerance
  -- Both calls of the source are for the beam itself: the first trial is not left.
  have hfirst : (ask source readings beam (fresh e.source e.settings)).1 = .ok maps :=
    hsource _ .start
  have hlast := hsource _ (.call .start beam (readings.map (·.position)))
  rw [estimate_eq_fresh]
  exact ⟨_, estimate_answered hr hfirst hobs hnext hres hstep
    (bind_eq_ok.mpr ⟨maps, hlast, hres⟩)⟩

/-- A run from the beam through the maps that the readings were made with. -/
theorem estimate_of_gives {source : MapSource ℝ G} {e : Estimator ℝ G} (hbeam : beam.Uncoupled)
    (hgives : beam.Gives maps readings) (hr : Reading.setFault? readings = none)
    (hobs : Observation.observe maps readings = .ok beam) (he : e.settings.check = .ok ())
    (hsource : ∀ g, source.Reached e.source g →
      (source.maps g beam (readings.map (·.position))).1 = .ok maps) :
    (estimate source e beam readings).1 = .ok beam ∧
      AtOnce (estimate source e beam readings).2 beam := by
  have hnext : beam.relax beam e.settings.relaxationFloor = beam := hbeam.relax_self _
  obtain ⟨g, hend⟩ := estimate_of_fit hbeam hr hobs he hsource hgives.residual
  rw [hend]
  refine ⟨rfl, rfl, rfl, rfl, congrArg some hnext, ?_, rfl⟩
  change some ((beam.relax beam e.settings.relaxationFloor).relativeDistance beam) = some 0
  rw [hnext, Covariance.relativeDistance_self]

/-- From the readings that a beam gives itself, the fit and the estimator give the beam back. -/
theorem estimate_synthesized {fit : Covariance ℝ} (hbeam : beam.Uncoupled)
    (hmaps : ∀ M ∈ maps, M.Planar) (hreadings : beam.synthesize maps positions = .ok readings)
    (hfit : Observation.zeroCurrent maps readings = .ok fit) :
    fit = beam ∧
      ∀ {G : Type} (source : MapSource ℝ G) (e : Estimator ℝ G), e.settings.check = .ok () →
        (∀ g, source.Reached e.source g → (source.maps g beam positions).1 = .ok maps) →
        (estimate source e beam readings).1 = .ok beam ∧
          AtOnce (estimate source e beam readings).2 beam := by
  obtain ⟨hgives, hpositions⟩ := Covariance.gives_of_synthesize hreadings
  obtain ⟨hr, hobs⟩ := Observation.zeroCurrent_eq_ok.mp hfit
  have hback : fit = beam := Observation.observe_of_gives hbeam hmaps hgives hobs
  refine ⟨hback, fun source e he hsource => ?_⟩
  rw [hback] at hobs
  rw [← hpositions] at hsource
  exact estimate_of_gives hbeam hgives hr hobs he hsource

theorem quarterTurn_planar : ∀ M ∈ quarterTurn, M.Planar := by
  intro M hM
  obtain ⟨b, -, rfl⟩ := List.mem_map.mp hM
  exact ⟨_, rfl⟩

/-- The turn and the drift show the beam at the size one in each plane. -/
theorem synthesize_quarterTurn :
    unitBeam.synthesize quarterTurn [0, 1, 2] = .ok unitReadings := by
  have hmk (location : String) (position : ℝ) : Reading.mk? location position ⟨1, 1, 1⟩ =
      .ok ⟨location, position, ⟨1, 1, 1⟩⟩ := by
    refine Reading.mk?_eq_ok.mpr ⟨rfl, fun p => ?_⟩
    cases p <;> exact one_pos
  -- Behind each of the maps the quadratic form of the moments is one.
  have hsizes (b : Block ℝ) (hb : b.a * b.a * 1 + 2 * b.a * b.b * (-1 / 2) + b.b * b.b * 1 = 1) :
      (unitBeam.propagate (PhaseMap.ofBlocks ⟨b, b, b⟩)).sizes = ⟨1, 1, 1⟩ := by
    have ha (p : Plane) : ((unitBeam.propagate (PhaseMap.ofBlocks ⟨b, b, b⟩)).block p).a = 1 := by
      rw [unitBeam, Covariance.block_propagate_a]
      cases p <;> exact hb
    apply Triple.ext_get
    intro p
    rw [Covariance.sizes, Triple.get_ofFn, Covariance.rmsSize, ha]
    cases p <;> simp [Triple.get]
  have henvelope : unitBeam.envelope quarterTurn = [⟨1, 1, 1⟩, ⟨1, 1, 1⟩, ⟨1, 1, 1⟩] := by
    simp only [Covariance.envelope, quarterTurn, List.map_cons, List.map_nil]
    rw [hsizes _ (by norm_num), hsizes _ (by norm_num), hsizes _ (by norm_num)]
  have hlength : ¬ quarterTurn.length ≠ [(0 : ℝ), 1, 2].length := by simp [quarterTurn]
  rw [Covariance.synthesize, if_neg hlength, henvelope]
  exact mapM_eq_ok.mpr (.cons (hmk "M1" 0) (.cons (hmk "M2" 1) (.cons (hmk "M3" 2) .nil)))

/-- The run that starts with the beam itself. -/
theorem estimate_synthesized_quarterTurn :
    unitBeam.Uncoupled ∧ (∀ M ∈ quarterTurn, M.Planar) ∧
      unitBeam.synthesize quarterTurn [0, 1, 2] = .ok unitReadings ∧
      Observation.zeroCurrent quarterTurn unitReadings = .ok unitBeam ∧
      (estimate (.steady quarterTurn) (fresh () coarse) unitBeam unitReadings).1 = .ok unitBeam ∧
      AtOnce (estimate (.steady quarterTurn) (fresh () coarse) unitBeam unitReadings).2
        unitBeam := by
  have hbeam : unitBeam.Uncoupled := Covariance.uncoupled_ofMoments _
  have hfit : Observation.zeroCurrent quarterTurn unitReadings = .ok unitBeam :=
    Observation.zeroCurrent_eq_ok.mpr ⟨unitReadings_setFault, observe_quarterTurn⟩
  obtain ⟨-, hrun⟩ := estimate_synthesized hbeam quarterTurn_planar synthesize_quarterTurn hfit
  exact ⟨hbeam, quarterTurn_planar, synthesize_quarterTurn, hfit,
    hrun (.steady quarterTurn) (fresh () coarse) coarse_check fun _ _ => rfl⟩

end Estimator

/-! ### The readings of a line -/

section Line

variable {charged : Option (ChargedBeam ℝ)} {formula : LongitudinalFormula} {probe exit : Probe ℝ}
  {e : Element ℝ} {es : List (Element ℝ)} {acc M : PhaseMap ℝ} {y z : ℝ}
  {segment : ℝ → ℝ → PhaseMap ℝ → Except (Fault ℝ) (PhaseMap ℝ)}

theorem PhaseMap.planar_iff : M.Planar ↔ ∃ a, M.HasArea a :=
  ⟨fun ⟨b, hb⟩ => ⟨_, b, hb, rfl⟩, fun ⟨_, b, hb, _⟩ => ⟨b, hb⟩⟩

theorem Element.rule_planar (hrule : e.rule charged formula probe = .ok (segment, exit))
    (hacc : acc.Planar) (hM : segment y z acc = .ok M) : M.Planar := by
  cases e with
  | drift length =>
    cases hrule
    obtain ⟨a, ha⟩ := PhaseMap.planar_iff.mp hacc
    exact PhaseMap.planar_iff.mpr ⟨a, driftSegment_hasArea ha hM⟩
  | gap model drive =>
    obtain ⟨profile, -, hr⟩ := map_eq_ok.mp hrule
    cases hr
    cases hM
    obtain ⟨b, rfl⟩ := hacc
    exact ⟨_, PhaseMap.ofBlocks_mul _ b⟩

namespace BeamLine

/-- Every way along a line acts plane by plane. -/
theorem reach_planar (hacc : acc.Planar) (hM : reach charged formula es probe z acc = .ok M) :
    M.Planar := by
  induction es generalizing probe z acc with
  | nil =>
    cases hM
    exact hacc
  | cons e es ih =>
    by_cases hhere : es = [] ∨ z ≤ e.length
    · rw [reach_here hhere] at hM
      obtain ⟨⟨segment, exit⟩, hrule, hM⟩ := bind_eq_ok.mp hM
      exact Element.rule_planar hrule hacc hM
    · rw [reach_later hhere] at hM
      obtain ⟨⟨segment, exit⟩, hrule, hM⟩ := bind_eq_ok.mp hM
      obtain ⟨N, hN, hM⟩ := bind_eq_ok.mp hM
      exact ih (Element.rule_planar hrule hacc hN) hM

/-- The maps of a line act in each plane for itself. -/
theorem walk_planar {line : BeamLine ℝ} (hline : line.Built) {ps : List ℝ}
    {Ms : List (PhaseMap ℝ)} (h : line.walk charged ps = .ok Ms) : ∀ M ∈ Ms, M.Planar := by
  obtain ⟨-, hways⟩ := (walk_eq_ok hline (checkPositions_of_walk h)).mp h
  obtain ⟨hlength, hway⟩ := List.forall₂_iff_get.mp hways
  intro M hM
  obtain ⟨i, hi, rfl⟩ := List.getElem_of_mem hM
  exact reach_planar ⟨_, PhaseMap.ofBlocks_identity.symm⟩ (hway i (hlength ▸ hi) hi)

/-- The fit through the maps of a line gives the beam back that made the readings on it. -/
theorem observe_synthesized {line : BeamLine ℝ} (hline : line.Built) {beam fit : Covariance ℝ}
    (hbeam : beam.Uncoupled) {ps : List ℝ} {Ms : List (PhaseMap ℝ)} {readings : List (Reading ℝ)}
    (hMs : line.walk charged ps = .ok Ms) (hreadings : beam.synthesize Ms ps = .ok readings)
    (hfit : Observation.observe Ms readings = .ok fit) : fit = beam :=
  Observation.observe_of_gives hbeam (walk_planar hline hMs)
    (Covariance.gives_of_synthesize hreadings).1 hfit

end BeamLine

end Line

end BeamOptics
