import BeamOptics.Proofs.MomentumLaw
import BeamOptics.Proofs.RealBeam

/-! Space charge on beams whose blocks are positive definite. Drifts, kicks and gaps turn no plane
over, so the map so far has a first row in every plane and the beam a positive size behind it. Every
kick has a strength then, and nothing but a field without samples can stop a walk. -/

namespace BeamOptics

namespace Block

def PositiveDefinite (m : Block ℝ) : Prop := ∀ u v : ℝ, u ≠ 0 ∨ v ≠ 0 → 0 < m.form u v

/-- For a symmetric block these are the two minors. -/
theorem positiveDefinite_iff {m : Block ℝ} (hm : m.b = m.c) :
    m.PositiveDefinite ↔ 0 < m.a ∧ 0 < m.det := by
  have hform (u v : ℝ) : m.a * m.form u v = (m.a * u + m.b * v) ^ 2 + m.det * v ^ 2 := by
    rw [form, det, hm]
    ring
  constructor
  · intro h
    have ha : 0 < m.a := by simpa [form] using h 1 0 (Or.inl one_ne_zero)
    refine ⟨ha, ?_⟩
    -- At the vertical tangent of the ellipse only the determinant is left.
    have hpos := mul_pos ha (h (-m.b) m.a (Or.inr ha.ne'))
    have hcancel : m.a * -m.b + m.b * m.a = 0 := by ring
    rw [hform, hcancel, zero_pow two_ne_zero, zero_add] at hpos
    exact pos_of_mul_pos_left hpos (sq_nonneg _)
  · rintro ⟨ha, hdet⟩ u v huv
    refine pos_of_mul_pos_right ?_ ha.le
    rw [hform]
    by_cases hv : v = 0
    · have hu : u ≠ 0 := huv.resolve_right (not_not.mpr hv)
      rw [hv]
      have hau : 0 < (m.a * u) ^ 2 := by positivity
      linarith
    · have hv2 : 0 < m.det * v ^ 2 := by positivity
      nlinarith [sq_nonneg (m.a * u + m.b * v)]

/-- A block with a positive determinant has a first row. -/
theorem row_ne_zero {m : Block ℝ} (h : 0 < m.det) : m.a ≠ 0 ∨ m.b ≠ 0 := by
  by_contra! hzero
  rw [det, hzero.1, hzero.2, zero_mul, zero_mul, sub_zero] at h
  exact lt_irrefl 0 h

end Block

namespace PhaseMap

def KeepsOrientation (M : PhaseMap ℝ) : Prop :=
  ∃ b : Triple (Block ℝ), M = ofBlocks b ∧ ∀ p, 0 < (b.get p).det

namespace KeepsOrientation

variable {M N : PhaseMap ℝ}

theorem mul (hM : M.KeepsOrientation) (hN : N.KeepsOrientation) : (M * N).KeepsOrientation := by
  obtain ⟨m, rfl, hm⟩ := hM
  obtain ⟨n, rfl, hn⟩ := hN
  refine ⟨_, ofBlocks_mul m n, fun p => ?_⟩
  have hdet := mul_pos (hm p) (hn p)
  rw [← Block.det_mul] at hdet
  cases p <;> exact hdet

theorem identity : (identity : PhaseMap ℝ).KeepsOrientation := by
  refine ⟨_, ofBlocks_identity.symm, fun p => ?_⟩
  cases p <;> exact Block.det_identity ▸ one_pos

theorem drift (length gamma : ℝ) : (drift length gamma).KeepsOrientation := by
  refine ⟨_, rfl, fun p => ?_⟩
  cases p <;> simp [Triple.get, Block.det]

end KeepsOrientation

end PhaseMap

/-! ### Kicks and drifts -/

/-- The blocks of moments in all planes are positive definite. Couplings between planes and the
centroid may be any. -/
def Covariance.Physical (beam : Covariance ℝ) : Prop := ∀ p, (beam.block p).PositiveDefinite

section Motion

variable {beam : Covariance ℝ} {model : SpaceCharge ℝ} {M acc : PhaseMap ℝ}

/-- A physical beam has a local size in every plane behind every map that keeps the orientation. -/
theorem SpaceCharge.localSizes_ok (hbeam : beam.Physical) (hM : M.KeepsOrientation) :
    ∃ sizes, localSizes (beam.propagate M) = .ok sizes := by
  obtain ⟨b, rfl, hb⟩ := hM
  have hpos (p : Plane) :
      0 < (beam.propagate (PhaseMap.ofBlocks b)).matrix.entry p.position p.position := by
    have hform := hbeam p _ _ (Block.row_ne_zero (hb p))
    rw [← Covariance.block_propagate_form] at hform
    exact hform
  have hnone : Plane.all.find? (fun p => !Scalar.isPositive ((Triple.ofFn fun q : Plane =>
      Scalar.sqrt ((beam.propagate (PhaseMap.ofBlocks b)).matrix.entry q.position q.position)).get
        p)) = none := by
    rw [List.find?_eq_none]
    intro p _
    simpa using hpos p
  unfold localSizes
  dsimp only
  rw [hnone]
  exact ⟨_, rfl⟩

/-- A kick on a physical beam is found, and it keeps the orientation. -/
theorem SpaceCharge.kick_ok (hbeam : beam.Physical) (hM : M.KeepsOrientation) (length : ℝ) :
    ∃ kick, model.kick (beam.propagate M) length = .ok kick ∧ kick.KeepsOrientation := by
  obtain ⟨sizes, hsizes⟩ := localSizes_ok hbeam hM
  refine ⟨_, bind_eq_ok.mpr ⟨sizes, hsizes, rfl⟩, _, rfl, fun p => ?_⟩
  cases p <;> simp [Triple.get, Block.det]

theorem kickedDrift_ok (hbeam : beam.Physical) (hacc : acc.KeepsOrientation)
    (slicing : Slicing ℝ) (gamma : ℝ) (n j : ℕ) (z : ℝ) :
    ∃ r, kickedDrift ⟨beam, model⟩ slicing gamma n j z acc = .ok r ∧ r.1.KeepsOrientation := by
  induction n generalizing j z acc with
  | zero => exact ⟨_, rfl, hacc⟩
  | succ n ih =>
    -- Free motion keeps the orientation, so the beam in front of the kick has positive sizes.
    have hfree := (PhaseMap.KeepsOrientation.drift (slicing.center j - z) gamma).mul hacc
    obtain ⟨kick, hkick, hkeeps⟩ := SpaceCharge.kick_ok hbeam hfree slicing.length
    obtain ⟨r, hr, hlast⟩ := ih (hkeeps.mul hfree) (j + 1) (slicing.center j)
    exact ⟨r, bind_eq_ok.mpr ⟨kick, hkick, hr⟩, hlast⟩

def PhysicallyCharged (charged : Option (ChargedBeam ℝ)) : Prop :=
  ∀ c ∈ charged, c.beam.Physical

theorem physicallyCharged_none : PhysicallyCharged none := by
  intro c hc
  cases hc

/-- A drift lets a physical beam through. -/
theorem driftSegment_ok {charged : Option (ChargedBeam ℝ)} (hcharged : PhysicallyCharged charged)
    (hacc : acc.KeepsOrientation) (length gamma y z : ℝ) :
    ∃ M, driftSegment charged length gamma y z acc = .ok M ∧ M.KeepsOrientation := by
  rcases le_or_gt z y with hzy | hyz
  · exact ⟨acc, driftSegment_self charged length gamma hzy acc, hacc⟩
  cases charged with
  | none =>
    exact ⟨_, driftSegment_uncharged length gamma hyz acc,
      (PhaseMap.KeepsOrientation.drift _ gamma).mul hacc⟩
  | some c =>
    obtain ⟨r, hr, hkeeps⟩ : ∃ r, kickedDrift c (Slicing.of length c.model.sliceLength) gamma
        ((Slicing.of length c.model.sliceLength).kicksBetween y z)
        ((Slicing.of length c.model.sliceLength).kicksUpTo y) y acc = .ok r ∧
          r.1.KeepsOrientation :=
      kickedDrift_ok (hcharged c rfl) hacc _ gamma _ _ y
    rw [driftSegment_charged c length gamma hyz acc rfl]
    exact ⟨_, map_eq_ok.mpr ⟨r, hr, rfl⟩, (PhaseMap.KeepsOrientation.drift _ gamma).mul hkeeps⟩

end Motion

/-! ### Gaps -/

theorem Passage.rangeBlocks_det_pos {step : ℕ → Block ℝ × Block ℝ}
    (hstep : ∀ k, 0 < (step k).1.det ∧ 0 < (step k).2.det) (ks : List ℕ) :
    0 < (rangeBlocks step ks).1.det ∧ 0 < (rangeBlocks step ks).2.det := by
  induction ks using List.reverseRecOn with
  | nil => simp [rangeBlocks, Block.det_identity]
  | append_singleton ks k ih =>
    rw [rangeBlocks_concat, Block.det_mul, Block.det_mul]
    exact ⟨mul_pos (hstep k).1 ih.1, mul_pos (hstep k).2 ih.2⟩

/-- The field of a step is an exponential and its drifts are shears, so its blocks turn no plane
over. -/
theorem Passage.transportStep_det_pos (p : Passage ℝ) (k : ℕ) :
    0 < (p.transportStep k).1.det ∧ 0 < (p.transportStep k).2.det := by
  rw [(p.transportStep_det_eq k).1, (p.transportStep_det_eq k).2, fieldStep, Block.det_exp,
    Block.det_exp]
  exact ⟨Real.exp_pos _, Real.exp_pos _⟩

/-- Transport in a gap turns no plane over, because exponentials and drifts have positive
determinants. -/
theorem Passage.transportBetween_keepsOrientation (p : Passage ℝ) (y z : ℝ) :
    (p.transportBetween y z).KeepsOrientation := by
  obtain ⟨htransverse, hlongitudinal⟩ := rangeBlocks_det_pos p.transportStep_det_pos
    (List.range' (p.profile.indexOf y)
      (min (p.profile.indexOf z) p.lastIndex - p.profile.indexOf y))
  refine ⟨_, compose_eq p p.transportStep _ _, fun q => ?_⟩
  cases q with
  | horizontal => exact htransverse
  | vertical => exact htransverse
  | longitudinal => exact hlongitudinal

namespace Profile

theorem indexOf_lt (p : Profile ℝ) (z : ℝ) : p.indexOf z < p.size := by
  have hsize := p.two_le_size
  have hlast := p.indexOf_le z
  omega

/-- Two or more samples can be spread over any positive length. -/
theorem exists_uniform {length : ℝ} (hlength : 0 < length) {samples : Array ℝ}
    (hsamples : 2 ≤ samples.size) : ∃ p, uniform length samples = .ok p := by
  have hsteps : 0 < ((samples.size - 1 : ℕ) : ℝ) := by
    exact_mod_cast (by omega : 0 < samples.size - 1)
  unfold uniform
  rw [if_neg (by simpa using hlength), if_neg (not_lt.mpr hsamples)]
  refine ⟨_, mk?_accepted ?_⟩
  apply fault?_of_equal_steps (div_pos hlength hsteps) (by simp) hsamples
  intro i hi
  have hin : i < samples.size := by simpa using hi
  simp [hin]
  ring

end Profile

theorem FieldModel.exists_profileFor_transitFit {fit : TransitFit ℝ} (hlength : 0 < fit.length)
    (probe : Probe ℝ) : ∃ profile, (transitFit fit).profileFor probe = .ok profile :=
  Profile.exists_uniform hlength le_rfl

/-- A field on a positive length has a profile, unless the machine cannot address its table. -/
theorem FieldModel.profileFor_error {model : FieldModel ℝ} (hlength : 0 < model.length)
    {probe : Probe ℝ} {f : Fault ℝ} (h : model.profileFor probe = .error f) : f = .indexRange := by
  cases model with
  | sampled profile => cases h
  | transitFit fit =>
    obtain ⟨profile, hprofile⟩ := exists_profileFor_transitFit hlength probe
    cases hprofile.symm.trans h
  | multiCell cell cells =>
    -- Either the count of the samples is refused, or they make a profile.
    rw [profileFor] at h
    split_ifs at h with hcells
    · cases h
      rfl
    rcases bind_eq_error.mp h with hcount | ⟨_, -, huniform⟩
    · unfold Index.ofCount at hcount
      split_ifs at hcount
      cases hcount
      rfl
    · -- A cell has a step, so there are two samples or more.
      have hsamples : 2 ≤ (cell.size - 1) * cells + 1 := by
        have hcell := cell.two_le_size
        have hmany : 1 ≤ (cell.size - 1) * cells :=
          Nat.mul_pos (by omega) (Nat.pos_of_ne_zero hcells)
        omega
      obtain ⟨p, hp⟩ : ∃ p, Profile.uniform (multiCell cell cells).length
          (rowSamples cell cells).toArray = .ok p :=
        Profile.exists_uniform hlength (by rwa [List.size_toArray, length_rowSamples])
      cases hp.symm.trans huniform

/-! ### Lines -/

section Line

variable {charged : Option (ChargedBeam ℝ)} {formula : LongitudinalFormula} {probe exit : Probe ℝ}
  {e : Element ℝ} {es : List (Element ℝ)} {acc : PhaseMap ℝ}
  {segment : ℝ → ℝ → PhaseMap ℝ → Except (Fault ℝ) (PhaseMap ℝ)} {f : Fault ℝ}

theorem Element.rule_ok (hcharged : PhysicallyCharged charged)
    (hrule : e.rule charged formula probe = .ok (segment, exit)) (hacc : acc.KeepsOrientation)
    (y z : ℝ) : ∃ M, segment y z acc = .ok M ∧ M.KeepsOrientation := by
  cases e with
  | drift length =>
    cases hrule
    exact driftSegment_ok hcharged hacc length probe.gamma y z
  | gap model drive =>
    obtain ⟨profile, -, hr⟩ := map_eq_ok.mp hrule
    cases hr
    exact ⟨_, rfl, (Passage.transportBetween_keepsOrientation _ y z).mul hacc⟩

/-- An element of positive length is refused only for counts that index arithmetic cannot follow. -/
theorem Element.rule_error (hlength : 0 < e.length)
    (hrule : e.rule charged formula probe = .error f) : f = .indexRange := by
  cases e with
  | drift length => cases hrule
  | gap model drive => exact model.profileFor_error hlength (map_eq_error.mp hrule)

namespace BeamLine

theorem probeBehind_error_cons (hrule : e.rule charged formula probe = .error f) :
    probeBehind formula (e :: es) probe = .error f := by
  cases e with
  | drift length => cases hrule
  | gap model drive =>
    rw [probeBehind, map_eq_error.mp hrule]
    rfl

/-- The way through elements ends as the way of the particle does: space charge has no say in it. -/
theorem through_eq (hcharged : PhysicallyCharged charged) (hacc : acc.KeepsOrientation) :
    ∃ M, M.KeepsOrientation ∧ through charged formula es probe acc =
      (probeBehind formula es probe).map (M, ·) := by
  induction es generalizing probe acc with
  | nil => exact ⟨acc, hacc, rfl⟩
  | cons e es ih =>
    -- An element fails because of its particle, or hands on a map that keeps the orientation.
    cases hrule : e.rule charged formula probe with
    | error f =>
      refine ⟨acc, hacc, ?_⟩
      rw [through_cons, hrule, probeBehind_error_cons hrule]
      rfl
    | ok r =>
      obtain ⟨segment, exit⟩ := r
      obtain ⟨N, hN, hkeeps⟩ := Element.rule_ok hcharged hrule hacc 0 e.length
      obtain ⟨M, hM, hthrough⟩ : ∃ M, M.KeepsOrientation ∧ through charged formula es exit N =
          (probeBehind formula es exit).map (M, ·) := ih hkeeps
      refine ⟨M, hM, ?_⟩
      rw [through_cons, hrule, probeBehind_cons hrule, ← hthrough]
      change segment 0 e.length acc >>= _ = _
      rw [hN]
      rfl

/-- If the particle gets behind the elements, every place in them is reached. -/
theorem reach_ok (hcharged : PhysicallyCharged charged) (hacc : acc.KeepsOrientation)
    (hprobe : probeBehind formula es probe = .ok exit) (z : ℝ) :
    ∃ M, reach charged formula es probe z acc = .ok M ∧ M.KeepsOrientation := by
  induction es generalizing probe z acc with
  | nil => exact ⟨acc, rfl, hacc⟩
  | cons e es ih =>
    cases hrule : e.rule charged formula probe with
    | error f => cases hprobe.symm.trans (probeBehind_error_cons hrule)
    | ok r =>
      obtain ⟨segment, next⟩ := r
      -- The place is in this element, or the elements behind are entered with the map of all of it.
      by_cases hhere : es = [] ∨ z ≤ e.length
      · rw [reach_here hhere, hrule]
        exact Element.rule_ok hcharged hrule hacc 0 z
      · rw [probeBehind_cons hrule] at hprobe
        obtain ⟨N, hN, hkeeps⟩ := Element.rule_ok hcharged hrule hacc 0 e.length
        obtain ⟨M, hM, hlast⟩ := ih hkeeps hprobe (z - e.length)
        refine ⟨M, ?_, hlast⟩
        rw [reach_later hhere, hrule]
        change segment 0 e.length acc >>= _ = _
        exact bind_eq_ok.mpr ⟨N, hN, hM⟩

theorem probeBehind_error (hpos : ∀ e ∈ es, 0 < e.length)
    (h : probeBehind formula es probe = .error f) : f = .indexRange := by
  induction es generalizing probe with
  | nil => cases h
  | cons e es ih =>
    obtain ⟨he, hes⟩ := List.forall_mem_cons.mp hpos
    cases hrule : e.rule none formula probe with
    | error g =>
      cases (probeBehind_error_cons hrule).symm.trans h
      exact Element.rule_error he hrule
    | ok r =>
      obtain ⟨segment, exit⟩ := r
      rw [probeBehind_cons hrule] at h
      exact ih hes h

/-- The particle passes every gap of the elements, with positive kinetic energies at all samples. -/
def PassesGaps (formula : LongitudinalFormula) : List (Element ℝ) → Probe ℝ → Prop
  | [], _ => True
  | .drift _ :: es, probe => PassesGaps formula es probe
  | .gap model drive :: es, probe => ∃ profile, model.profileFor probe = .ok profile ∧
    (∀ w ∈ (Passage.of profile drive probe formula).energies, 0 < w) ∧
    PassesGaps formula es (Passage.of profile drive probe formula).exitProbe

/-- A particle that passes the gaps gets to the end. -/
theorem PassesGaps.probeBehind (h : PassesGaps formula es probe) :
    ∃ q, probeBehind formula es probe = .ok q := by
  induction es generalizing probe with
  | nil => exact ⟨probe, rfl⟩
  | cons e es ih =>
    cases e with
    | drift length => exact ih h
    | gap model drive =>
      obtain ⟨profile, hprofile, -, hrest⟩ := h
      rw [BeamLine.probeBehind, hprofile]
      exact ih hrest

/-- Space charge never stops a walk. For a physical beam the maps of a line, which keep the
orientation of every plane, are there whenever the particle gets through the line's gaps, and what
fails otherwise is the table of a field. -/
theorem mapsAt_physical {line : BeamLine ℝ} (hline : line.Built) {beam : Covariance ℝ}
    (hbeam : beam.Physical) {ps : List ℝ} (hps : checkPositions line.length 0 ps = .ok ()) :
    (PassesGaps line.formula line.elements line.probe →
      ∃ Ms, line.mapsAt beam ps = .ok Ms ∧ Ms.length = ps.length) ∧
    (∀ Ms, line.mapsAt beam ps = .ok Ms → ∀ M ∈ Ms, M.KeepsOrientation) ∧
    (∀ f, line.mapsAt beam ps = .error f ↔ line.exitProbe = .error f) ∧
    (∀ f, line.mapsAt beam ps = .error f → f = .indexRange) := by
  have hcharged : PhysicallyCharged (line.charge beam) := by
    intro c hc
    obtain ⟨model, -, rfl⟩ := Option.map_eq_some_iff.mp hc
    exact hbeam
  -- The way through all elements fails exactly where the particle does.
  have hfails (f : Fault ℝ) : line.mapsAt beam ps = .error f ↔ line.exitProbe = .error f := by
    obtain ⟨M, -, hthrough⟩ : ∃ M, M.KeepsOrientation ∧
        through (line.charge beam) line.formula line.elements line.probe .identity =
          (probeBehind line.formula line.elements line.probe).map (M, ·) :=
      through_eq hcharged PhaseMap.KeepsOrientation.identity
    rw [mapsAt, walk_eq_error hline hps, wayThrough, hthrough, map_eq_error]
    rfl
  -- Where the walk succeeds, each of its maps is the way to a position.
  have hmaps : ∀ Ms, line.mapsAt beam ps = .ok Ms →
      Ms.length = ps.length ∧ ∀ M ∈ Ms, M.KeepsOrientation := by
    intro Ms hMs
    obtain ⟨⟨r, hr⟩, hways⟩ := (walk_eq_ok hline hps).mp hMs
    refine ⟨hways.length_eq.symm, fun M hM => ?_⟩
    obtain ⟨i, hi, rfl⟩ := List.getElem_of_mem hM
    have hway := (List.forall₂_iff_get.mp hways).2 i (hways.length_eq ▸ hi) hi
    obtain ⟨N, hN, hkeeps⟩ := reach_ok hcharged PhaseMap.KeepsOrientation.identity
      (probeBehind_of_through hr) (ps.get ⟨i, hways.length_eq ▸ hi⟩)
    cases hN.symm.trans hway
    exact hkeeps
  refine ⟨fun hgaps => ?_, fun Ms hMs => (hmaps Ms hMs).2, hfails, fun f hf => ?_⟩
  · obtain ⟨q, hq⟩ := hgaps.probeBehind
    cases h : line.mapsAt beam ps with
    | error f => cases hq.symm.trans ((hfails f).mp h)
    | ok Ms => exact ⟨Ms, rfl, (hmaps Ms h).1⟩
  · exact probeBehind_error hline.length_pos ((hfails f).mp hf)

noncomputable def slantedBeam : Covariance ℝ :=
  ⟨Mat.ofFn fun i j => if i = j then 1 else 1 / 4⟩

theorem slantedBeam_physical : slantedBeam.Physical := by
  intro p
  have hblock : slantedBeam.block p = ⟨1, 1 / 4, 1 / 4, 1⟩ := by
    cases p <;> simp [slantedBeam, Covariance.block, PhaseMap.block, Plane.position, Plane.slope]
  rw [hblock, Block.positiveDefinite_iff rfl]
  norm_num [Block.det]

theorem rampLine_passesGaps : PassesGaps rampLine.formula rampLine.elements rampLine.probe := by
  obtain ⟨hfirst, hexit⟩ := rampLine_moves
  exact ⟨ramp, rfl, hfirst, ramp, rfl, ramp_energies_pos rfl hexit.kinetic, trivial⟩

theorem mapsAt_physical_rampLine :
    rampLine.Built ∧ slantedBeam.Physical ∧
      checkPositions rampLine.length 0 [1 / 4, 1] = .ok () ∧
      PassesGaps rampLine.formula rampLine.elements rampLine.probe ∧
      ∃ Ms, rampLine.mapsAt slantedBeam [1 / 4, 1] = .ok Ms ∧ Ms.length = 2 ∧
        ∀ M ∈ Ms, M.KeepsOrientation := by
  have hps : checkPositions rampLine.length 0 [1 / 4, 1] = .ok () := by
    rw [checkPositions_eq_ok le_rfl, length_eq_sum]
    norm_num [rampLine, positionSlack, Element.length, FieldModel.length, ramp_length]
  obtain ⟨hok, hkeeps, -⟩ := mapsAt_physical rampLine_built slantedBeam_physical hps
  obtain ⟨Ms, hMs, hcount⟩ := hok rampLine_passesGaps
  exact ⟨rampLine_built, slantedBeam_physical, hps, rampLine_passesGaps, Ms, hMs, hcount, hkeeps Ms hMs⟩

end BeamLine

end Line

end BeamOptics
