import BeamOptics.Proofs.PhysicalBeams

/-! Fields that do no work. Where charge, amplitude and shape vanish together at every sample, the
generators of a gap vanish and the half drifts around its kicks add up, so the gap is free motion between
samples. A line whose gaps have such fields only is free motion up to the place that a position snaps
to. -/

namespace BeamOptics

theorem Block.exp_zero : (Block.zero : Block ℝ).exp = Block.identity := by
  simp [exp, expCoefficients, discriminant, zero, identity]

theorem LongitudinalFormula.diagonal_self (formula : LongitudinalFormula) {x : ℝ} (hx : x ≠ 0) :
    formula.diagonal x x = 0 := by
  cases formula with
  | logRatio => simp [diagonal, hx]
  | quadratic => simp [diagonal]

def Profile.DoesNoWork (profile : Profile ℝ) (drive : Drive ℝ) (probe : Probe ℝ) : Prop :=
  ∀ i : ℤ, probe.charge * drive.amplitude * profile.sample i = 0

/-- Either the particle has no charge, or neither the field nor its slope has a value. -/
theorem Profile.DoesNoWork.cases {profile : Profile ℝ} {drive : Drive ℝ} {probe : Probe ℝ}
    (h : profile.DoesNoWork drive probe) :
    probe.charge = 0 ∨ ∀ i, drive.amplitude * profile.sample i = 0 ∧
      drive.amplitude * profile.slope i = 0 := by
  rw [or_iff_not_imp_left]
  intro hcharge
  have hfield (i : ℤ) : drive.amplitude * profile.sample i = 0 := by
    have hi := h i
    rw [mul_assoc] at hi
    exact (mul_eq_zero.mp hi).resolve_left hcharge
  refine fun i => ⟨hfield i, ?_⟩
  rw [slope, ← mul_div_assoc, mul_sub, hfield, hfield, sub_zero, zero_div]

/-- The passage is free motion: the particle keeps its energy, the field has no action, and transport
over samples is a drift. -/
structure Passage.IsDrift (p : Passage ℝ) : Prop where
  energies : p.energies = List.replicate p.profile.size p.probe.kineticEnergy
  energyGain : ∀ y z, p.energyGain y z = 0
  transferRange : ∀ i j, p.transferRange i j = PhaseMap.identity
  transferMap : ∀ position length, p.transferMap position length = PhaseMap.identity
  transportRange : ∀ i j : ℕ, i ≤ j → j < p.profile.size →
    p.transportRange i j = PhaseMap.drift ((j - i) * p.profile.spacing) p.probe.gamma

namespace Passage

/-! ### Ranges of equal steps -/

theorem rangeBlocks_identity {step : ℕ → Block ℝ × Block ℝ} {ks : List ℕ}
    (hstep : ∀ k, step k = (Block.identity, Block.identity)) :
    rangeBlocks step ks = (Block.identity, Block.identity) := by
  unfold rangeBlocks
  induction ks with
  | nil => rfl
  | cons k ks ih =>
    rw [List.foldl_cons, extend, hstep, Block.identity_mul]
    exact ih

/-- Equal shears of a range add up. -/
theorem rangeBlocks_shear {step : ℕ → Block ℝ × Block ℝ} {s t : ℝ}
    (hstep : ∀ k, step k = (⟨1, s, 0, 1⟩, ⟨1, t, 0, 1⟩)) (i n : ℕ) :
    rangeBlocks step (List.range' i n) = (⟨1, n * s, 0, 1⟩, ⟨1, n * t, 0, 1⟩) := by
  induction n with
  | zero => simp [rangeBlocks, Block.identity]
  | succ n ih =>
    have hsum (x : ℝ) : x + n * x = (n + 1 : ℕ) * x := by
      push_cast
      ring
    rw [List.range'_1_concat, rangeBlocks_concat, ih, hstep, Block.shear_mul, Block.shear_mul, hsum,
      hsum]

section Idle

variable {profile : Profile ℝ} {drive : Drive ℝ} {probe : Probe ℝ} {formula : LongitudinalFormula}
  {p : Passage ℝ}

/-! ### The particle in an idle field -/

theorem statesFrom_energy (h : profile.DoesNoWork drive probe) (size : ℝ) (count index : ℕ)
    (m : Motion ℝ) :
    ∀ s ∈ (synchronous profile drive probe).statesFrom size count index m, s.energy = m.energy := by
  induction count generalizing index m with
  | zero => simp [SplitStep.statesFrom]
  | succ count ih =>
    have hkept : ((synchronous profile drive probe).step index size m).energy = m.energy := by
      simp [SplitStep.step, synchronous, h index]
    exact List.forall_mem_cons.mpr ⟨rfl, fun s hs => (ih _ _ s hs).trans hkept⟩

/-- A field that does no work leaves the energy at every sample as it was. -/
theorem energies_idle (h : profile.DoesNoWork drive probe) :
    (of profile drive probe formula).energies =
      List.replicate profile.size probe.kineticEnergy := by
  rw [List.eq_replicate_iff]
  constructor
  · simp [energies, of]
  · intro w hw
    obtain ⟨s, hs, rfl⟩ := List.mem_map.mp hw
    exact statesFrom_energy h _ _ _ _ s hs

theorem motion_idle (h : profile.DoesNoWork drive probe) (i : ℕ) :
    ((of profile drive probe formula).motion i).energy = probe.kineticEnergy := by
  rcases (of profile drive probe formula).motion_mem i with hmem | hentry
  · rw [energies_idle h] at hmem
    exact List.eq_of_mem_replicate hmem
  · exact hentry

theorem gammaAt_idle (h : profile.DoesNoWork drive probe) (i : ℕ) :
    (of profile drive probe formula).gammaAt i = probe.gamma := by
  rw [gammaAt, motion_idle h]
  rfl

theorem exitProbe_idle (h : profile.DoesNoWork drive probe) :
    (of profile drive probe formula).exitProbe = probe := by
  rw [exitProbe, motion_idle h]
  rfl

/-! ### The steps through an idle field -/

/-- A field that does no work has no action on the beam in any step. -/
theorem fieldStep_idle (h : profile.DoesNoWork drive probe) (hprobe : probe.Moving) (i : ℕ) :
    (of profile drive probe formula).fieldStep i = (Block.identity, Block.identity) := by
  obtain ⟨p, hp⟩ : ∃ p, p = of profile drive probe formula := ⟨_, rfl⟩
  have hmomentum : p.betaAt i * p.gammaAt i ≠ 0 := by
    rw [betaAt, hp, gammaAt_idle h]
    exact (Relativity.betaGamma_pos hprobe.kinetic hprobe.rest).ne'
  -- The particle keeps its velocity, so the longitudinal generator has no diagonal.
  have hnext : p.betaAt (i + 1) * p.gammaAt (i + 1) = p.betaAt i * p.gammaAt i := by
    rw [betaAt, betaAt, hp, gammaAt_idle h, gammaAt_idle h]
  have htransverse : p.transverseGenerator i = Block.zero := by
    subst hp
    rcases h.cases with hcharge | hfield
    · simp [transverseGenerator, of, hcharge, Block.zero]
    · simp [transverseGenerator, of, hfield i, Block.zero]
  have hlongitudinal : p.longitudinalGenerator i = Block.zero := by
    rw [longitudinalGenerator, hnext, LongitudinalFormula.diagonal_self _ hmomentum]
    subst hp
    rcases h.cases with hcharge | hfield
    · simp [of, hcharge, Block.zero]
    · simp [of, hfield i, Block.zero]
  rw [← hp, fieldStep, htransverse, hlongitudinal, Block.exp_zero]

theorem transportStep_idle (h : profile.DoesNoWork drive probe) (hprobe : probe.Moving) (i : ℕ) :
    (of profile drive probe formula).transportStep i =
      (⟨1, profile.spacing, 0, 1⟩, ⟨1, profile.spacing / (probe.gamma * probe.gamma), 0, 1⟩) := by
  unfold transportStep
  rw [fieldStep_idle h hprobe, gammaAt_idle h, gammaAt_idle h]
  simp [Block.mul_identity, halfDrift, Block.shear_mul, of]
  ring

theorem transferRange_idle (h : profile.DoesNoWork drive probe) (hprobe : probe.Moving) (i j : ℕ) :
    (of profile drive probe formula).transferRange i j = PhaseMap.identity := by
  rw [transferRange, compose_eq, rangeBlocks_identity (fieldStep_idle h hprobe)]
  exact PhaseMap.ofBlocks_identity

/-- A field that does no work on a moving particle is a drift. -/
theorem isDrift_of_idle (formula : LongitudinalFormula) (h : profile.DoesNoWork drive probe)
    (hprobe : probe.Moving) :
    (of profile drive probe formula).IsDrift where
  energies := energies_idle h
  energyGain y z := by rw [energyGain, energyAt, energyAt, motion_idle h, motion_idle h, sub_self]
  transferRange := transferRange_idle h hprobe
  transferMap _ _ := transferRange_idle h hprobe _ _
  transportRange i j hij hj := by
    have hlast : j ≤ (of profile drive probe formula).lastIndex := Nat.le_sub_one_of_lt hj
    have hcount : ((j - i : ℕ) : ℝ) = j - i := Nat.cast_sub hij
    rw [transportRange, compose_eq, min_eq_left hlast,
      rangeBlocks_shear (transportStep_idle h hprobe), hcount, ← mul_div_assoc, PhaseMap.drift,
      Scalar.real_zero, Scalar.real_one]
    rfl

/-- Between two places the passage is free motion from sample to sample. -/
theorem IsDrift.transportBetween (hp : p.IsDrift) {y z : ℝ} (hyz : y ≤ z) :
    p.transportBetween y z =
      PhaseMap.drift ((p.profile.indexOf z - p.profile.indexOf y) * p.profile.spacing)
        p.probe.gamma := by
  exact hp.transportRange _ _ (p.profile.indexOf_mono hyz) (p.profile.indexOf_lt z)

end Idle

end Passage

/-! ### Snapping to samples -/

/-- Rounding changes a number by at most a half. -/
theorem roundAway_spec (x : ℝ) : ∃ k : ℤ, roundAway x = k ∧ |x - k| ≤ 1 / 2 := by
  rw [roundAway]
  split_ifs with hx
  · have hle := Int.floor_le (x + 1 / 2)
    have hlt := Int.lt_floor_add_one (x + 1 / 2)
    refine ⟨_, rfl, abs_le.mpr ?_⟩
    constructor <;> linarith
  · have hle := Int.le_ceil (x - 1 / 2)
    have hlt := Int.ceil_lt_add_one (x - 1 / 2)
    refine ⟨_, rfl, abs_le.mpr ?_⟩
    constructor <;> linarith

/-- Of the counts up to a bound none is nearer than the rounded number, cut off at the bound. -/
theorem abs_sub_min_le {x : ℝ} {m l i : ℕ} (hm : |x - m| ≤ 1 / 2) (hi : i ≤ l) :
    |x - (min m l : ℕ)| ≤ |x - i| := by
  obtain ⟨hlower, hupper⟩ := abs_le.mp hm
  rcases lt_trichotomy i (min m l) with hlt | heq | hgt
  · have hstep : (i : ℝ) + 1 ≤ (min m l : ℕ) := by exact_mod_cast hlt
    have hmin : ((min m l : ℕ) : ℝ) ≤ m := by exact_mod_cast min_le_left m l
    refine abs_le.mpr ⟨?_, ?_⟩ <;> linarith [le_abs_self (x - i)]
  · rw [heq]
  · -- Only behind the rounded number itself is there a count up to the bound.
    have hsame : min m l = m := by omega
    have hstep : (m : ℝ) + 1 ≤ i := by exact_mod_cast hsame ▸ hgt
    rw [hsame]
    refine abs_le.mpr ⟨?_, ?_⟩ <;> linarith [neg_abs_le (x - i)]

/-- The index of a place is that of a nearest sample. -/
theorem Profile.abs_sub_indexOf_le (p : Profile ℝ) (z : ℝ) {i : ℕ} (hi : i < p.size) :
    |z - p.indexOf z * p.spacing| ≤ |z - i * p.spacing| := by
  have hpos := p.spacing_pos
  -- In units of the spacing, places are numbers and samples whole numbers.
  have hquotient (n : ℕ) : |z - n * p.spacing| = |z / p.spacing - n| * p.spacing := by
    rw [← abs_of_pos hpos, ← abs_mul, abs_of_pos hpos, sub_mul, div_mul_cancel₀ _ hpos.ne']
  rw [hquotient, hquotient]
  apply mul_le_mul_of_nonneg_right _ hpos.le
  obtain ⟨k, hk, hnear⟩ := roundAway_spec (z / p.spacing)
  rw [indexOf_eq, hk]
  split_ifs with hle
  · -- In front of the first sample, and up to half a step behind it.
    rcases Nat.eq_zero_or_pos i with rfl | hfirst
    · exact le_rfl
    · have hstep : (1 : ℝ) ≤ i := by exact_mod_cast hfirst
      have hupper := (abs_le.mp hnear).2
      rw [Nat.cast_zero, sub_zero]
      refine abs_le.mpr ⟨?_, ?_⟩ <;> linarith [neg_abs_le (z / p.spacing - i)]
  · have hnonneg : 0 ≤ k := by exact_mod_cast (not_le.mp hle).le
    lift k to ℕ using hnonneg
    rw [Int.cast_natCast] at hnear
    rw [Int.cast_natCast, Nat.floor_natCast]
    exact abs_sub_min_le hnear (Nat.le_sub_one_of_lt hi)

/-! ### Elements -/

theorem PhaseMap.drift_zero (gamma : ℝ) : drift 0 gamma = identity := by
  rw [← ofBlocks_identity, drift]
  simp [Block.identity]

namespace Element

def DoesNoWork (probe : Probe ℝ) : Element ℝ → Prop
  | .drift _ => True
  | .gap model drive =>
    ∃ profile, model.profileFor probe = .ok profile ∧ profile.DoesNoWork drive probe

noncomputable def snap (probe : Probe ℝ) : Element ℝ → ℝ → ℝ
  | .drift _, z => z
  | .gap model _, z =>
    match model.profileFor probe with
    | .ok profile => profile.indexOf z * profile.spacing
    | .error _ => z

variable {probe : Probe ℝ} {e : Element ℝ}

theorem snap_gap {model : FieldModel ℝ} {profile : Profile ℝ}
    (hprofile : model.profileFor probe = .ok profile) (drive : Drive ℝ) (z : ℝ) :
    (gap model drive).snap probe z = profile.indexOf z * profile.spacing := by
  rw [snap, hprofile]

/-- The end of an element stays where it is. -/
theorem snap_length (h : e.DoesNoWork probe) : e.snap probe e.length = e.length := by
  cases e with
  | drift length => rfl
  | gap model drive =>
    obtain ⟨profile, hprofile, -⟩ := h
    rw [snap_gap hprofile, Element.length, ← FieldModel.profileFor_length hprofile,
      profile.indexOf_length, Profile.length, mul_comm]
    rfl

/-- An element that does no work is free motion to the place that is asked for. -/
theorem rule_idle (formula : LongitudinalFormula) (h : e.DoesNoWork probe) (hprobe : probe.Moving) :
    ∃ segment, e.rule none formula probe = .ok (segment, probe) ∧ ∀ {z : ℝ}, 0 ≤ z → ∀ acc,
      segment 0 z acc = .ok (PhaseMap.drift (e.snap probe z) probe.gamma * acc) := by
  cases e with
  | drift length =>
    refine ⟨_, rfl, fun {z} hz acc => ?_⟩
    rcases hz.eq_or_lt with rfl | hpos
    · rw [driftSegment_self none length probe.gamma le_rfl, snap, PhaseMap.drift_zero,
        PhaseMap.identity, Mat.identity_mul]
    · rw [driftSegment_uncharged length probe.gamma hpos, sub_zero, snap]
  | gap model drive =>
    obtain ⟨profile, hprofile, hidle⟩ := h
    have hdrift := Passage.isDrift_of_idle formula hidle hprobe
    refine ⟨_, map_eq_ok.mpr ⟨profile, hprofile, Prod.ext rfl (Passage.exitProbe_idle hidle)⟩,
      fun {z} hz acc => ?_⟩
    rw [hdrift.transportBetween hz, Profile.indexOf_zero, Nat.cast_zero, sub_zero,
      snap_gap hprofile]
    rfl

end Element

/-! ### Lines -/

namespace BeamLine

section Along

variable {probe : Probe ℝ} {formula : LongitudinalFormula} {es : List (Element ℝ)}

/-- A place, counted from the start of the elements; in a gap that of the nearest sample. -/
noncomputable def snapAlong (probe : Probe ℝ) : List (Element ℝ) → ℝ → ℝ
  | [], _ => 0
  | e :: es, z =>
    if es = [] ∨ z ≤ e.length then e.snap probe z
    else e.length + snapAlong probe es (z - e.length)

/-- The way to a place through idle elements is free motion to where the place snaps. -/
theorem reach_idle (hes : ∀ e ∈ es, e.DoesNoWork probe) (hpos : ∀ e ∈ es, 0 < e.length)
    (hprobe : probe.Moving) {z : ℝ} (hz : 0 ≤ z) (acc : PhaseMap ℝ) :
    reach none formula es probe z acc =
      .ok (PhaseMap.drift (snapAlong probe es z) probe.gamma * acc) := by
  induction es generalizing z acc with
  | nil =>
    rw [snapAlong, PhaseMap.drift_zero, PhaseMap.identity, Mat.identity_mul]
    rfl
  | cons e es ih =>
    obtain ⟨he, hes⟩ := List.forall_mem_cons.mp hes
    obtain ⟨hlength, hpos⟩ := List.forall_mem_cons.mp hpos
    obtain ⟨segment, hrule, hsegment⟩ := Element.rule_idle formula he hprobe
    -- The place is in the first element, or it is reached behind a drift through that element.
    by_cases hhere : es = [] ∨ z ≤ e.length
    · rw [reach_here hhere, hrule, snapAlong, if_pos hhere]
      exact hsegment hz acc
    · have hbehind : 0 ≤ z - e.length := sub_nonneg.mpr (not_le.mp fun h => hhere (.inr h)).le
      rw [reach_later hhere, hrule, snapAlong, if_neg hhere]
      change segment 0 e.length acc >>= _ = _
      rw [hsegment hlength.le acc, Element.snap_length he]
      change reach none formula es probe _ _ = _
      rw [ih hes hpos hbehind, ← Mat.mul_assoc, PhaseMap.drift_mul, add_comm]

/-- The particle that enters elements that do no work leaves them. -/
theorem through_idle (formula : LongitudinalFormula) (hes : ∀ e ∈ es, e.DoesNoWork probe)
    (hpos : ∀ e ∈ es, 0 < e.length) (hprobe : probe.Moving) (acc : PhaseMap ℝ) :
    ∃ M, through none formula es probe acc = .ok (M, probe) := by
  induction es generalizing acc with
  | nil => exact ⟨acc, rfl⟩
  | cons e es ih =>
    obtain ⟨he, hes⟩ := List.forall_mem_cons.mp hes
    obtain ⟨hlength, hpos⟩ := List.forall_mem_cons.mp hpos
    obtain ⟨segment, hrule, hsegment⟩ := Element.rule_idle formula he hprobe
    obtain ⟨M, hM⟩ := ih hes hpos (PhaseMap.drift (e.snap probe e.length) probe.gamma * acc)
    refine ⟨M, ?_⟩
    rw [through_cons, hrule]
    change segment 0 e.length acc >>= _ = _
    rw [hsegment hlength.le acc]
    exact hM

end Along

noncomputable def snapped (line : BeamLine ℝ) (p : ℝ) : ℝ := snapAlong line.probe line.elements p

/-- The maps of a line of idle elements are drifts to the snapped positions. -/
theorem zeroCurrentMaps_idle {line : BeamLine ℝ} (hline : line.Built) (hprobe : line.probe.Moving)
    (hes : ∀ e ∈ line.elements, e.DoesNoWork line.probe) {ps : List ℝ}
    (hps : checkPositions line.length 0 ps = .ok ()) :
    line.zeroCurrentMaps ps =
      .ok (ps.map fun p => PhaseMap.drift (line.snapped p) line.probe.gamma) := by
  obtain ⟨M, hM⟩ := through_idle line.formula hes hline.length_pos hprobe
    PhaseMap.identity
  have hstart : ∀ p ∈ ps, 0 ≤ p :=
    (List.pairwise_cons.mp ((checkPositions_eq_ok le_rfl).mp hps).1).1
  refine (walk_eq_ok hline hps).mpr ⟨⟨_, hM⟩, ?_⟩
  rw [List.forall₂_map_right_iff, List.forall₂_same]
  intro p hp
  rw [wayTo, reach_idle hes hline.length_pos hprobe (hstart p hp), PhaseMap.identity,
    Mat.mul_identity]
  rfl

/-- A field that does no work is a drift. A passage through it is free motion, and so is a line whose
gaps have such fields, up to the place of the nearest sample for a position in a gap. -/
theorem idleFields_drift {probe : Probe ℝ} {kinetic rest charge : ℝ}
    (hprobe : Probe.mk? kinetic rest charge = .ok probe) :
    (∀ (profile : Profile ℝ) (drive : Drive ℝ) (formula : LongitudinalFormula),
      profile.DoesNoWork drive probe → (Passage.of profile drive probe formula).IsDrift) ∧
    (∀ line : BeamLine ℝ, line.Built → line.probe = probe →
      (∀ e ∈ line.elements, e.DoesNoWork probe) →
        line.exitProbe = .ok probe ∧ ∀ ps, checkPositions line.length 0 ps = .ok () →
          line.zeroCurrentMaps ps =
            .ok (ps.map fun p => PhaseMap.drift (line.snapped p) probe.gamma)) ∧
    ∀ {model : FieldModel ℝ} {profile : Profile ℝ}, model.profileFor probe = .ok profile →
      ∀ (drive : Drive ℝ) (z : ℝ), ∃ i < profile.size,
        (Element.gap model drive).snap probe z = i * profile.spacing ∧
          ∀ j < profile.size, |z - i * profile.spacing| ≤ |z - j * profile.spacing| := by
  have hmoving := Probe.moving_of_mk? hprobe
  refine ⟨fun profile drive formula h => Passage.isDrift_of_idle formula h hmoving, ?_, ?_⟩
  · -- The way through the elements is found first, and the maps are read off it.
    rintro line hline rfl hes
    obtain ⟨M, hM⟩ := through_idle line.formula hes hline.length_pos hmoving
      PhaseMap.identity
    exact ⟨probeBehind_of_through hM, fun ps hps => zeroCurrentMaps_idle hline hmoving hes hps⟩
  · intro model profile hprofile drive z
    exact ⟨profile.indexOf z, profile.indexOf_lt z, Element.snap_gap hprofile drive z,
      fun j hj => profile.abs_sub_indexOf_le z hj⟩

noncomputable def unpoweredLine : BeamLine ℝ where
  probe := ⟨3000000, 938272088, 1⟩
  elements := [.drift 1, .gap (.sampled Passage.hump) ⟨80000000, 0, -1⟩, .drift 1]

/-- Half way between two samples of the gap the map is that of the sample behind. -/
theorem idleFields_drift_unpowered :
    Probe.mk? 3000000 938272088 1 = .ok unpoweredLine.probe ∧ unpoweredLine.Built ∧
      (∀ e ∈ unpoweredLine.elements, e.DoesNoWork unpoweredLine.probe) ∧
      checkPositions unpoweredLine.length 0 [3 / 2] = .ok () ∧
      unpoweredLine.exitProbe = .ok unpoweredLine.probe ∧
      unpoweredLine.zeroCurrentMaps [3 / 2] =
        .ok [PhaseMap.drift 2 unpoweredLine.probe.gamma] := by
  have hspacing : Passage.hump.spacing = 1 := by
    simp [Profile.spacing, Profile.meanStep, Passage.hump]
  have hlength : Passage.hump.length = 2 := by
    rw [Profile.length, hspacing]
    simp [Profile.size, Passage.hump]
  have hprobe : Probe.mk? 3000000 938272088 1 = .ok unpoweredLine.probe := by
    simp [Probe.mk?, unpoweredLine]
  have hbuilt : unpoweredLine.Built := by
    have hnew : mk? unpoweredLine.probe unpoweredLine.elements = .ok unpoweredLine := by
      simp [unpoweredLine, mk?, lengthFault?, Element.length, FieldModel.length, hlength]
    exact .new hnew
  have hidle : ∀ e ∈ unpoweredLine.elements, e.DoesNoWork unpoweredLine.probe := by
    simp [unpoweredLine, Element.DoesNoWork, FieldModel.profileFor, Profile.DoesNoWork]
  have hps : checkPositions unpoweredLine.length 0 [3 / 2] = .ok () := by
    rw [checkPositions_eq_ok le_rfl, length_eq_sum]
    norm_num [unpoweredLine, positionSlack, Element.length, FieldModel.length, hlength]
  -- The place is behind the first drift, halfway between two samples of the gap.
  have hbehind : ¬ (unpoweredLine.elements.tail = [] ∨ (3 / 2 : ℝ) ≤ 1) := by
    rintro (hnil | hle)
    · exact absurd hnil (List.cons_ne_nil _ _)
    · norm_num at hle
  have hplace : (3 / 2 - 1 : ℝ) = 1 / 2 := by norm_num
  have hsnapped : unpoweredLine.snapped (3 / 2) = 2 :=
    calc unpoweredLine.snapped (3 / 2)
        = 1 + snapAlong unpoweredLine.probe unpoweredLine.elements.tail (3 / 2 - 1) :=
          if_neg hbehind
      _ = 1 + Passage.hump.indexOf (3 / 2 - 1) * Passage.hump.spacing :=
          congrArg (1 + ·) (if_pos (by norm_num [Element.length, FieldModel.length, hlength]))
      _ = 2 := by
          rw [hplace, Passage.hump_indexOf_tie, hspacing]
          norm_num
  obtain ⟨hexit, hmaps⟩ := (idleFields_drift hprobe).2.1 unpoweredLine hbuilt rfl hidle
  refine ⟨hprobe, hbuilt, hidle, hps, hexit, ?_⟩
  rw [hmaps _ hps, List.map_singleton, hsnapped]

end BeamLine

end BeamOptics
