import BeamOptics.Proofs.SampleStates
import BeamOptics.Command.Reconstruction

/-! Fields that act alike. Charge, amplitude and shape enter the passage of a gap only as the force
that they make at each sample, and the force only together with the phase of the field. So a passage
stays what it is when the three are traded for one another, and when all forces change their sign
while the particle enters half a period later. -/

namespace BeamOptics

/-- The same particle enters two fields that can be compared sample by sample. -/
structure SameEntry (profile' profile : Profile ℝ) (drive' drive : Drive ℝ)
    (probe' probe : Probe ℝ) : Prop where
  rest : probe'.restEnergy = probe.restEnergy
  kinetic : probe'.kineticEnergy = probe.kineticEnergy
  frequency : drive'.frequency = drive.frequency
  spacing : profile'.spacing = profile.spacing
  size : profile'.size = profile.size

namespace Passage

structure ActsAs (p q : Passage ℝ) : Prop where
  energies : p.energies = q.energies
  energyGain : ∀ y z, p.energyGain y z = q.energyGain y z
  exitEnergy : p.exitProbe.kineticEnergy = q.exitProbe.kineticEnergy
  transferRange : ∀ i j, p.transferRange i j = q.transferRange i j
  transportRange : ∀ i j, p.transportRange i j = q.transportRange i j
  transferMap : ∀ position length, p.transferMap position length = q.transferMap position length
  transportBetween : ∀ y z, p.transportBetween y z = q.transportBetween y z
  fullMap : p.fullMap = q.fullMap

/-! ### The generators and the force -/

noncomputable def force (p : Passage ℝ) (i : ℤ) : ℝ :=
  p.probe.charge * p.drive.amplitude * p.profile.sample i

/-- The transverse generator sees field and charge only through the force. -/
theorem transverseGenerator_eq (p : Passage ℝ) (i : ℕ) : p.transverseGenerator i =
    ⟨0, 0, 1 / (2 * p.probe.restEnergy * p.betaAt i * p.betaAt i * p.gammaAt i) *
        (p.drive.omega * p.betaAt i / speedOfLight * (p.force i * Real.sin (p.motion i).phase) -
          (p.force (i + 1) * Real.cos (p.motion i).phase -
            p.force (i - 1) * Real.cos (p.motion i).phase) / (2 * p.profile.spacing)) *
        p.profile.spacing,
      -(p.force i * Real.cos (p.motion i).phase / p.probe.restEnergy /
        (p.betaAt i * p.betaAt i * p.gammaAt i)) * p.profile.spacing⟩ := by
  simp only [transverseGenerator, Profile.slope, force, Block.mk.injEq, Scalar.real_zero,
    Scalar.real_sin, Scalar.real_cos, true_and]
  constructor
  · ring
  · ring

/-- So does the longitudinal generator. -/
theorem longitudinalGenerator_eq (p : Passage ℝ) (i : ℕ) : p.longitudinalGenerator i =
    ⟨0, 0, p.drive.omega * (p.force i * Real.sin (p.motion i).phase) /
        (p.probe.restEnergy * (p.betaAt i * p.betaAt i * p.betaAt i) * p.gammaAt i *
          speedOfLight) * p.profile.spacing,
      p.formula.diagonal (p.betaAt i * p.gammaAt i) (p.betaAt (i + 1) * p.gammaAt (i + 1))⟩ := by
  simp only [longitudinalGenerator, force, Block.mk.injEq, Scalar.real_zero, Scalar.real_sin,
    and_true, true_and]
  ring

/-! ### Forces turned against phases -/

/-- Moving a phase by `shift` multiplies its sine and cosine by `sign`, which is one or minus one. -/
structure Turn (sign shift : ℝ) : Prop where
  sin : ∀ x, Real.sin (x + shift) = sign * Real.sin x
  cos : ∀ x, Real.cos (x + shift) = sign * Real.cos x
  square : sign * sign = 1

theorem Turn.none : Turn 1 0 where
  sin x := by rw [add_zero, one_mul]
  cos x := by rw [add_zero, one_mul]
  square := one_mul 1

theorem Turn.half : Turn (-1) Real.pi where
  sin x := by rw [Real.sin_add_pi, neg_one_mul]
  cos x := by rw [Real.cos_add_pi, neg_one_mul]
  square := by norm_num

/-- The first passage has the forces of the second times `sign`, and its phases are later by
`shift`. -/
structure Turned (sign shift : ℝ) (p q : Passage ℝ) : Prop where
  turn : Turn sign shift
  formula : p.formula = q.formula
  entry : SameEntry p.profile q.profile p.drive q.drive p.probe q.probe
  force : ∀ i, p.force i = sign * q.force i
  motion : ∀ i, p.motion i = ⟨(q.motion i).phase + shift, (q.motion i).energy⟩

section Turned

variable {sign shift : ℝ} {p q : Passage ℝ}

/-- A force and a phase of the field that are turned together make the same product. -/
theorem Turn.sin_mul (h : Turn sign shift) (f x : ℝ) :
    sign * f * Real.sin (x + shift) = f * Real.sin x := by
  rw [h.sin, mul_mul_mul_comm, h.square, one_mul]

theorem Turn.cos_mul (h : Turn sign shift) (f x : ℝ) :
    sign * f * Real.cos (x + shift) = f * Real.cos x := by
  rw [h.cos, mul_mul_mul_comm, h.square, one_mul]

namespace Turned

theorem gammaAt (h : Turned sign shift p q) (i : ℕ) : p.gammaAt i = q.gammaAt i := by
  rw [Passage.gammaAt, Passage.gammaAt, h.motion, h.entry.rest]

theorem betaAt (h : Turned sign shift p q) (i : ℕ) : p.betaAt i = q.betaAt i := by
  rw [Passage.betaAt, Passage.betaAt, h.gammaAt]

theorem omega (h : Turned sign shift p q) : p.drive.omega = q.drive.omega := by
  rw [Drive.omega, Drive.omega, h.entry.frequency]

/-- The field acts alike in each step, because force and phase change their signs together. -/
theorem fieldStep (h : Turned sign shift p q) (i : ℕ) : p.fieldStep i = q.fieldStep i := by
  have htransverse : p.transverseGenerator i = q.transverseGenerator i := by
    simp only [transverseGenerator_eq, h.force, h.motion, h.turn.sin_mul, h.turn.cos_mul, h.betaAt,
      h.gammaAt, h.omega, h.entry.rest, h.entry.spacing]
  have hlongitudinal : p.longitudinalGenerator i = q.longitudinalGenerator i := by
    simp only [longitudinalGenerator_eq, h.force, h.motion, h.turn.sin_mul, h.betaAt, h.gammaAt,
      h.omega, h.entry.rest, h.entry.spacing, h.formula]
  rw [Passage.fieldStep, Passage.fieldStep, htransverse, hlongitudinal]

theorem transportStep (h : Turned sign shift p q) (i : ℕ) :
    p.transportStep i = q.transportStep i := by
  simp only [Passage.transportStep, h.fieldStep, halfDrift, h.gammaAt, h.entry.spacing]

theorem lastIndex (h : Turned sign shift p q) : p.lastIndex = q.lastIndex := by
  rw [Passage.lastIndex, Passage.lastIndex, h.entry.size]

theorem indexOf (h : Turned sign shift p q) (z : ℝ) : p.profile.indexOf z = q.profile.indexOf z := by
  rw [Profile.indexOf_eq, Profile.indexOf_eq, h.entry.spacing, h.entry.size]

/-- Maps over ranges of samples agree. -/
theorem compose (h : Turned sign shift p q) (i j : ℕ) :
    p.transferRange i j = q.transferRange i j ∧ p.transportRange i j = q.transportRange i j := by
  have hfield : p.fieldStep = q.fieldStep := funext h.fieldStep
  have htransport : p.transportStep = q.transportStep := funext h.transportStep
  constructor
  · rw [transferRange, transferRange, compose_eq, compose_eq, hfield, h.lastIndex]
  · rw [transportRange, transportRange, compose_eq, compose_eq, htransport, h.lastIndex]

theorem energyAt (h : Turned sign shift p q) (z : ℝ) : p.energyAt z = q.energyAt z := by
  rw [Passage.energyAt, Passage.energyAt, h.motion, h.indexOf]

end Turned

end Turned

/-! ### Passages of fields that act alike -/

section Of

variable {profile' profile : Profile ℝ} {drive' drive : Drive ℝ} {probe' probe : Probe ℝ}
  {sign shift : ℝ}

/-- What holds of the samples holds everywhere, for outside them there is no field. -/
theorem force_of_samples (hsize : profile'.size = profile.size)
    (hforce : ∀ i : ℕ, i < profile.size →
      probe'.charge * drive'.amplitude * profile'.sample i =
        sign * (probe.charge * drive.amplitude * profile.sample i)) (i : ℤ) :
    probe'.charge * drive'.amplitude * profile'.sample i =
      sign * (probe.charge * drive.amplitude * profile.sample i) := by
  -- Outside the samples both forces vanish.
  have houtside (p : Profile ℝ) (hi : i < 0 ∨ (p.size : ℤ) ≤ i) : p.sample i = 0 := by
    unfold Profile.sample
    split_ifs with hneg
    · exact Scalar.real_zero
    · have hend : p.samples.size ≤ i.toNat := by
        have := hi.resolve_left hneg
        simp only [Profile.size] at this
        omega
      rw [Array.getD_eq_getD_getElem?, Array.getElem?_eq_none hend, Option.getD_none,
        Scalar.real_zero]
  by_cases hi : i < 0 ∨ (profile.size : ℤ) ≤ i
  · rw [houtside profile hi, houtside profile' (hsize ▸ hi), mul_zero, mul_zero, mul_zero]
  · obtain ⟨n, rfl⟩ : ∃ n : ℕ, i = n := ⟨i.toNat, by omega⟩
    exact hforce n (by omega)

/-- The kicks of fields that are turned against phases are the same, and the phases keep their
distance. -/
theorem motionAt_turned (hturn : Turn sign shift)
    (hentry : SameEntry profile' profile drive' drive probe' probe)
    (hphase : drive'.entryPhase = drive.entryPhase + shift)
    (hforce : ∀ i : ℤ, probe'.charge * drive'.amplitude * profile'.sample i =
      sign * (probe.charge * drive.amplitude * profile.sample i)) (n : ℕ) :
    motionAt profile' drive' probe' n =
      ⟨(motionAt profile drive probe n).phase + shift,
        (motionAt profile drive probe n).energy⟩ := by
  have homega : drive'.omega = drive.omega := by rw [Drive.omega, Drive.omega, hentry.frequency]
  induction n with
  | zero => exact Motion.mk.injEq .. |>.mpr ⟨hphase, hentry.kinetic⟩
  | succ n ih =>
    have hstep (profile : Profile ℝ) (drive : Drive ℝ) (probe : Probe ℝ) :
        motionAt profile drive probe (n + 1) =
          (synchronous profile drive probe).step n profile.spacing (motionAt profile drive probe n) :=
      rfl
    -- The kicks are the same, so the velocities behind them are, and both phases move on alike.
    rw [hstep, hstep, ih]
    simp only [SplitStep.step, synchronous, hforce, Scalar.real_cos, hturn.cos_mul, homega,
      hentry.rest, hentry.spacing, Motion.mk.injEq, and_true]
    ring

/-- Fields with the same force up to the sign of a turn give turned passages. -/
theorem turned_of (hturn : Turn sign shift)
    (hentry : SameEntry profile' profile drive' drive probe' probe)
    (hphase : drive'.entryPhase = drive.entryPhase + shift)
    (hforce : ∀ i : ℕ, i < profile.size →
      probe'.charge * drive'.amplitude * profile'.sample i =
        sign * (probe.charge * drive.amplitude * profile.sample i))
    (formula : LongitudinalFormula) :
    Turned sign shift (of profile' drive' probe' formula) (of profile drive probe formula) := by
  have hforces := force_of_samples hentry.size hforce
  refine ⟨hturn, rfl, hentry, hforces, fun i => ?_⟩
  -- Outside the samples the table is read as the entry, which is turned as well.
  rw [motion_of, motion_of, hentry.size]
  split_ifs
  · exact motionAt_turned hturn hentry hphase hforces i
  · rw [hphase, hentry.kinetic]

/-- Fields that are turned against phases act alike. -/
theorem Turned.actsAs {formula : LongitudinalFormula}
    (h : Turned sign shift (of profile' drive' probe' formula) (of profile drive probe formula)) :
    (of profile' drive' probe' formula).phases =
        (of profile drive probe formula).phases.map (· + shift) ∧
      (of profile' drive' probe' formula).ActsAs (of profile drive probe formula) := by
  have hsize : profile'.size = profile.size := h.entry.size
  -- What the fields of a turned passage read off the motion does not see the shift of the phase.
  constructor
  · rw [phases_eq_map, phases_eq_map, hsize, List.map_map]
    simp only [h.motion]
    rfl
  · exact {
      energies := by
        rw [energies_eq_map, energies_eq_map, hsize]
        simp only [h.motion]
      energyGain := fun y z => by rw [energyGain, energyGain, h.energyAt, h.energyAt]
      exitEnergy := by
        rw [exitProbe, exitProbe, Probe.withKineticEnergy, Probe.withKineticEnergy, h.motion,
          h.lastIndex]
      transferRange := fun i j => (h.compose i j).1
      transportRange := fun i j => (h.compose i j).2
      transferMap := fun y l => by
        rw [transferMap, transferMap, h.indexOf, h.indexOf, (h.compose _ _).1]
      transportBetween := fun y z => by
        rw [transportBetween, transportBetween, h.indexOf, h.indexOf, (h.compose _ _).2]
      fullMap := by rw [fullMap, fullMap, h.lastIndex, (h.compose _ _).1] }

/-- Fields with the same product of charge, amplitude and shape act alike. -/
theorem actsAs_of_sameForce (hentry : SameEntry profile' profile drive' drive probe' probe)
    (hphase : drive'.entryPhase = drive.entryPhase)
    (hforce : ∀ i : ℕ, i < profile.size →
      probe'.charge * drive'.amplitude * profile'.sample i =
        probe.charge * drive.amplitude * profile.sample i) (formula : LongitudinalFormula) :
    (of profile' drive' probe' formula).phases = (of profile drive probe formula).phases ∧
      (of profile' drive' probe' formula).ActsAs (of profile drive probe formula) := by
  have hsame : ∀ i : ℕ, i < profile.size → probe'.charge * drive'.amplitude * profile'.sample i =
      1 * (probe.charge * drive.amplitude * profile.sample i) := by
    intro i hi
    rw [one_mul, hforce i hi]
  have hturned := turned_of Turn.none hentry (by rw [hphase, add_zero]) hsame formula
  obtain ⟨hphases, hacts⟩ := hturned.actsAs
  refine ⟨?_, hacts⟩
  rw [hphases]
  simp

/-- Fields of opposite force act alike if the particle enters half a period later. -/
theorem actsAs_of_oppositeForce (hentry : SameEntry profile' profile drive' drive probe' probe)
    (hphase : drive'.entryPhase = drive.entryPhase + Real.pi)
    (hforce : ∀ i : ℕ, i < profile.size →
      probe'.charge * drive'.amplitude * profile'.sample i =
        -(probe.charge * drive.amplitude * profile.sample i)) (formula : LongitudinalFormula) :
    (of profile' drive' probe' formula).phases =
        (of profile drive probe formula).phases.map (· + Real.pi) ∧
      (of profile' drive' probe' formula).ActsAs (of profile drive probe formula) := by
  have hopposite : ∀ i : ℕ, i < profile.size →
      probe'.charge * drive'.amplitude * profile'.sample i =
        -1 * (probe.charge * drive.amplitude * profile.sample i) := by
    intro i hi
    rw [neg_one_mul, hforce i hi]
  exact (turned_of Turn.half hentry hphase hopposite formula).actsAs

end Of

end Passage

/-! ### Field maps -/

/-- What is wrong with two columns is not a matter of the sample values. -/
theorem Profile.fault?_samples (positions : Array ℝ) {samples samples' : Array ℝ}
    (h : samples'.size = samples.size) : fault? positions samples' = fault? positions samples := by
  have hfinite (a : Array ℝ) : a.all Scalar.isFinite = true := by simp
  unfold fault?
  rw [hfinite, hfinite, hfinite, h]

/-- The field of an accepted map is its shape times its peak. -/
theorem Command.FieldMap.exists_raw {path : String} {z ez : List ℝ} {field : FieldMap ℝ}
    (h : ofColumns path z ez = .ok field) :
    ∃ raw : Profile ℝ,
      Profile.mk? (z.map (· - z.headD 0)).toArray ez.toArray = .ok raw ∧
        raw.spacing = field.profile.spacing ∧ raw.size = field.profile.size ∧
        ∀ i : ℕ, i < raw.size → field.peak * field.profile.sample i = raw.sample i := by
  unfold ofColumns at h
  dsimp only at h
  split_ifs at h with hpeak
  -- The table was divided by its peak, which did not vanish.
  have hne : Scalar.maxAbs ez ≠ 0 := by simpa using hpeak
  split at h
  case h_2 => cases h
  case h_1 profile hprofile =>
    cases h
    obtain ⟨hpositions, hsamples⟩ := Profile.mk?_columns hprofile
    have hsize : ez.toArray.size = profile.samples.size := by simp [hsamples]
    have haccepted : Profile.fault? profile.positions ez.toArray = none := by
      rw [Profile.fault?_samples _ hsize]
      exact profile.accepted
    refine ⟨⟨profile.positions, ez.toArray, haccepted⟩, ?_, rfl, hsize, fun i hi => ?_⟩
    · rw [Scalar.real_zero] at hpositions
      rw [← hpositions]
      exact Profile.mk?_accepted haccepted
    · have hin : i < ez.length := hi
      simp [Profile.sample, hsamples, hin, mul_div_cancel₀, hne]

namespace Passage

/-- Only the product of charge, amplitude and shape matters, and its sign only together with half a
period of the phase. So the shape of a field map driven at the peak acts as the map itself, and a
negative charge in a field of negative amplitude as the positive charge. -/
theorem likeFields_actAlike :
    (∀ {profile' profile : Profile ℝ} {drive' drive : Drive ℝ} {probe' probe : Probe ℝ}
        (formula : LongitudinalFormula), SameEntry profile' profile drive' drive probe' probe →
      ((∀ i : ℕ, i < profile.size → probe'.charge * drive'.amplitude * profile'.sample i =
          probe.charge * drive.amplitude * profile.sample i) →
        drive'.entryPhase = drive.entryPhase →
        (of profile' drive' probe' formula).phases = (of profile drive probe formula).phases ∧
          (of profile' drive' probe' formula).ActsAs (of profile drive probe formula)) ∧
      ((∀ i : ℕ, i < profile.size → probe'.charge * drive'.amplitude * profile'.sample i =
          -(probe.charge * drive.amplitude * profile.sample i)) →
        drive'.entryPhase = drive.entryPhase + Real.pi →
        (of profile' drive' probe' formula).phases =
            (of profile drive probe formula).phases.map (· + Real.pi) ∧
          (of profile' drive' probe' formula).ActsAs (of profile drive probe formula))) ∧
    (∀ {path : String} {z ez : List ℝ} {field : Command.FieldMap ℝ},
      Command.FieldMap.ofColumns path z ez = .ok field →
        ∃ raw : Profile ℝ, Profile.mk? (z.map (· - z.headD 0)).toArray ez.toArray = .ok raw ∧
          ∀ (frequency entryPhase : ℝ) (probe : Probe ℝ) (formula : LongitudinalFormula),
            (of field.profile ⟨frequency, field.peak, entryPhase⟩ probe formula).phases =
                (of raw ⟨frequency, 1, entryPhase⟩ probe formula).phases ∧
              (of field.profile ⟨frequency, field.peak, entryPhase⟩ probe formula).ActsAs
                (of raw ⟨frequency, 1, entryPhase⟩ probe formula)) ∧
    ∀ (profile : Profile ℝ) (drive : Drive ℝ) (probe : Probe ℝ) (formula : LongitudinalFormula),
      (of profile { drive with amplitude := -drive.amplitude }
          { probe with charge := -probe.charge } formula).phases =
          (of profile drive probe formula).phases ∧
        (of profile { drive with amplitude := -drive.amplitude }
          { probe with charge := -probe.charge } formula).ActsAs
          (of profile drive probe formula) := by
  refine ⟨fun formula hentry => ⟨fun hforce hphase => ?_, fun hforce hphase => ?_⟩, ?_, ?_⟩
  · exact actsAs_of_sameForce hentry hphase hforce formula
  · exact actsAs_of_oppositeForce hentry hphase hforce formula
  · -- The peak is taken out of the profile and put into the amplitude.
    intro path z ez field hfield
    obtain ⟨raw, hraw, hspacing, hsize, hsamples⟩ := Command.FieldMap.exists_raw hfield
    refine ⟨raw, hraw, fun frequency entryPhase probe formula => ?_⟩
    have hentry : SameEntry field.profile raw ⟨frequency, field.peak, entryPhase⟩
        ⟨frequency, 1, entryPhase⟩ probe probe := ⟨rfl, rfl, rfl, hspacing.symm, hsize.symm⟩
    refine actsAs_of_sameForce hentry rfl (fun i hi => ?_) formula
    rw [mul_one, mul_assoc, hsamples i hi]
  · -- The two signs cancel in the product.
    intro profile drive probe formula
    have hentry : SameEntry profile profile { drive with amplitude := -drive.amplitude } drive
        { probe with charge := -probe.charge } probe := ⟨rfl, rfl, rfl, rfl, rfl⟩
    refine actsAs_of_sameForce hentry rfl (fun i _ => ?_) formula
    rw [neg_mul_neg]

/-- A field map in volts per metre, as it is and as shape and peak, and a negative particle that
enters half a period behind a positive one. -/
theorem likeFields_actAlike_hump :
    (∃ field : Command.FieldMap ℝ,
      Command.FieldMap.ofColumns "hump" [2, 3, 4] [0, -100000, 0] = .ok field ∧
        ∃ raw : Profile ℝ, Profile.mk? #[0, 1, 2] #[0, -100000, 0] = .ok raw ∧
          (of field.profile ⟨50000000, field.peak, -1⟩ ⟨2500000, 938272088, 1⟩ .quadratic).ActsAs
            (of raw ⟨50000000, 1, -1⟩ ⟨2500000, 938272088, 1⟩ .quadratic)) ∧
      (of hump ⟨50000000, 1, -1 + Real.pi⟩ ⟨2500000, 938272088, -1⟩ .logRatio).ActsAs
        (of hump ⟨50000000, 1, -1⟩ ⟨2500000, 938272088, 1⟩ .logRatio) := by
  -- The places are counted from the first one, as those of the hump are.
  have hplaces : ([2, 3, 4].map (· - [2, 3, 4].headD (0 : ℝ))).toArray = hump.positions := by
    norm_num [hump]
  have hpeak : Scalar.maxAbs [0, -100000, (0 : ℝ)] = 100000 := by
    simp [Scalar.maxAbs]
  obtain ⟨field, hfield⟩ : ∃ field : Command.FieldMap ℝ,
      Command.FieldMap.ofColumns "hump" [2, 3, 4] [0, -100000, 0] = .ok field := by
    have haccepted : Profile.fault? hump.positions
        ([0, -100000, 0].map (· / (100000 : ℝ))).toArray = none := by
      have hsize : ([0, -100000, 0].map (· / (100000 : ℝ))).toArray.size = hump.samples.size := rfl
      exact (Profile.fault?_samples _ hsize).trans hump.accepted
    refine ⟨⟨⟨_, _, haccepted⟩, 100000⟩, ?_⟩
    unfold Command.FieldMap.ofColumns
    dsimp only
    rw [hpeak, if_neg (by simp), Scalar.real_zero, hplaces, Profile.mk?_accepted haccepted]
  constructor
  · obtain ⟨raw, hraw, hacts⟩ := likeFields_actAlike.2.1 hfield
    rw [hplaces] at hraw
    exact ⟨field, hfield, raw, hraw, (hacts _ _ _ _).2⟩
  · have hentry : SameEntry hump hump (⟨50000000, 1, -1 + Real.pi⟩ : Drive ℝ) ⟨50000000, 1, -1⟩
        ⟨2500000, 938272088, -1⟩ ⟨2500000, 938272088, 1⟩ := ⟨rfl, rfl, rfl, rfl, rfl⟩
    refine ((likeFields_actAlike.1 .logRatio hentry).2 ?_ rfl).2
    intro i _
    ring

end Passage

end BeamOptics
