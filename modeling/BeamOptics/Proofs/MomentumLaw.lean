import BeamOptics.Proofs.LongitudinalArea

/-! Longitudinal areas along a line. The particle has a state at every place of a line, which is that
of the nearest sample in a gap; the area that a map makes of one at the entrance, times the momentum
of the particle where the map ends, is the momentum of the particle at the entrance. -/

namespace BeamOptics

/-! ### The particle along a line -/

section Course

variable {K : Type} [Scalar K]

/-- How the particle fares in an element: its state at a place, in a gap that of the nearest sample,
and its state behind the element. -/
def Element.course (formula : LongitudinalFormula) (probe : Probe K) :
    Element K → Except (Fault K) ((K → Probe K) × Probe K)
  | .drift _ => .ok (fun _ => probe, probe)
  | .gap model drive =>
    (model.profileFor probe).map fun profile =>
      let passage := Passage.of profile drive probe formula
      (fun z => probe.withKineticEnergy (passage.energyAt z), passage.exitProbe)

namespace BeamLine

def probeAlong (formula : LongitudinalFormula) :
    List (Element K) → Probe K → K → Except (Fault K) (Probe K)
  | [], probe, _ => .ok probe
  | e :: es, probe, z => do
    let (inside, exit) ← e.course formula probe
    if es = [] ∨ z ≤ e.length then .ok (inside z)
    else probeAlong formula es exit (z - e.length)

def passagesThrough (formula : LongitudinalFormula) :
    List (Element K) → Probe K → List (Passage K)
  | [], _ => []
  | .drift _ :: es, probe => passagesThrough formula es probe
  | .gap model drive :: es, probe =>
    match model.profileFor probe with
    | .error _ => []
    | .ok profile =>
      let passage := Passage.of profile drive probe formula
      passage :: passagesThrough formula es passage.exitProbe

def probeAt (line : BeamLine K) (p : K) : Except (Fault K) (Probe K) :=
  probeAlong line.formula line.elements line.probe p

def passages (line : BeamLine K) : List (Passage K) :=
  passagesThrough line.formula line.elements line.probe

end BeamLine

end Course

section Along

variable {charged : Option (ChargedBeam ℝ)} {formula : LongitudinalFormula} {probe exit : Probe ℝ}
  {e : Element ℝ} {es : List (Element ℝ)} {inside : ℝ → Probe ℝ}
  {segment : ℝ → ℝ → PhaseMap ℝ → Except (Fault ℝ) (PhaseMap ℝ)} {acc M : PhaseMap ℝ} {z a : ℝ}

/-- The particle at the end of an element is the one that leaves it. -/
theorem Element.course_length (h : e.course formula probe = .ok (inside, exit)) :
    inside e.length = exit := by
  cases e with
  | drift length =>
    cases h
    rfl
  | gap model drive =>
    obtain ⟨profile, hprofile, he⟩ := map_eq_ok.mp h
    cases he
    change probe.withKineticEnergy (Passage.energyAt _ model.length) = _
    rw [← FieldModel.profileFor_length hprofile, Passage.energyAt]
    change probe.withKineticEnergy (Passage.motion _ (profile.indexOf profile.length)).energy = _
    rw [profile.indexOf_length]
    rfl

theorem Element.course_of_rule (h : e.rule charged formula probe = .ok (segment, exit)) :
    ∃ inside, e.course formula probe = .ok (inside, exit) := by
  cases e with
  | drift length =>
    cases h
    exact ⟨_, rfl⟩
  | gap model drive =>
    obtain ⟨profile, hprofile, he⟩ := map_eq_ok.mp h
    cases he
    exact ⟨_, map_eq_ok.mpr ⟨profile, hprofile, rfl⟩⟩

/-- A particle gets through elements one after the other. -/
theorem BeamLine.probeBehind_course (formula : LongitudinalFormula) (e : Element ℝ)
    (es : List (Element ℝ)) (probe : Probe ℝ) :
    probeBehind formula (e :: es) probe =
      e.course formula probe >>= fun r => probeBehind formula es r.2 := by
  cases e with
  | drift length => rfl
  | gap model drive =>
    change model.profileFor probe >>= _ = (model.profileFor probe).map _ >>= _
    cases model.profileFor probe with
    | error f => rfl
    | ok profile => rfl

/-- The particle enters the elements and moves at every sample of their gaps. -/
structure MovesThrough (formula : LongitudinalFormula) (es : List (Element ℝ)) (probe : Probe ℝ) :
    Prop where
  entry : probe.Moving
  gaps : ∀ p ∈ BeamLine.passagesThrough formula es probe, ∀ w ∈ p.energies, 0 < w

/-- In a gap the passage moves, and so does the particle behind it through the elements that remain.
-/
theorem MovesThrough.passage {model : FieldModel ℝ} {drive : Drive ℝ} {profile : Profile ℝ}
    (h : MovesThrough formula (.gap model drive :: es) probe)
    (hprofile : model.profileFor probe = .ok profile) :
    (Passage.of profile drive probe formula).Moving ∧
      MovesThrough formula es (Passage.of profile drive probe formula).exitProbe := by
  have hgaps := h.gaps
  rw [BeamLine.passagesThrough, hprofile] at hgaps
  obtain ⟨hfirst, hrest⟩ := List.forall_mem_cons.mp hgaps
  have hmoving : (Passage.of profile drive probe formula).Moving := ⟨h.entry, hfirst⟩
  exact ⟨hmoving, hmoving.exitProbe, hrest⟩

theorem MovesThrough.next (h : MovesThrough formula (e :: es) probe)
    (hcourse : e.course formula probe = .ok (inside, exit)) : MovesThrough formula es exit := by
  cases e with
  | drift length =>
    cases hcourse
    exact ⟨h.entry, h.gaps⟩
  | gap model drive =>
    obtain ⟨profile, hprofile, he⟩ := map_eq_ok.mp hcourse
    cases he
    exact (h.passage hprofile).2

/-- In an element the area goes down as the momentum of the particle goes up. -/
theorem Element.rule_hasArea (h : MovesThrough .logRatio (e :: es) probe) (hz : 0 ≤ z)
    (hrule : e.rule charged .logRatio probe = .ok (segment, exit))
    (hcourse : e.course .logRatio probe = .ok (inside, exit)) (hacc : acc.HasArea a)
    (hM : segment 0 z acc = .ok M) :
    ∃ b, M.HasArea b ∧ b * (inside z).betaGamma = a * probe.betaGamma := by
  cases e with
  | drift length =>
    cases hrule
    cases hcourse
    exact ⟨a, driftSegment_hasArea hacc hM, rfl⟩
  | gap model drive =>
    obtain ⟨profile, hprofile, hr⟩ := map_eq_ok.mp hrule
    obtain ⟨profile', hprofile', hc⟩ := map_eq_ok.mp hcourse
    cases hprofile.symm.trans hprofile'
    -- Places in the gap stand for their nearest samples, the entrance for the first one.
    obtain ⟨p, hp⟩ : ∃ p, p = Passage.of profile drive probe .logRatio := ⟨_, rfl⟩
    have hmoving : p.Moving := hp ▸ (h.passage hprofile).1
    have hformula : p.formula = .logRatio := hp ▸ rfl
    have hstart : p.momentumAt (p.profile.indexOf 0) = probe.betaGamma := by
      rw [Profile.indexOf_zero, Passage.momentumAt, Passage.betaAt, Passage.gammaAt, hp,
        Passage.motion_zero]
      rfl
    have hinside : (inside z).betaGamma = p.momentumAt (p.profile.indexOf z) := by
      cases hc
      rw [hp]
      rfl
    have hsegment : M = p.transportBetween 0 z * acc := by
      cases hr
      cases hM
      rw [hp]
    have hne := (hmoving.momentumAt_pos (p.profile.indexOf z)).ne'
    refine ⟨_, hsegment ▸ (Passage.transportBetween_hasArea hmoving hformula hz).mul hacc, ?_⟩
    rw [hinside, hstart]
    field_simp

namespace BeamLine

theorem probeAlong_here (h : es = [] ∨ z ≤ e.length)
    (hcourse : e.course formula probe = .ok (inside, exit)) :
    probeAlong formula (e :: es) probe z = .ok (inside z) := by
  rw [probeAlong, hcourse]
  exact if_pos h

theorem probeAlong_later (h : ¬ (es = [] ∨ z ≤ e.length))
    (hcourse : e.course formula probe = .ok (inside, exit)) :
    probeAlong formula (e :: es) probe z = probeAlong formula es exit (z - e.length) := by
  rw [probeAlong, hcourse]
  exact if_neg h

/-- Along elements the area that a map makes, times the momentum of the particle where the map ends,
stays what it is. -/
theorem reach_hasArea (hne : es ≠ []) (hpos : ∀ e ∈ es, 0 < e.length)
    (h : MovesThrough .logRatio es probe) (hz : 0 ≤ z) (hacc : acc.HasArea a)
    (hM : reach charged .logRatio es probe z acc = .ok M) :
    ∃ q b, probeAlong .logRatio es probe z = .ok q ∧ M.HasArea b ∧
      b * q.betaGamma = a * probe.betaGamma := by
  induction es generalizing probe z acc a with
  | nil => exact absurd rfl hne
  | cons e es ih =>
    obtain ⟨he, hes⟩ := List.forall_mem_cons.mp hpos
    by_cases hhere : es = [] ∨ z ≤ e.length
    · rw [reach_here hhere] at hM
      obtain ⟨⟨segment, exit⟩, hrule, hM⟩ := bind_eq_ok.mp hM
      obtain ⟨inside, hcourse⟩ := Element.course_of_rule hrule
      obtain ⟨b, hb, hlaw⟩ := Element.rule_hasArea h hz hrule hcourse hacc hM
      exact ⟨inside z, b, probeAlong_here hhere hcourse, hb, hlaw⟩
    · rw [reach_later hhere] at hM
      obtain ⟨⟨segment, exit⟩, hrule, hM⟩ := bind_eq_ok.mp hM
      obtain ⟨N, hN, hM⟩ := bind_eq_ok.mp hM
      obtain ⟨inside, hcourse⟩ := Element.course_of_rule hrule
      -- The whole element is passed, and the induction goes on with the particle behind it.
      obtain ⟨c, hc, hfirst⟩ := Element.rule_hasArea h he.le hrule hcourse hacc hN
      rw [Element.course_length hcourse] at hfirst
      have hne' : es ≠ [] := fun hnil => hhere (Or.inl hnil)
      have hlater : e.length < z := not_le.mp fun hle => hhere (Or.inr hle)
      obtain ⟨q, b, hq, hb, hlaw⟩ := ih hne' hes (h.next hcourse) (by linarith) hc hM
      exact ⟨q, b, (probeAlong_later hhere hcourse).trans hq, hb, hlaw.trans hfirst⟩

/-- At the end of elements the particle is the one behind them. -/
theorem probeAlong_end (hpos : ∀ e ∈ es, 0 < e.length) :
    probeAlong formula es probe (es.map Element.length).sum = probeBehind formula es probe := by
  -- By induction over the elements, of which the last one takes the end.
  induction es generalizing probe with
  | nil => rfl
  | cons e es ih =>
    obtain ⟨he, hes⟩ := List.forall_mem_cons.mp hpos
    rw [probeBehind_course, List.map_cons, List.sum_cons]
    cases hcourse : e.course formula probe with
    | error f =>
      rw [probeAlong, hcourse]
      rfl
    | ok r =>
      obtain ⟨inside, exit⟩ := r
      by_cases hnil : es = []
      · subst hnil
        rw [probeAlong_here (Or.inl rfl) hcourse, List.map_nil, List.sum_nil, add_zero,
          Element.course_length hcourse]
        rfl
      · have hlater : ¬ (es = [] ∨ e.length + (es.map Element.length).sum ≤ e.length) := by
          rintro (h | h)
          · exact hnil h
          · linarith [sum_length_pos hes hnil]
        rw [probeAlong_later hlater hcourse, add_sub_cancel_left]
        exact ih hes

end BeamLine

end Along

/-! ### The law -/

namespace BeamLine

/-- The area that the map to a position makes of a longitudinal one, times the momentum of the
particle at the position, is the momentum of the particle at the entrance. -/
def MomentumLaw (line : BeamLine ℝ) (ps : List ℝ) (Ms : List (PhaseMap ℝ)) : Prop :=
  List.Forall₂ (fun p M => ∃ q, line.probeAt p = .ok q ∧
    (M.block .longitudinal).det * q.betaGamma = line.probe.betaGamma) ps Ms

/-- Every walk through a line on which the particle moves obeys the law, whatever its charge. -/
theorem momentumLaw_walk {line : BeamLine ℝ} (hline : line.Built)
    (hformula : line.formula = .logRatio)
    (hmoves : MovesThrough .logRatio line.elements line.probe) (charged : Option (ChargedBeam ℝ))
    {ps : List ℝ} {Ms : List (PhaseMap ℝ)} (h : line.walk charged ps = .ok Ms) :
    line.MomentumLaw ps Ms := by
  have hps := checkPositions_of_walk h
  obtain ⟨-, hways⟩ := (walk_eq_ok hline hps).mp h
  have hsorted := ((checkPositions_eq_ok le_rfl).mp hps).1
  have hstart : ∀ p ∈ ps, 0 ≤ p := (List.pairwise_cons.mp hsorted).1
  refine ((List.forall₂_and_left _ _).mpr ⟨hstart, hways⟩).imp ?_
  rintro p M ⟨hp, hM⟩
  rw [wayTo, hformula] at hM
  obtain ⟨q, b, hq, hb, hlaw⟩ := reach_hasArea hline.ne_nil hline.length_pos hmoves hp
    PhaseMap.HasArea.identity hM
  refine ⟨q, ?_, ?_⟩
  · rw [probeAt, hformula]
    exact hq
  · rw [hb.det_eq, hlaw, one_mul]

theorem probeAt_length {line : BeamLine ℝ} (hline : line.Built) :
    line.probeAt line.length = line.exitProbe := by
  rw [probeAt, length_eq_sum]
  exact probeAlong_end hline.length_pos

/-- Along a line with the logarithmic formula, and over any range of samples of one passage, areas
go down as the momentum of the particle goes up. -/
theorem longitudinal_det :
    (∀ {line : BeamLine ℝ} {kinetic rest charge : ℝ}, line.Built → line.formula = .logRatio →
      Probe.mk? kinetic rest charge = .ok line.probe →
      (∀ p ∈ line.passages, ∀ w ∈ p.energies, 0 < w) →
        (∀ beam {ps Ms}, line.mapsAt beam ps = .ok Ms → line.MomentumLaw ps Ms) ∧
        (∀ {ps Ms}, line.zeroCurrentMaps ps = .ok Ms → line.MomentumLaw ps Ms) ∧
        line.probeAt line.length = line.exitProbe) ∧
    ∀ {probe : Probe ℝ} {kinetic rest charge : ℝ} (profile : Profile ℝ) (drive : Drive ℝ),
      Probe.mk? kinetic rest charge = .ok probe →
      let passage := Passage.of profile drive probe .logRatio
      (∀ w ∈ passage.energies, 0 < w) → ∀ {i j}, i ≤ j → j < profile.size →
        ((passage.transferRange i j).block .longitudinal).det =
            passage.betaAt i * passage.gammaAt i / (passage.betaAt j * passage.gammaAt j) ∧
          ((passage.transportRange i j).block .longitudinal).det =
            passage.betaAt i * passage.gammaAt i / (passage.betaAt j * passage.gammaAt j) := by
  constructor
  · intro line kinetic rest charge hline hformula hprobe hgaps
    have hmoves : MovesThrough .logRatio line.elements line.probe :=
      ⟨Probe.moving_of_mk? hprobe, by rw [← hformula]; exact hgaps⟩
    exact ⟨fun beam _ _ h => momentumLaw_walk hline hformula hmoves _ h,
      fun h => momentumLaw_walk hline hformula hmoves _ h, probeAt_length hline⟩
  · intro probe kinetic rest charge profile drive hprobe passage henergies i j hij hj
    have hmoving : passage.Moving := ⟨Probe.moving_of_mk? hprobe, henergies⟩
    exact Passage.range_det hmoving rfl hij (Nat.le_sub_one_of_lt hj)

noncomputable def ramp : Profile ℝ where
  positions := #[0, 1 / 10]
  samples := #[150000, 0]
  accepted := Profile.fault?_of_equal_steps (by norm_num : (0 : ℝ) < 1 / 10) rfl le_rfl
    fun i (hi : i < 2) => by interval_cases i <;> simp

noncomputable def rampLine : BeamLine ℝ where
  probe := ⟨3000000, 938272088, 1⟩
  elements := [.drift (1 / 2), .gap (.sampled ramp) ⟨80000000, 1, -1⟩, .drift 1,
    .gap (.sampled ramp) ⟨80000000, 1, -1⟩]
  spaceCharge := some ⟨1 / 1000, 1 / 1000, 1 / 4⟩

theorem ramp_spacing : ramp.spacing = 1 / 10 := by
  simp [Profile.spacing, Profile.meanStep, ramp]

theorem ramp_length : ramp.length = 1 / 10 := by
  rw [Profile.length, ramp_spacing]
  simp [Profile.size, ramp]

theorem ramp_samples : ramp.sample 0 = 150000 ∧ ramp.sample 1 = 0 := by
  simp [Profile.sample, ramp]

theorem ramp_energies (probe : Probe ℝ) (hcharge : probe.charge = 1) :
    (Passage.of ramp ⟨80000000, 1, -1⟩ probe .logRatio).energies =
      [probe.kineticEnergy, probe.kineticEnergy + 15000 * Real.cos 1] := by
  have hsize : ramp.size = 2 := rfl
  have hgain (x : ℝ) : 150000 * x * (1 / 10) = 15000 * x := by ring
  simp [Passage.energies, Passage.of, SplitStep.integrate, SplitStep.statesFrom, SplitStep.step,
    Passage.synchronous, hsize, ramp_spacing, ramp_samples, hcharge, ← hgain]

theorem ramp_energies_pos {probe : Probe ℝ} (hcharge : probe.charge = 1)
    (hkinetic : 0 < probe.kineticEnergy) :
    ∀ w ∈ (Passage.of ramp ⟨80000000, 1, -1⟩ probe .logRatio).energies, 0 < w := by
  have hgain : 0 < Real.cos 1 := Real.cos_one_pos
  rw [ramp_energies probe hcharge]
  intro w hw
  rcases List.mem_pair.mp hw with rfl | rfl
  · exact hkinetic
  · positivity

theorem rampLine_built : rampLine.Built := by
  have hmodel : SpaceCharge.mk? (1 / 1000) (1 / 1000) (1 / 4) =
      .ok (⟨1 / 1000, 1 / 1000, 1 / 4⟩ : SpaceCharge ℝ) := by
    simp [SpaceCharge.mk?]
  have hlength := ramp.length_pos
  have hnew : mk? rampLine.probe rampLine.elements =
      .ok { probe := rampLine.probe, elements := rampLine.elements } := by
    simp [rampLine, mk?, lengthFault?, Element.length, FieldModel.length, hlength]
  exact .withSpaceCharge hmodel (.new hnew)

theorem rampLine_probe : Probe.mk? 3000000 938272088 1 = .ok rampLine.probe := by
  simp [Probe.mk?, rampLine]

/-- The particle moves in the first gap and enters the second one moving. -/
theorem rampLine_moves :
    (∀ w ∈ (Passage.of ramp ⟨80000000, 1, -1⟩ rampLine.probe .logRatio).energies, 0 < w) ∧
      (Passage.of ramp ⟨80000000, 1, -1⟩ rampLine.probe .logRatio).exitProbe.Moving := by
  have hfirst :
      ∀ w ∈ (Passage.of ramp ⟨80000000, 1, -1⟩ rampLine.probe .logRatio).energies, 0 < w :=
    ramp_energies_pos rfl (by norm_num [rampLine])
  exact ⟨hfirst, Passage.Moving.exitProbe ⟨Probe.moving_of_mk? rampLine_probe, hfirst⟩⟩

theorem longitudinal_det_rampLine :
    rampLine.Built ∧ Probe.mk? 3000000 938272088 1 = .ok rampLine.probe ∧
      (∀ p ∈ rampLine.passages, ∀ w ∈ p.energies, 0 < w) ∧
      (∀ beam {ps Ms}, rampLine.mapsAt beam ps = .ok Ms → rampLine.MomentumLaw ps Ms) ∧
      rampLine.probeAt rampLine.length = rampLine.exitProbe ∧
      ∀ p, p = Passage.of ramp ⟨80000000, 1, -1⟩ rampLine.probe .logRatio →
        ((p.transportRange 0 1).block .longitudinal).det =
          p.betaAt 0 * p.gammaAt 0 / (p.betaAt 1 * p.gammaAt 1) := by
  obtain ⟨hfirst, hexit⟩ := rampLine_moves
  have hgaps : ∀ p ∈ rampLine.passages, ∀ w ∈ p.energies, 0 < w := by
    intro p hp
    rcases List.mem_pair.mp hp with rfl | rfl
    · exact hfirst
    · exact ramp_energies_pos rfl hexit.kinetic
  obtain ⟨hlines, hpassages⟩ := longitudinal_det
  obtain ⟨hmaps, -, hend⟩ := hlines rampLine_built rfl rampLine_probe hgaps
  refine ⟨rampLine_built, rampLine_probe, hgaps, hmaps, hend, ?_⟩
  rintro p rfl
  exact (hpassages ramp _ rampLine_probe hfirst (Nat.zero_le 1) (by simp [Profile.size, ramp])).2

end BeamLine

end BeamOptics
