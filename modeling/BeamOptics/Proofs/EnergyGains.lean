import BeamOptics.Proofs.PhysicalBeams
import BeamOptics.Proofs.SampleStates

/-! Where the energy of the particle comes from. Every sample of a field but the last adds the work of
its force over one step, so the gain between two places is the sum over the samples between them. In a
short gap there is one such sample, and along a line of short gaps the gains add up, each taken at the
velocity with which the particle enters its gap. -/

namespace BeamOptics

namespace Passage

noncomputable def work (p : Passage ℝ) (i : ℕ) : ℝ :=
  p.probe.charge * p.drive.amplitude * p.profile.sample i * Real.cos (p.motion i).phase *
    p.profile.spacing

/-- Phases and energies of the passage follow from its entry sample by sample. -/
structure KeepsBooks (p : Passage ℝ) : Prop where
  phases : p.phases = (List.range p.profile.size).map fun i => (p.motion i).phase
  energies : p.energies = (List.range p.profile.size).map fun i => (p.motion i).energy
  entry : p.motion 0 = ⟨p.drive.entryPhase, p.probe.kineticEnergy⟩
  phase : ∀ i, i + 1 < p.profile.size → (p.motion (i + 1)).phase =
    (p.motion i).phase + p.drive.omega * p.profile.spacing / (p.betaAt (i + 1) * speedOfLight)
  gain : ∀ y z, y ≤ z → p.energyGain y z =
    ∑ i ∈ Finset.Ico (p.profile.indexOf y) (p.profile.indexOf z), p.work i
  exit : p.exitProbe =
    { p.probe with kineticEnergy := p.probe.kineticEnergy + p.energyGain 0 p.profile.length }

section Of

variable (profile : Profile ℝ) (drive : Drive ℝ) (probe : Probe ℝ) (formula : LongitudinalFormula)

/-- From one sample to a later one the energy goes up by the work at the samples between. -/
theorem energy_eq_add_sum {i j : ℕ} (hij : i ≤ j) (hj : j < profile.size) :
    ((of profile drive probe formula).motion j).energy =
      ((of profile drive probe formula).motion i).energy +
        ∑ k ∈ Finset.Ico i j, (of profile drive probe formula).work k := by
  -- On the later sample: what is behind one more sample has one more summand.
  induction j, hij using Nat.le_induction with
  | base => rw [Finset.Ico_self, Finset.sum_empty, add_zero]
  | succ j hij ih =>
    rw [Finset.sum_Ico_succ_top hij, ← add_assoc, ← ih (Nat.lt_of_succ_lt hj),
      energy_succ profile drive probe formula hj]
    rfl

/-- The passage of a particle through any field keeps its books. -/
theorem keepsBooks_of : (of profile drive probe formula).KeepsBooks where
  phases := phases_eq_map profile drive probe formula
  energies := energies_eq_map profile drive probe formula
  entry := motion_zero profile drive probe formula
  phase _ hi := phase_succ profile drive probe formula hi
  gain y z hyz := by
    rw [energyGain, energyAt, energyAt]
    exact sub_eq_of_eq_add' (energy_eq_add_sum profile drive probe formula
      (profile.indexOf_mono hyz) (profile.indexOf_lt z))
  exit := by
    -- The end of the field snaps to the last sample, whose own work is never done.
    have hend : profile.indexOf profile.length = profile.size - 1 := profile.indexOf_length
    have hgain : (of profile drive probe formula).energyGain 0 profile.length =
        ((of profile drive probe formula).motion (profile.size - 1)).energy -
          probe.kineticEnergy := by
      rw [energyGain, energyAt, energyAt]
      change ((of profile drive probe formula).motion (profile.indexOf profile.length)).energy -
        ((of profile drive probe formula).motion (profile.indexOf 0)).energy = _
      rw [hend, Profile.indexOf_zero, motion_zero]
    change probe.withKineticEnergy _ = probe.withKineticEnergy
      (probe.kineticEnergy + (of profile drive probe formula).energyGain 0 profile.length)
    rw [hgain, add_sub_cancel]
    rfl

end Of

end Passage

/-! ### Short gaps -/

/-- The value of a polynomial is the sum of its terms. -/
theorem TransitFit.factor_eq_sum (fit : TransitFit ℝ) (beta : ℝ) :
    fit.factor beta = ∑ k : Fin fit.coefficients.length, fit.coefficients[k] * beta ^ (k : ℕ) := by
  obtain ⟨length, coefficients⟩ := fit
  simp only [factor, Scalar.real_zero]
  induction coefficients with
  | nil => simp
  | cons c cs ih =>
    -- Behind the constant term every power is one higher.
    rw [List.foldr_cons, ih]
    simp only [List.length_cons, Fin.sum_univ_succ, Finset.sum_mul]
    simp [pow_succ, mul_assoc, add_comm]

namespace Element

inductive IsShort : Element ℝ → Prop
  | drift (length : ℝ) : IsShort (.drift length)
  | gap (fit : TransitFit ℝ) (drive : Drive ℝ) : IsShort (.gap (.transitFit fit) drive)

noncomputable def gain (probe : Probe ℝ) : Element ℝ → ℝ
  | .gap (.transitFit fit) drive =>
    probe.charge * drive.amplitude * fit.length * Real.cos drive.entryPhase *
      ∑ k : Fin fit.coefficients.length, fit.coefficients[k] * probe.beta ^ (k : ℕ)
  | _ => 0

section Step

variable {formula : LongitudinalFormula} {probe exit : Probe ℝ} {e : Element ℝ}
  {inside : ℝ → Probe ℝ}

/-- A drift or a short gap changes the energy of the particle by what it adds. -/
theorem course_of_isShort (he : e.IsShort) (h : e.course formula probe = .ok (inside, exit)) :
    exit = probe.withKineticEnergy (probe.kineticEnergy + e.gain probe) := by
  cases he with
  | drift length =>
    cases h
    change probe = probe.withKineticEnergy (probe.kineticEnergy + 0)
    rw [add_zero]
    rfl
  | gap fit drive =>
    obtain ⟨profile, hprofile, he⟩ := map_eq_ok.mp h
    cases he
    rw [FieldModel.profileFor, Scalar.real_zero] at hprofile
    have hsamples : profile.samples = #[fit.factor probe.beta, 0] := Profile.uniform_samples hprofile
    have hsize : profile.size = 2 := congrArg Array.size hsamples
    have hfirst : profile.sample 0 = fit.factor probe.beta := by simp [Profile.sample, hsamples]
    have hspacing : profile.spacing = fit.length := by
      rw [← Profile.uniform_length hprofile, Profile.length, hsize]
      simp
    -- The one step of the profile is the whole gap.
    have hwork : (Passage.of profile drive probe formula).work 0 =
        (Element.gap (.transitFit fit) drive).gain probe := by
      rw [Passage.work, Passage.motion_zero, gain, ← TransitFit.factor_eq_sum, ← hspacing, ← hfirst]
      simp only [Passage.of, Nat.cast_zero]
      ring
    have hbooks := Passage.keepsBooks_of profile drive probe formula
    have hgain : (Passage.of profile drive probe formula).energyGain 0 profile.length =
        (Element.gap (.transitFit fit) drive).gain probe := by
      rw [hbooks.gain 0 _ profile.length_pos.le]
      change ∑ i ∈ Finset.Ico (profile.indexOf 0) (profile.indexOf profile.length), _ = _
      rw [Profile.indexOf_zero, Profile.indexOf_length, hsize]
      simp [hwork]
    rw [hbooks.exit, ← hgain]
    rfl

end Step

end Element

/-! ### Lines -/

namespace BeamLine

section Run

variable {formula : LongitudinalFormula} {probe q : Probe ℝ} {es : List (Element ℝ)}

/-- What elements add to the energy of a particle that enters each in a state of its own. -/
noncomputable def totalGain (es : List (Element ℝ)) (particle : ℕ → Probe ℝ) : ℝ :=
  ∑ m : Fin es.length, es[m].gain (particle m)

theorem totalGain_nil (particle : ℕ → Probe ℝ) : totalGain [] particle = 0 := Fin.sum_univ_zero _

theorem totalGain_cons (e : Element ℝ) (es : List (Element ℝ)) (particle : ℕ → Probe ℝ) :
    totalGain (e :: es) particle = e.gain (particle 0) + totalGain es fun m => particle (m + 1) :=
  Fin.sum_univ_succ _

/-- The particle in front of every element, and behind the last one, where it has the energy that the
elements have given it. -/
structure Account (formula : LongitudinalFormula) (es : List (Element ℝ)) (probe : Probe ℝ)
    (particle : ℕ → Probe ℝ) (q : Probe ℝ) : Prop where
  entrances : ∀ m ≤ es.length, probeBehind formula (es.take m) probe = .ok (particle m)
  total : q = { probe with kineticEnergy := probe.kineticEnergy + totalGain es particle }

/-- A particle that gets through short gaps has an account of its energy. -/
theorem exists_account (hes : ∀ e ∈ es, e.IsShort) (h : probeBehind formula es probe = .ok q) :
    ∃ particle, Account formula es probe particle q := by
  induction es generalizing probe with
  | nil =>
    obtain rfl : probe = q := Except.ok.inj h
    refine ⟨fun _ => probe, fun m _ => ?_, ?_⟩
    · rw [List.take_nil]
      rfl
    · rw [totalGain_nil, add_zero]
  | cons e es ih =>
    obtain ⟨he, hes⟩ := List.forall_mem_cons.mp hes
    rw [probeBehind_course] at h
    obtain ⟨⟨inside, exit⟩, hcourse, h⟩ := bind_eq_ok.mp h
    -- The others keep their account from the particle that the first one leaves.
    obtain ⟨particle, haccount⟩ := ih hes h
    refine ⟨fun m => m.casesOn probe particle, fun m hm => ?_, ?_⟩
    · cases m with
      | zero => rfl
      | succ m =>
        rw [List.take_succ_cons, probeBehind_course, hcourse]
        exact haccount.entrances m (Nat.le_of_succ_le_succ hm)
    · rw [haccount.total, Element.course_of_isShort he hcourse, totalGain_cons, ← add_assoc]
      rfl

/-- The formula for the longitudinal diagonal has no part in the motion of the particle. -/
theorem probeBehind_formula (formula formula' : LongitudinalFormula) (es : List (Element ℝ))
    (probe : Probe ℝ) : probeBehind formula es probe = probeBehind formula' es probe := by
  induction es generalizing probe with
  | nil => rfl
  | cons e es ih =>
    cases e with
    | drift length => exact ih probe
    | gap model drive => exact bind_congr fun profile => ih _

/-- A walk leaves with the particle behind the elements, whatever its positions are. -/
theorem probeBehind_of_passAll {line : BeamLine ℝ} {charged : Option (ChargedBeam ℝ)}
    {c d : Cursor ℝ} (h : line.passAll charged es c = .ok d) :
    probeBehind line.formula es c.probe = .ok d.probe := by
  induction es generalizing c with
  | nil =>
    cases h
    rfl
  | cons e es ih =>
    obtain ⟨c', hadvance, h⟩ := passAll_cons_ok.mp h
    -- The stops of an element choose the maps that are listed, not the particle behind it.
    rw [advance_eq] at hadvance
    obtain ⟨⟨segment, exit⟩, hrule, hstops⟩ := bind_eq_ok.mp hadvance
    obtain ⟨t, -, rfl⟩ := map_eq_ok.mp hstops
    rw [probeBehind_cons hrule]
    exact ih h

/-- Drifts and short gaps of positive lengths stop no particle. -/
theorem probeBehind_short (hes : ∀ e ∈ es, e.IsShort) (hpos : ∀ e ∈ es, 0 < e.length) :
    ∃ q, probeBehind formula es probe = .ok q := by
  induction es generalizing probe with
  | nil => exact ⟨probe, rfl⟩
  | cons e es ih =>
    obtain ⟨he, hrest⟩ := List.forall_mem_cons.mp hes
    obtain ⟨hlength, hlater⟩ := List.forall_mem_cons.mp hpos
    cases he with
    | drift length => exact ih hrest hlater
    | gap fit drive =>
      obtain ⟨profile, hprofile⟩ := FieldModel.exists_profileFor_transitFit hlength probe
      rw [probeBehind, hprofile]
      exact ih hrest hlater

end Run

/-- Between two places of a field the particle gains the work at the samples between, and along a line
of drifts and short gaps the sum of what the gaps add at the velocities with which it enters them. -/
theorem energy_accounts :
    (∀ (profile : Profile ℝ) (drive : Drive ℝ) (probe : Probe ℝ) (formula : LongitudinalFormula),
      (Passage.of profile drive probe formula).KeepsBooks) ∧
    ∀ {line : BeamLine ℝ}, (∀ e ∈ line.elements, e.IsShort) →
      (line.Built → ∃ q, line.exitProbe = .ok q) ∧
      ∀ {q : Probe ℝ}, line.exitProbe = .ok q →
        (∃ particle, Account line.formula line.elements line.probe particle q) ∧
        (∀ formula, { line with formula }.exitProbe = .ok q) ∧
        ∀ charged positions c,
          line.passAll charged line.elements (line.entrance positions) = .ok c → c.probe = q := by
  refine ⟨Passage.keepsBooks_of, fun {line} hshort => ⟨fun hline => ?_, fun {q} hq => ?_⟩⟩
  · exact probeBehind_short hshort hline.length_pos
  · refine ⟨exists_account hshort hq, fun formula => ?_, fun charged positions c hc => ?_⟩
    · exact (probeBehind_formula formula line.formula line.elements line.probe).trans hq
    · have hbehind := probeBehind_of_passAll hc
      exact Except.ok.inj (hbehind.symm.trans hq)

noncomputable def shortGaps : BeamLine ℝ where
  probe := ⟨3000000, 938272088, 1⟩
  elements := [.drift (1 / 2), .gap (.transitFit ⟨1 / 10, [150000]⟩) ⟨80000000, 1, 0⟩, .drift 1,
    .gap (.transitFit ⟨1 / 5, [1000, -3]⟩) ⟨80000000, -1, 0⟩]

theorem shortGaps_isShort : ∀ e ∈ shortGaps.elements, e.IsShort := by
  intro e he
  simp only [shortGaps, List.mem_cons, List.not_mem_nil, or_false] at he
  rcases he with rfl | rfl | rfl | rfl
  · exact .drift _
  · exact .gap _ _
  · exact .drift _
  · exact .gap _ _

theorem shortGaps_built : shortGaps.Built := by
  have hnew : mk? shortGaps.probe shortGaps.elements =
      .ok { probe := shortGaps.probe, elements := shortGaps.elements } := by
    simp [shortGaps, mk?, lengthFault?, Element.length, FieldModel.length]
  exact .new hnew

/-- A walk without positions gets through the gaps. -/
theorem shortGaps_passAll :
    ∃ c, shortGaps.passAll none shortGaps.elements (shortGaps.entrance []) = .ok c := by
  obtain ⟨q, hq⟩ : ∃ q, probeBehind .logRatio shortGaps.elements shortGaps.probe = .ok q :=
    probeBehind_short shortGaps_isShort shortGaps_built.length_pos
  obtain ⟨M, -, hthrough⟩ : ∃ M, M.KeepsOrientation ∧
      through none .logRatio shortGaps.elements shortGaps.probe .identity =
        (probeBehind .logRatio shortGaps.elements shortGaps.probe).map (M, ·) :=
    through_eq (by simp [PhysicallyCharged]) PhaseMap.KeepsOrientation.identity
  have hpass : (shortGaps.passAll none shortGaps.elements (shortGaps.entrance []) >>= fun c =>
      .ok (c.map, c.probe)) = through none .logRatio shortGaps.elements shortGaps.probe .identity :=
    passAll_through shortGaps.elements rfl
  rw [hthrough, hq] at hpass
  obtain ⟨c, hc, -⟩ := bind_eq_ok.mp hpass
  exact ⟨c, hc⟩

/-- The second gap takes from the particle what its velocity behind the first one makes of it. -/
theorem energy_accounts_shortGaps :
    (∀ e ∈ shortGaps.elements, e.IsShort) ∧ shortGaps.Built ∧
      ∃ particle q, Account .logRatio shortGaps.elements shortGaps.probe particle q ∧
        shortGaps.exitProbe = .ok q ∧ particle 3 = ⟨3015000, 938272088, 1⟩ ∧
        q = ⟨3015000 - 1 / 5 * (1000 - 3 * (particle 3).beta), 938272088, 1⟩ ∧
        ∃ c, shortGaps.passAll none shortGaps.elements (shortGaps.entrance []) = .ok c ∧
          c.probe = q := by
  obtain ⟨hexit, hall⟩ := energy_accounts.2 shortGaps_isShort
  obtain ⟨q, hq⟩ := hexit shortGaps_built
  obtain ⟨⟨particle, haccount⟩, -, hwalk⟩ := hall hq
  obtain ⟨c, hc⟩ := shortGaps_passAll
  -- The particle enters the first gap as it enters the line.
  have hfirst : particle 1 = shortGaps.probe :=
    (Except.ok.inj (haccount.entrances 1 (by decide))).symm
  have hsecond : particle 3 = ⟨3015000, 938272088, 1⟩ := by
    have hfront : ∀ e ∈ shortGaps.elements.take 3, e.IsShort :=
      fun e he => shortGaps_isShort e (List.mem_of_mem_take he)
    obtain ⟨particle', hfront⟩ := exists_account hfront (haccount.entrances 3 (by decide))
    have hfirst : particle' 1 = shortGaps.probe :=
      (Except.ok.inj (hfront.entrances 1 (by decide))).symm
    rw [hfront.total]
    simp only [shortGaps, List.take_succ_cons, totalGain_cons, hfirst]
    norm_num [totalGain_nil, Element.gain]
  refine ⟨shortGaps_isShort, shortGaps_built, particle, q, haccount, hq, hsecond, ?_, c, hc,
    hwalk none [] c hc⟩
  rw [haccount.total]
  simp only [shortGaps, totalGain_cons, hfirst]
  simp [totalGain_nil, Element.gain, hsecond]
  ring

end BeamLine

end BeamOptics
