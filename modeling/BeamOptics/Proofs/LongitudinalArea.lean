import BeamOptics.Proofs.DirectWay
import BeamOptics.Proofs.Exponential

/-! The area that a map makes of a longitudinal one. It is the determinant of the map's longitudinal
block. Free motion and space charge keep areas, and a gap with the logarithmic formula changes them
as the momentum of the particle that it accelerates. -/

namespace BeamOptics

namespace Block

theorem det_mul (m n : Block ℝ) : (m * n).det = m.det * n.det := by
  simp only [det, mul_def]
  ring

theorem det_identity : (identity : Block ℝ).det = 1 := by
  simp [det, identity]

end Block

namespace PhaseMap

/-- The map acts in each plane for itself, and makes `a` times the area of a longitudinal one. -/
def HasArea (M : PhaseMap ℝ) (a : ℝ) : Prop := ∃ b : Triple (Block ℝ), M = ofBlocks b ∧ b.z.det = a

namespace HasArea

variable {M N : PhaseMap ℝ} {a b : ℝ}

theorem det_eq (h : M.HasArea a) : (M.block .longitudinal).det = a := by
  obtain ⟨b, rfl, rfl⟩ := h
  rfl

theorem mul (hM : M.HasArea a) (hN : N.HasArea b) : (M * N).HasArea (a * b) := by
  obtain ⟨m, rfl, rfl⟩ := hM
  obtain ⟨n, rfl, rfl⟩ := hN
  exact ⟨_, ofBlocks_mul m n, Block.det_mul m.z n.z⟩

theorem identity : (identity : PhaseMap ℝ).HasArea 1 :=
  ⟨_, ofBlocks_identity.symm, Block.det_identity⟩

theorem drift (length gamma : ℝ) : (drift length gamma).HasArea 1 := by
  refine ⟨_, rfl, ?_⟩
  simp [Block.det]

end HasArea

end PhaseMap

/-! ### Free motion and kicks -/

/-- A kick keeps longitudinal areas. -/
theorem SpaceCharge.kick_hasArea {model : SpaceCharge ℝ} {beam : Covariance ℝ} {length : ℝ}
    {kick : PhaseMap ℝ} (h : model.kick beam length = .ok kick) : kick.HasArea 1 := by
  obtain ⟨sizes, -, he⟩ := bind_eq_ok.mp h
  cases pure_eq_ok.mp he
  refine ⟨_, rfl, ?_⟩
  simp [Block.det]

theorem kickedDrift_hasArea {charged : ChargedBeam ℝ} {slicing : Slicing ℝ} {gamma : ℝ} {n j : ℕ}
    {z a : ℝ} {acc : PhaseMap ℝ} {r : PhaseMap ℝ × ℝ} (hacc : acc.HasArea a)
    (h : kickedDrift charged slicing gamma n j z acc = .ok r) : r.1.HasArea a := by
  induction n generalizing j z acc with
  | zero =>
    cases h
    exact hacc
  | succ n ih =>
    obtain ⟨kick, hkick, h⟩ := bind_eq_ok.mp h
    have hfree := (PhaseMap.HasArea.drift (slicing.center j - z) gamma).mul hacc
    have hkicked := (SpaceCharge.kick_hasArea hkick).mul hfree
    rw [one_mul, one_mul] at hkicked
    exact ih hkicked h

/-- Drifts keep longitudinal areas, with and without space charge. -/
theorem driftSegment_hasArea {charged : Option (ChargedBeam ℝ)} {length gamma y z a : ℝ}
    {acc M : PhaseMap ℝ} (hacc : acc.HasArea a)
    (h : driftSegment charged length gamma y z acc = .ok M) : M.HasArea a := by
  rcases le_or_gt z y with hzy | hyz
  · rw [driftSegment_self charged length gamma hzy] at h
    cases h
    exact hacc
  -- Free motion has area one.
  have hfree {N : PhaseMap ℝ} (s : ℝ) (hN : N.HasArea a) :
      (PhaseMap.drift s gamma * N).HasArea a := by
    have h := (PhaseMap.HasArea.drift s gamma).mul hN
    rwa [one_mul] at h
  cases charged with
  | none =>
    rw [driftSegment_uncharged length gamma hyz] at h
    cases h
    exact hfree _ hacc
  | some charged =>
    rw [driftSegment_charged charged length gamma hyz acc rfl] at h
    obtain ⟨r, hr, rfl⟩ := map_eq_ok.mp h
    exact hfree _ (kickedDrift_hasArea hacc hr)

/-! ### Places and samples of a gap -/

theorem roundAway_natCast (n : ℕ) : roundAway (n : ℝ) = n := by
  have hhalf : ⌊(1 / 2 : ℝ)⌋ = 0 := by norm_num
  rw [roundAway, if_pos (Nat.cast_nonneg n), Int.floor_natCast_add, hhalf]
  simp

namespace Profile

variable {p : Profile ℝ}

/-- A place belongs to the sample nearest to it, and the first and the last sample take what lies
outside. -/
theorem indexOf_eq (p : Profile ℝ) (z : ℝ) :
    p.indexOf z = if roundAway (z / p.spacing) ≤ 0 then 0
      else min ⌊roundAway (z / p.spacing)⌋₊ (p.size - 1) := by
  simp [indexOf]

theorem indexOf_le (p : Profile ℝ) (z : ℝ) : p.indexOf z ≤ p.size - 1 := by
  rw [indexOf_eq]
  split_ifs
  · exact Nat.zero_le _
  · exact min_le_right _ _

theorem indexOf_of_round {z : ℝ} {n : ℕ} (h : roundAway (z / p.spacing) = n) (hn : n ≤ p.size - 1) :
    p.indexOf z = n := by
  rw [indexOf_eq, h, Nat.floor_natCast, min_eq_left hn]
  split_ifs with hle
  · have hzero : n ≤ 0 := by exact_mod_cast hle
    omega
  · rfl

theorem indexOf_of_quotient {z : ℝ} {n : ℕ} (h : z / p.spacing = n) (hn : n ≤ p.size - 1) :
    p.indexOf z = n :=
  indexOf_of_round (by rw [h, roundAway_natCast]) hn

theorem indexOf_zero (p : Profile ℝ) : p.indexOf 0 = 0 :=
  indexOf_of_quotient (by simp) (Nat.zero_le _)

/-- The place at the length of a field snaps to its last sample. -/
theorem indexOf_length (p : Profile ℝ) : p.indexOf p.length = p.size - 1 :=
  indexOf_of_quotient (mul_div_cancel_left₀ _ p.spacing_pos.ne') le_rfl

theorem mk?_columns {positions samples : Array ℝ} (h : mk? positions samples = .ok p) :
    p.positions = positions ∧ p.samples = samples := by
  unfold mk? at h
  split at h
  · cases h
    exact ⟨rfl, rfl⟩
  · cases h

theorem mk?_accepted {positions samples : Array ℝ} (h : fault? positions samples = none) :
    mk? positions samples = .ok ⟨positions, samples, h⟩ := by
  unfold mk?
  split
  · rfl
  case h_2 cause hcause => cases h.symm.trans hcause

theorem uniform_samples {length : ℝ} {samples : Array ℝ} (h : uniform length samples = .ok p) :
    p.samples = samples := by
  unfold uniform at h
  split_ifs at h
  exact (mk?_columns h).2

theorem uniform_length {length : ℝ} {samples : Array ℝ} (h : uniform length samples = .ok p) :
    p.length = length := by
  unfold uniform at h
  split_ifs at h with h₁ h₂
  obtain ⟨hpositions, hsamples⟩ := mk?_columns h
  have hsteps : ((samples.size - 1 : ℕ) : ℝ) ≠ 0 := by
    exact_mod_cast (by omega : samples.size - 1 ≠ 0)
  have hsize : p.positions.size = samples.size := by simp [hpositions]
  have hplace (i : ℕ) (hi : i < samples.size) :
      p.positions.getD i 0 = length * i / ((samples.size - 1 : ℕ) : ℝ) := by
    simp [hpositions, hi]
  have hfirst : p.positions.getD 0 0 = 0 := by
    rw [hplace 0 (by omega)]
    simp
  have hlast : p.positions.getD (samples.size - 1) 0 = length := by
    rw [hplace (samples.size - 1) (by omega), mul_div_cancel_right₀ _ hsteps]
  rw [Profile.length, spacing, meanStep, size, hsamples, hsize, Scalar.real_zero, hfirst, hlast,
    sub_zero]
  exact div_mul_cancel₀ length hsteps

end Profile

/-- The profile that a particle sees is as long as the element. -/
theorem FieldModel.profileFor_length {model : FieldModel ℝ} {probe : Probe ℝ} {profile : Profile ℝ}
    (h : model.profileFor probe = .ok profile) : profile.length = model.length := by
  cases model with
  | sampled p =>
    cases h
    rfl
  | transitFit fit => exact Profile.uniform_length h
  | multiCell cell cells =>
    rw [profileFor] at h
    split_ifs at h
    obtain ⟨_, -, h⟩ := bind_eq_ok.mp h
    exact Profile.uniform_length h

/-! ### Gaps -/

/-- A moving particle has momentum. -/
theorem Relativity.betaGamma_pos {kinetic rest : ℝ} (hk : 0 < kinetic) (hr : 0 < rest) :
    0 < beta (gamma kinetic rest) * gamma kinetic rest := by
  have hgamma : 1 < gamma kinetic rest := by
    have h : 0 < kinetic / rest := div_pos hk hr
    simp only [gamma, Scalar.real_one]
    linarith
  have hpos : 0 < gamma kinetic rest := one_pos.trans hgamma
  have hbeta : 0 < 1 - 1 / (gamma kinetic rest * gamma kinetic rest) := by
    rw [sub_pos, div_lt_one (mul_pos hpos hpos)]
    nlinarith
  refine mul_pos ?_ hpos
  simp only [beta, Scalar.real_sqrt, Scalar.real_maxNum, Scalar.real_one]
  exact Real.sqrt_pos.mpr (lt_max_of_lt_left hbeta)

structure Probe.Moving (p : Probe ℝ) : Prop where
  kinetic : 0 < p.kineticEnergy
  rest : 0 < p.restEnergy

theorem Probe.moving_of_mk? {kinetic rest charge : ℝ} {p : Probe ℝ}
    (h : Probe.mk? kinetic rest charge = .ok p) : p.Moving := by
  unfold Probe.mk? at h
  split_ifs at h with hkinetic hrest
  cases h
  exact ⟨by simpa using hkinetic, by simpa using hrest⟩

namespace Passage

variable {K : Type} [Scalar K]

def momentumAt (p : Passage K) (i : ℕ) : K := p.betaAt i * p.gammaAt i

theorem motion_zero (profile : Profile K) (drive : Drive K) (probe : Probe K)
    (formula : LongitudinalFormula) :
    (of profile drive probe formula).motion 0 = ⟨drive.entryPhase, probe.kineticEnergy⟩ := by
  unfold motion of SplitStep.integrate
  cases profile.size with
  | zero => rfl
  | succ n => rfl

theorem motion_mem (p : Passage K) (i : ℕ) :
    (p.motion i).energy ∈ p.energies ∨ (p.motion i).energy = p.probe.kineticEnergy := by
  unfold motion energies
  by_cases hi : i < p.table.size
  · left
    rw [Array.getD_eq_getD_getElem?, Array.getElem?_eq_getElem hi, Option.getD_some]
    exact List.mem_map_of_mem (by simp)
  · right
    rw [Array.getD_eq_getD_getElem?, Array.getElem?_eq_none (not_lt.mp hi)]
    rfl

section Steps

variable {p : Passage ℝ}

/-- The drifts of a step are shears, so its field alone decides what becomes of areas. -/
theorem transportStep_det_eq (p : Passage ℝ) (k : ℕ) :
    (p.transportStep k).1.det = (p.fieldStep k).1.det ∧
      (p.transportStep k).2.det = (p.fieldStep k).2.det := by
  have hfree (slip : ℝ) : (p.halfDrift slip).det = 1 := by simp [halfDrift, Block.det]
  change (p.halfDrift _ * (p.fieldStep k).1 * p.halfDrift _).det = _ ∧
    (p.halfDrift _ * (p.fieldStep k).2 * p.halfDrift _).det = _
  simp only [Block.det_mul, hfree, one_mul, mul_one, and_self]

structure Moving (p : Passage ℝ) : Prop where
  probe : p.probe.Moving
  energies : ∀ w ∈ p.energies, 0 < w

theorem Moving.energy_pos (h : p.Moving) (i : ℕ) : 0 < (p.motion i).energy := by
  rcases p.motion_mem i with hmem | hentry
  · exact h.energies _ hmem
  · rw [hentry]
    exact h.probe.kinetic

theorem Moving.momentumAt_pos (h : p.Moving) (i : ℕ) : 0 < p.momentumAt i :=
  Relativity.betaGamma_pos (h.energy_pos i) h.probe.rest

theorem Moving.exitProbe (h : p.Moving) : p.exitProbe.Moving := ⟨h.energy_pos _, h.probe.rest⟩

/-- The field changes the longitudinal area of a step as the momentum changes. -/
theorem fieldStep_det (h : p.Moving) (hformula : p.formula = .logRatio) (i : ℕ) :
    (p.fieldStep i).2.det * p.momentumAt (i + 1) = p.momentumAt i := by
  have hratio : 0 < p.momentumAt i / p.momentumAt (i + 1) :=
    div_pos (h.momentumAt_pos i) (h.momentumAt_pos (i + 1))
  have htrace : (p.longitudinalGenerator i).trace =
      Real.log (p.momentumAt i / p.momentumAt (i + 1)) := by
    simp [Block.trace, longitudinalGenerator, hformula, LongitudinalFormula.diagonal, momentumAt]
  rw [fieldStep, Block.det_exp, htrace, Real.exp_log hratio,
    div_mul_cancel₀ _ (h.momentumAt_pos (i + 1)).ne']

/-- The drifts on both sides of a kick change no area. -/
theorem transportStep_det (h : p.Moving) (hformula : p.formula = .logRatio) (i : ℕ) :
    (p.transportStep i).2.det * p.momentumAt (i + 1) = p.momentumAt i := by
  rw [(p.transportStep_det_eq i).2]
  exact fieldStep_det h hformula i

/-- The blocks of a range make the areas that its steps make one after the other. -/
theorem rangeBlocks_det_eq_prod (step : ℕ → Block ℝ × Block ℝ) (i n : ℕ) :
    (rangeBlocks step (List.range' i n)).2.det =
      ∏ k ∈ Finset.Ico i (i + n), (step k).2.det := by
  induction n with
  | zero => simp [rangeBlocks, Block.det_identity]
  | succ n ih =>
    rw [List.range'_1_concat, rangeBlocks_concat, Block.det_mul, ih, ← add_assoc,
      Finset.prod_Ico_succ_top (Nat.le_add_right i n), mul_comm]

/-- Step by step the momenta between cancel. -/
theorem rangeBlocks_det {step : ℕ → Block ℝ × Block ℝ}
    (hstep : ∀ k, (step k).2.det * p.momentumAt (k + 1) = p.momentumAt k) (i n : ℕ) :
    (rangeBlocks step (List.range' i n)).2.det * p.momentumAt (i + n) = p.momentumAt i := by
  rw [rangeBlocks_det_eq_prod]
  induction n with
  | zero => simp
  | succ n ih =>
    rw [← add_assoc, Finset.prod_Ico_succ_top (Nat.le_add_right i n), mul_assoc, hstep, ih]

/-- Over a range of steps the momenta in between cancel. -/
theorem compose_hasArea (h : p.Moving) {step : ℕ → Block ℝ × Block ℝ}
    (hstep : ∀ k, (step k).2.det * p.momentumAt (k + 1) = p.momentumAt k) {i j : ℕ} (hij : i ≤ j)
    (hj : j ≤ p.lastIndex) : (p.compose step i j).HasArea (p.momentumAt i / p.momentumAt j) := by
  refine ⟨_, compose_eq p step i j, ?_⟩
  have hrange := rangeBlocks_det hstep i (j - i)
  rw [Nat.add_sub_cancel' hij] at hrange
  rw [min_eq_left hj]
  exact eq_div_of_mul_eq (h.momentumAt_pos j).ne' hrange

theorem range_det (h : p.Moving) (hformula : p.formula = .logRatio) {i j : ℕ} (hij : i ≤ j)
    (hj : j ≤ p.lastIndex) :
    ((p.transferRange i j).block .longitudinal).det = p.momentumAt i / p.momentumAt j ∧
      ((p.transportRange i j).block .longitudinal).det = p.momentumAt i / p.momentumAt j :=
  ⟨(compose_hasArea h (fieldStep_det h hformula) hij hj).det_eq,
    (compose_hasArea h (transportStep_det h hformula) hij hj).det_eq⟩

/-- Transport between two places changes longitudinal areas as the momentum changes between their
samples. -/
theorem transportBetween_hasArea (h : p.Moving) (hformula : p.formula = .logRatio) {y z : ℝ}
    (hyz : y ≤ z) : (p.transportBetween y z).HasArea
      (p.momentumAt (p.profile.indexOf y) / p.momentumAt (p.profile.indexOf z)) :=
  compose_hasArea h (transportStep_det h hformula) (p.profile.indexOf_mono hyz)
    (p.profile.indexOf_le z)

end Steps

end Passage

end BeamOptics
