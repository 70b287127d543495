import BeamOptics.Proofs.IdleFields

/-! The places of the samples of a profile. A step differs from the mean step by a millionth of it
at most, and all steps together are as many mean steps. So the steps in front of a sample and those
behind it both bound how far the sample is from its even place, and the fewer of them decide. While
the bound is less than half a step, the place of a sample snaps to the sample. -/

namespace BeamOptics

/-- A number that is nearer to a count than half a step is rounded to it. -/
theorem roundAway_of_near {x : ℝ} {n : ℕ} (h : |x - n| < 1 / 2) : roundAway x = n := by
  obtain ⟨k, hk, hnear⟩ := roundAway_spec x
  have hclose : |(k : ℝ) - n| < 1 := by
    calc
      |(k : ℝ) - n| = |(x - n) - (x - k)| := by ring_nf
      _ ≤ |x - n| + |x - k| := abs_sub _ _
      _ < 1 := by linarith
  have hcount : |k - (n : ℤ)| < 1 := by exact_mod_cast hclose
  have hsame : k = n := by
    have hzero := Int.abs_lt_one_iff.mp hcount
    omega
  rw [hk, hsame, Int.cast_natCast]

namespace Profile

variable {p : Profile ℝ}

noncomputable def position (p : Profile ℝ) (k : ℕ) : ℝ := p.positions.getD k 0

theorem size_positions (p : Profile ℝ) : p.positions.size = p.size := by
  have h := p.accepted
  unfold fault? at h
  split_ifs at h with hcolumns
  exact not_not.mp hcolumns

/-- The step is the mean one. -/
theorem length_eq_steps (p : Profile ℝ) :
    p.position (p.size - 1) - p.position 0 = (p.size - 1 : ℕ) * p.spacing := by
  have hsteps : ((p.size - 1 : ℕ) : ℝ) ≠ 0 := by
    exact_mod_cast (Nat.sub_pos_of_lt p.two_le_size).ne'
  rw [spacing, meanStep, size_positions, Scalar.real_count, mul_div_cancel₀ _ hsteps, position,
    position, Scalar.real_zero]

noncomputable def slack (p : Profile ℝ) : ℝ := 1e-6 * p.spacing

/-- A profile that was accepted has no step that differs from the mean one by more than the slack.
-/
theorem abs_step_sub_le {k : ℕ} (hk : k + 1 < p.size) :
    |p.position (k + 1) - p.position k - p.spacing| ≤ p.slack := by
  have h := p.accepted
  unfold fault? at h
  split_ifs at h
  have hstep : stepFault? p.positions k = none := by
    rw [List.findSome?_eq_none_iff] at h
    refine h k (List.mem_range.mpr ?_)
    rw [size_positions]
    omega
  unfold stepFault? at hstep
  dsimp only at hstep
  split_ifs at hstep with hfault
  obtain ⟨-, hnear⟩ := not_or.mp hfault
  have hpos := p.spacing_pos
  rw [not_lt, Scalar.real_abs, Scalar.real_zero, abs_div] at hnear
  change |p.position (k + 1) - p.position k - p.spacing| / |p.spacing| ≤ stepTolerance at hnear
  rwa [abs_of_pos hpos, div_le_iff₀ hpos] at hnear

/-- A stretch of samples differs from as many mean steps by one slack a step at most. -/
theorem abs_stretch_sub_le {i k : ℕ} (hik : i ≤ k) (hk : k < p.size) :
    |p.position k - p.position i - ((k : ℝ) - i) * p.spacing| ≤ ((k : ℝ) - i) * p.slack := by
  induction k, hik using Nat.le_induction with
  | base => simp
  | succ k hik ih =>
    have hstretch := ih (by omega)
    have hstep := abs_step_sub_le hk
    -- The longer stretch has one more step.
    have hsplit : p.position (k + 1) - p.position i - (((k + 1 : ℕ) : ℝ) - i) * p.spacing =
        (p.position k - p.position i - ((k : ℝ) - i) * p.spacing) +
          (p.position (k + 1) - p.position k - p.spacing) := by
      push_cast
      ring
    calc
      _ ≤ |p.position k - p.position i - ((k : ℝ) - i) * p.spacing| +
          |p.position (k + 1) - p.position k - p.spacing| := by
        rw [hsplit]
        exact abs_add_le _ _
      _ ≤ ((k : ℝ) - i) * p.slack + p.slack := add_le_add hstretch hstep
      _ = (((k + 1 : ℕ) : ℝ) - i) * p.slack := by
        push_cast
        ring

/-- A sample is off its even place by the slack of the steps in front of it or of those behind it.
-/
theorem abs_place_sub_le {k : ℕ} (hk : k < p.size) :
    |p.position k - p.position 0 - k * p.spacing| ≤
      1e-6 * p.spacing * (min k (p.size - 1 - k) : ℕ) := by
  have hfront := abs_stretch_sub_le (p := p) (Nat.zero_le k) hk
  have hbehind := abs_stretch_sub_le (p := p) (Nat.le_sub_one_of_lt hk)
    (by omega : p.size - 1 < p.size)
  have hcount : ((p.size - 1 - k : ℕ) : ℝ) = (p.size - 1 : ℕ) - k :=
    Nat.cast_sub (Nat.le_sub_one_of_lt hk)
  -- The whole profile is even, so what the samples behind are short of, those in front are ahead.
  have hrest : p.position (p.size - 1) - p.position k - ((p.size - 1 : ℕ) - (k : ℝ)) * p.spacing =
      -(p.position k - p.position 0 - k * p.spacing) := by
    linear_combination p.length_eq_steps
  rw [Nat.cast_zero, sub_zero] at hfront
  rw [hrest, abs_neg, ← hcount] at hbehind
  change _ ≤ p.slack * _
  rcases min_choice k (p.size - 1 - k) with hmin | hmin
  · rwa [hmin, mul_comm p.slack]
  · rwa [hmin, mul_comm p.slack]

/-- A place closer to a sample's even place than half a step goes to that sample. -/
theorem indexOf_of_near {z : ℝ} {n : ℕ} (hn : n < p.size)
    (h : |z - n * p.spacing| < p.spacing / 2) : p.indexOf z = n := by
  have hpos := p.spacing_pos
  have hdiv : z / p.spacing - n = (z - n * p.spacing) / p.spacing := by
    rw [sub_div, mul_div_cancel_right₀ _ hpos.ne']
  apply indexOf_of_round _ (Nat.le_sub_one_of_lt hn)
  apply roundAway_of_near
  rw [hdiv, abs_div, abs_of_pos hpos, div_lt_iff₀ hpos]
  linarith

/-- The place of a sample snaps to the sample, unless half a million steps lie on either side of it.
-/
theorem indexOf_place {k : ℕ} (hk : k < p.size) (hnear : min k (p.size - 1 - k) < 500000) :
    p.indexOf (p.position k - p.position 0) = k := by
  have hpos := p.spacing_pos
  have hplace := abs_place_sub_le hk
  have hmany : ((min k (p.size - 1 - k) : ℕ) : ℝ) ≤ 499999 := by
    exact_mod_cast Nat.le_of_lt_succ hnear
  apply indexOf_of_near hk
  calc
    |p.position k - p.position 0 - k * p.spacing| ≤
        1e-6 * p.spacing * (min k (p.size - 1 - k) : ℕ) := hplace
    _ ≤ 1e-6 * p.spacing * 499999 := by
      apply mul_le_mul_of_nonneg_left hmany
      norm_num
      exact hpos.le
    _ < p.spacing / 2 := by
      norm_num
      linarith

/-- The samples of a uniform profile stand exactly at their even places. -/
theorem uniform_position {length : ℝ} {samples : Array ℝ} (h : uniform length samples = .ok p)
    {k : ℕ} (hk : k < p.size) : p.position k = k * p.spacing := by
  have hlength := uniform_length h
  have hsamples := uniform_samples h
  have hsteps : ((samples.size - 1 : ℕ) : ℝ) ≠ 0 := by
    have htwo := p.two_le_size
    rw [size, hsamples] at htwo
    exact_mod_cast (by omega : samples.size - 1 ≠ 0)
  have hspacing : p.spacing = length / (samples.size - 1 : ℕ) := by
    rw [eq_div_iff hsteps, ← hlength, Profile.length, size, hsamples, Scalar.real_count]
  unfold uniform at h
  split_ifs at h
  rw [size, hsamples] at hk
  rw [position, (mk?_columns h).1, hspacing]
  simp [hk]
  ring

/-- Samples keep to their places and places to their samples. A sample stands close to its even
place and takes that place for its own, and a place goes to a sample that no other is nearer than.
-/
structure Snaps (p : Profile ℝ) : Prop where
  columns : p.positions.size = p.size
  close : ∀ k < p.size, |p.position k - p.position 0 - k * p.spacing| ≤
    1e-6 * p.spacing * (min k (p.size - 1 - k) : ℕ)
  own : ∀ k < p.size, min k (p.size - 1 - k) < 500000 → p.indexOf (p.position k - p.position 0) = k
  mono : Monotone p.indexOf
  inside : ∀ z, p.indexOf z < p.size
  nearest : ∀ z, ∀ i < p.size, |p.indexOf z * p.spacing - z| ≤ |i * p.spacing - z|
  last : p.indexOf p.length = p.size - 1

/-- Places snap to samples in every profile, and samples that are spread over a length make a
profile with all of them at their even places. -/
theorem places_snap :
    (∀ p : Profile ℝ, p.Snaps) ∧
    ∀ {length : ℝ} {samples : Array ℝ}, 0 < length → 2 ≤ samples.size →
      ∃ p, uniform length samples = .ok p ∧ p.samples = samples ∧
        (∀ k < p.size, p.position k = k * p.spacing) ∧ p.length = length := by
  constructor
  · intro p
    refine ⟨p.size_positions, fun k hk => abs_place_sub_le hk, fun k hk => indexOf_place hk,
      p.indexOf_mono, p.indexOf_lt, fun z i hi => ?_, p.indexOf_length⟩
    rw [abs_sub_comm, abs_sub_comm (i * p.spacing)]
    exact p.abs_sub_indexOf_le z hi
  · intro length samples hlength hsamples
    obtain ⟨p, hp⟩ := exists_uniform hlength hsamples
    exact ⟨p, hp, uniform_samples hp, fun k hk => uniform_position hp hk, uniform_length hp⟩

noncomputable def uneven : Profile ℝ where
  positions := #[1, 2, 3 + 1 / 1000000]
  samples := #[0, 100000, 0]
  accepted := by
    simp [fault?, meanStep]
    norm_num
    intro i hi
    interval_cases i <;> simp [stepFault?, meanStep, stepTolerance] <;>
      norm_num [abs_of_neg, abs_of_pos]

/-- The sample in the middle is in front of its even place, and as many samples on as long a field
stand at theirs. -/
theorem places_snap_uneven :
    uneven.position 1 - uneven.position 0 < 1 * uneven.spacing ∧
      uneven.indexOf (uneven.position 1 - uneven.position 0) = 1 ∧
      ∃ p, uniform uneven.length #[0, 100000, 0] = .ok p ∧ p.position 1 = 1 * p.spacing := by
  have hspacing : uneven.spacing = 1 + 1 / 2000000 := by
    simp [spacing, meanStep, uneven]
    norm_num
  refine ⟨?_, (places_snap.1 uneven).own 1 (by decide) (by decide), ?_⟩
  · rw [hspacing]
    simp [position, uneven]
    norm_num
  · have htwo : 2 ≤ (#[0, 100000, 0] : Array ℝ).size := by decide
    obtain ⟨p, hp, hsamples, hplaces, -⟩ := places_snap.2 uneven.length_pos htwo
    have hsize : 1 < p.size := by
      rw [size, hsamples]
      decide
    refine ⟨p, hp, ?_⟩
    rw [hplaces 1 hsize, Nat.cast_one]

end Profile

end BeamOptics
