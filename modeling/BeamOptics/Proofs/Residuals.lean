import BeamOptics.Proofs.RealBeam
import BeamOptics.Envelope.Fit

/-! What a residual says about a beam. Over the reals it is the root mean square of the relative
deviations over readings and planes. Deviations that are all alike come out as they are, and a residual
that vanishes leaves no deviation anywhere. -/

namespace BeamOptics.Covariance

/-- Terms that are not negative add up to zero only if each is zero. -/
theorem sum_map_eq_zero_iff {α : Type} {f : α → ℝ} (hf : ∀ x, 0 ≤ f x) {xs : List α} :
    (xs.map f).sum = 0 ↔ ∀ x ∈ xs, f x = 0 := by
  constructor
  · intro hsum x hx
    refine List.all_zero_of_le_zero_le_of_sum_eq_zero ?_ hsum (List.mem_map_of_mem hx)
    intro y hy
    obtain ⟨z, -, rfl⟩ := List.mem_map.mp hy
    exact hf z
  · intro hzero
    apply List.sum_eq_zero
    intro y hy
    obtain ⟨z, hz, rfl⟩ := List.mem_map.mp hy
    exact hzero z hz

variable {beam : Covariance ℝ} {maps : List (PhaseMap ℝ)} {readings : List (Reading ℝ)}

/-- The deviation of the size behind a map from the size of a reading, relative to the reading. -/
noncomputable def deviation (beam : Covariance ℝ) (M : PhaseMap ℝ) (r : Reading ℝ) (p : Plane) : ℝ :=
  ((beam.propagate M).rmsSize p - r.sizes.get p) / r.sizes.get p

noncomputable def misfit (beam : Covariance ℝ) (M : PhaseMap ℝ) (r : Reading ℝ) : ℝ :=
  (Plane.all.map fun p => beam.deviation M r p ^ 2).sum

theorem misfit_nonneg (beam : Covariance ℝ) (M : PhaseMap ℝ) (r : Reading ℝ) :
    0 ≤ beam.misfit M r := by
  apply List.sum_nonneg
  intro x hx
  obtain ⟨p, -, rfl⟩ := List.mem_map.mp hx
  exact sq_nonneg _

/-- Equal deviations in all planes make a misfit of three times their square. -/
theorem misfit_of_deviation {M : PhaseMap ℝ} {r : Reading ℝ} {d : ℝ}
    (h : ∀ p, beam.deviation M r p = d) : beam.misfit M r = 3 * d ^ 2 := by
  simp only [misfit, h]
  rw [List.map_const', List.sum_replicate, nsmul_eq_mul]
  rfl

/-- Only a reading as predicted contributes nothing. -/
theorem misfit_eq_zero_iff {M : PhaseMap ℝ} {r : Reading ℝ} (hr : ∀ p, 0 < r.sizes.get p) :
    beam.misfit M r = 0 ↔ (beam.propagate M).sizes = r.sizes := by
  have hplane (p : Plane) :
      beam.deviation M r p = 0 ↔ (beam.propagate M).rmsSize p = r.sizes.get p := by
    rw [deviation, div_eq_zero_iff, or_iff_left (hr p).ne', sub_eq_zero]
  rw [misfit, sum_map_eq_zero_iff fun p => sq_nonneg _]
  simp only [sq_eq_zero_iff, hplane]
  constructor
  · intro h
    apply Triple.ext_get
    intro p
    rw [sizes, Triple.get_ofFn]
    exact h p (Plane.mem_all p)
  · intro h p _
    rw [← h, sizes, Triple.get_ofFn]

/-- The residual of as many maps as readings; without readings it is zero. -/
theorem residual_eq (h : maps.length = readings.length) :
    beam.residual maps readings =
      .ok √(((maps.zip readings).map fun x => beam.misfit x.1 x.2).sum / (3 * readings.length)) := by
  obtain ⟨rows, hrows⟩ : ∃ rows, rows = ((beam.envelope maps).zip readings).map
    fun (predicted, r) => (⟨r.location, r.position, predicted, r.sizes⟩ : Comparison ℝ) := ⟨_, rfl⟩
  have hcompare : beam.compare maps readings = .ok rows := by
    rw [compare, if_neg (not_not.mpr h), hrows]
  -- Row by row, the squared deviations are the misfits of the readings.
  have hsum : (rows.flatMap fun c => c.deviation.toList.map Scalar.square).sum =
      ((maps.zip readings).map fun x => beam.misfit x.1 x.2).sum := by
    rw [List.flatMap_def, List.sum_flatten, List.map_map, hrows, List.map_map, envelope,
      List.zip_map_left, List.map_map]
    congr 1
    apply List.map_congr_left
    rintro ⟨M, r⟩ -
    have hrow : (⟨r.location, r.position, (beam.propagate M).sizes, r.sizes⟩ :
        Comparison ℝ).deviation.toList = Plane.all.map (beam.deviation M r) := by
      simp only [Comparison.deviation, sizes, Triple.get_ofFn]
      rfl
    refine (congrArg (List.sum ∘ List.map Scalar.square) hrow).trans ?_
    simp only [misfit, Function.comp_apply, List.map_map, Function.comp_def, Scalar.square, sq]
  have hcount : rows.length = readings.length := by
    rw [hrows, List.length_map, List.length_zip, envelope, List.length_map, h, min_self]
  rw [residual, hcompare]
  change (if rows.isEmpty = true then Except.ok _ else Except.ok _) = Except.ok _
  rw [Scalar.real_sum, hsum, hcount, Scalar.real_count, Nat.cast_mul]
  -- Without readings both sides are zero.
  split
  · rename_i hempty
    have hreadings : readings.length = 0 := by
      rw [← hcount, List.isEmpty_iff.mp hempty, List.length_nil]
    simp [hreadings]
  · rfl

theorem residual_of_length_ne (h : maps.length ≠ readings.length) :
    beam.residual maps readings = .error (.dimension readings.length maps.length) := by
  rw [residual, compare, if_pos h]
  rfl

/-- The residual of equal deviations is their size. -/
theorem residual_of_deviation {d : ℝ} (h : maps.length = readings.length) (hmaps : maps ≠ [])
    (hd : ∀ x ∈ maps.zip readings, ∀ p, beam.deviation x.1 x.2 p = d) :
    beam.residual maps readings = .ok |d| := by
  have hsum : ((maps.zip readings).map fun x => beam.misfit x.1 x.2).sum =
      3 * readings.length * d ^ 2 := by
    rw [List.map_congr_left fun x hx => misfit_of_deviation (hd x hx), List.map_const',
      List.sum_replicate, List.length_zip, h, min_self, nsmul_eq_mul]
    ring
  have hcount : 3 * (readings.length : ℝ) ≠ 0 := by
    rw [← h]
    have := List.length_pos_iff.mpr hmaps
    positivity
  rw [residual_eq h, hsum, mul_div_cancel_left₀ _ hcount, Real.sqrt_sq_eq_abs]

/-- No residual is left exactly if no reading contributes to it. -/
theorem residual_eq_zero_iff_misfit (h : maps.length = readings.length) :
    beam.residual maps readings = .ok 0 ↔
      ∀ x ∈ maps.zip readings, beam.misfit x.1 x.2 = 0 := by
  have hsquares : 0 ≤ ((maps.zip readings).map fun x => beam.misfit x.1 x.2).sum := by
    apply List.sum_nonneg
    intro y hy
    obtain ⟨x, -, rfl⟩ := List.mem_map.mp hy
    exact beam.misfit_nonneg x.1 x.2
  have hcount : (0 : ℝ) ≤ 3 * readings.length := by positivity
  rw [residual_eq h, Except.ok.injEq, Real.sqrt_eq_zero (div_nonneg hsquares hcount),
    div_eq_zero_iff, sum_map_eq_zero_iff fun x : PhaseMap ℝ × Reading ℝ =>
      beam.misfit_nonneg x.1 x.2]
  -- A count of zero leaves no pair, so that there is nothing to show.
  refine or_iff_left_of_imp fun hnone => ?_
  have hnone : readings = [] := by simpa using hnone
  rw [hnone, List.zip_nil_right]
  nofun

/-- The residual vanishes for the beams that predict all of the readings, and for no other. -/
theorem residual_eq_zero_iff (hpos : ∀ r ∈ readings, ∀ p, 0 < r.sizes.get p) :
    beam.residual maps readings = .ok 0 ↔ beam.envelope maps = readings.map (·.sizes) := by
  have henvelope : beam.envelope maps = readings.map (·.sizes) ↔
      List.Forall₂ (fun M r => (beam.propagate M).sizes = r.sizes) maps readings := by
    rw [← List.forall₂_eq_eq_eq, envelope, List.forall₂_map_left_iff, List.forall₂_map_right_iff]
  rw [henvelope, List.forall₂_iff_zip]
  by_cases h : maps.length = readings.length
  · rw [residual_eq_zero_iff_misfit h, and_iff_right h]
    constructor
    · intro hzero M r hmem
      exact (misfit_eq_zero_iff (hpos r (List.of_mem_zip hmem).2)).mp (hzero (M, r) hmem)
    · rintro hsame ⟨M, r⟩ hmem
      exact (misfit_eq_zero_iff (hpos r (List.of_mem_zip hmem).2)).mpr (hsame hmem)
  · rw [residual_of_length_ne h]
    exact iff_of_false nofun fun hsame => h hsame.1

end BeamOptics.Covariance
