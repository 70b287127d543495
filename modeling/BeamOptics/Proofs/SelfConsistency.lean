import BeamOptics.Proofs.RelaxationLaw

/-! A beam that an estimation returns is nearly self-consistent. The run stops at a short step of
the relaxed recursion, and the step is the factor times the defect of the trial in the fixed-point
equation, so a factor that is never below its floor bounds the defect. -/

namespace BeamOptics

/-- A step from a trial towards its recursion value, and how far both ends of it are from that value
at most when the step was below the tolerance. -/
structure NearlySelfConsistent (settings : Settings ℝ) (trial recursion next : Covariance ℝ)
    (alpha : ℝ) : Prop where
  step : next.phaseMoments - trial.phaseMoments =
    (recursion.phaseMoments - trial.phaseMoments).scale alpha
  trial_near : (recursion.phaseMoments - trial.phaseMoments).frobenius <
    settings.tolerance / settings.relaxationFloor * trial.referenceNorm
  next_near : (next.phaseMoments - recursion.phaseMoments).frobenius ≤
    |1 - alpha| / alpha * settings.tolerance * trial.referenceNorm

/-- The bounds hold for any step below the tolerance whose factor is at least the floor. -/
theorem NearlySelfConsistent.of_step {settings : Settings ℝ} {trial recursion : Covariance ℝ}
    {alpha : ℝ} (hfloor : 0 < settings.relaxationFloor) (halpha : settings.relaxationFloor ≤ alpha)
    (hstep : (trial.relax recursion alpha).relativeDistance trial < settings.tolerance) :
    NearlySelfConsistent settings trial recursion (trial.relax recursion alpha) alpha := by
  have hpos : 0 < alpha := hfloor.trans_le halpha
  have href := trial.referenceNorm_pos
  have hnonneg := (recursion.phaseMoments - trial.phaseMoments).frobenius_nonneg
  -- The step is the factor times the defect, so the stopping test bounds their product.
  have hdefect : alpha * (recursion.phaseMoments - trial.phaseMoments).frobenius <
      settings.tolerance * trial.referenceNorm := by
    rw [Covariance.relativeDistance_eq, div_lt_iff₀ href, Covariance.relax_sub_left,
      Mat.frobenius_scale, abs_of_pos hpos] at hstep
    exact hstep
  refine ⟨Covariance.relax_sub_left _ _ _, ?_, ?_⟩
  · rw [div_mul_eq_mul_div, lt_div_iff₀ hfloor]
    calc
      (recursion.phaseMoments - trial.phaseMoments).frobenius * settings.relaxationFloor
          ≤ (recursion.phaseMoments - trial.phaseMoments).frobenius * alpha :=
        mul_le_mul_of_nonneg_left halpha hnonneg
      _ = alpha * (recursion.phaseMoments - trial.phaseMoments).frobenius := mul_comm _ _
      _ < settings.tolerance * trial.referenceNorm := hdefect
  · rw [Covariance.relax_sub_right, Mat.frobenius_scale, Mat.frobenius_sub_comm]
    calc
      |1 - alpha| * (recursion.phaseMoments - trial.phaseMoments).frobenius
          = |1 - alpha| / alpha *
            (alpha * (recursion.phaseMoments - trial.phaseMoments).frobenius) := by
        field_simp
      _ ≤ |1 - alpha| / alpha * (settings.tolerance * trial.referenceNorm) :=
        mul_le_mul_of_nonneg_left hdefect.le (div_nonneg (abs_nonneg _) hpos.le)
      _ = |1 - alpha| / alpha * settings.tolerance * trial.referenceNorm := (mul_assoc _ _ _).symm

namespace Estimator

/-- No factor falls below the floor. -/
theorem Follows.floor_le {settings : Settings ℝ} {initial : Covariance ℝ}
    {readings : List (Reading ℝ)} {before : List (Iteration ℝ)} {found : List (PhaseMap ℝ)}
    {i : Iteration ℝ} (h : Follows settings initial readings before found i) :
    settings.relaxationFloor ≤ i.alpha := by
  rw [h.alpha]
  exact (relaxation_isGreatest settings _).2 (Set.mem_insert _ _)

theorem Follows.nearlySelfConsistent {settings : Settings ℝ} {initial : Covariance ℝ}
    {readings : List (Reading ℝ)} {before : List (Iteration ℝ)} {found : List (PhaseMap ℝ)}
    {i : Iteration ℝ} (h : Follows settings initial readings before found i)
    (hfloor : 0 < settings.relaxationFloor) (hstep : i.step < settings.tolerance) :
    NearlySelfConsistent settings i.trial i.recursion i.next i.alpha := by
  rw [h.step, h.next] at hstep
  rw [h.next]
  exact .of_step hfloor h.floor_le hstep

/-- A beam that an estimation returns, beside the last trial and the beam observed through the maps
that were found for this trial. The call for the trial is the one before the last, which is made for
the beam returned. -/
theorem estimate_nearlySelfConsistent {G : Type} (maps : MapSource ℝ G) {e : Estimator ℝ G}
    (he : e.settings.check = .ok ()) (initial : Covariance ℝ) (readings : List (Reading ℝ))
    {beam : Covariance ℝ} (hok : (estimate maps e initial readings).1 = .ok beam) :
    ∃ trial recursion alpha found again earlier,
      calls maps e initial readings =
        earlier ++ [⟨trial, readings.map (·.position), .ok found⟩,
          ⟨beam, readings.map (·.position), .ok again⟩] ∧
      Observation.observe found readings = .ok recursion ∧
      (estimate maps e initial readings).2.alphas.getLast? = some alpha ∧
      NearlySelfConsistent e.settings trial recursion beam alpha := by
  obtain ⟨-, -, ⟨hfloor, -⟩, -⟩ := Settings.check_real.mp he
  have hcalls : calls maps e initial readings = (recorded maps e initial readings).source.2 := rfl
  cases hr : Reading.setFault? readings with
  | some cause =>
    rw [(recorded_rejected maps e initial hr).1] at hok
    cases hok
  | none =>
    obtain ⟨hend, -⟩ := estimate_ending maps initial he hr
    rw [hok] at hend
    rw [hcalls, estimate_snd]
    cases hend with
    | @converged i its made again _ completed record _ _ _ step call =>
      -- The last completed iteration made the call before the one for the beam returned.
      cases completed with
      | @next _ earlier found _ before follows =>
        refine ⟨i.trial, i.recursion, i.alpha, found, again, earlier, ?_, follows.recursion, ?_,
          follows.nearlySelfConsistent hfloor step⟩
        · rw [call, List.append_assoc]
          rfl
        · change ((recorded maps e initial readings).completed.reverse.map (·.alpha)).getLast? = _
          rw [record]
          simp

/-- The run that starts at zero and stops after one iteration. -/
theorem estimate_nearlySelfConsistent_quarterTurn :
    coarse.check = .ok () ∧
      (estimate (.steady quarterTurn) (fresh () coarse) .zero unitReadings).1 =
        .ok (Covariance.zero.relax unitBeam coarse.relaxationFloor) ∧
      ∃ trial recursion alpha found again earlier,
        calls (.steady quarterTurn) (fresh () coarse) .zero unitReadings =
          earlier ++ [⟨trial, unitReadings.map (·.position), .ok found⟩,
            ⟨Covariance.zero.relax unitBeam coarse.relaxationFloor,
              unitReadings.map (·.position), .ok again⟩] ∧
        Observation.observe found unitReadings = .ok recursion ∧
        (estimate (.steady quarterTurn) (fresh () coarse) .zero unitReadings).2.alphas.getLast? =
          some alpha ∧
        NearlySelfConsistent coarse trial recursion
          (Covariance.zero.relax unitBeam coarse.relaxationFloor) alpha := by
  obtain ⟨r, hok, -⟩ := estimate_quarterTurn
  have hcheck : (fresh () coarse).settings.check = .ok () := coarse_check
  exact ⟨coarse_check, hok,
    estimate_nearlySelfConsistent (.steady quarterTurn) hcheck .zero unitReadings hok⟩

end Estimator

end BeamOptics
