import BeamOptics.Proofs.SteadySource

/-! Estimations one after another on one estimator. The record is cleared before an estimation
begins and none of them changes the settings, so an estimation depends on the earlier ones through
the state of the map source and through nothing else. -/

namespace BeamOptics.Estimator

variable {K G : Type} [Scalar K] {maps : MapSource K G} {initial : Covariance K}
  {readings : List (Reading K)}

/-! ### What a run preserves -/

/-- Behind its first iteration a run stops, makes the maps of its last beam, or goes on. -/
theorem run_behind (further : ℕ) (e : Estimator K G) :
    (run maps initial readings further e).2 = (iterate maps initial readings e).2 ∨
      (∃ beam, run maps initial readings further e =
        finish maps readings beam (iterate maps initial readings e).2) ∨
      ∃ n, further = n + 1 ∧ run maps initial readings further e =
        run maps initial readings n (iterate maps initial readings e).2 := by
  cases hi : iterate maps initial readings e with
  | mk r d =>
    cases r with
    | error f => exact Or.inl (by rw [run_stopped hi])
    | ok i =>
      by_cases hstep : i.step < d.settings.tolerance
      · exact Or.inr (Or.inl ⟨i.next, run_converged hi hstep further⟩)
      · cases further with
        | zero => exact Or.inl (by rw [run_capped hi hstep])
        | succ n => exact Or.inr (Or.inr ⟨n, rfl, run_further hi hstep n⟩)

/-- What iterations and the last call for maps preserve, a run preserves. -/
theorem run_preserves {P : Estimator K G → Prop}
    (hiterate : ∀ e, P e → P (iterate maps initial readings e).2)
    (hfinish : ∀ beam e, P e → P (finish maps readings beam e).2) (further : ℕ)
    {e : Estimator K G} (h : P e) : P (run maps initial readings further e).2 := by
  -- An iteration is the last event of a run, or is followed by the closing call, or by the rest of
  -- the run.
  induction further generalizing e with
  | zero =>
    rcases run_behind 0 e with hrun | ⟨beam, hrun⟩ | ⟨n, hn, -⟩
    · rw [hrun]
      exact hiterate e h
    · rw [hrun]
      exact hfinish beam _ (hiterate e h)
    · omega
  | succ further ih =>
    rcases run_behind (further + 1) e with hrun | ⟨beam, hrun⟩ | ⟨n, hn, hrun⟩
    · rw [hrun]
      exact hiterate e h
    · rw [hrun]
      exact hfinish beam _ (hiterate e h)
    · obtain rfl : n = further := by omega
      rw [hrun]
      exact ih (hiterate e h)

/-- What iterations, the last call for maps and a change of status preserve, an estimation preserves
from the cleared record on. -/
theorem estimate_preserves {P : Estimator K G → Prop}
    (hiterate : ∀ e, P e → P (iterate maps initial readings e).2)
    (hfinish : ∀ beam e, P e → P (finish maps readings beam e).2)
    (hstatus : ∀ e status, P e → P { e with status }) {e : Estimator K G}
    (h : P (fresh e.source e.settings)) : P (estimate maps e initial readings).2 := by
  -- The readings are rejected, or the run ends with a fault or with a beam.
  cases hr : Reading.setFault? readings with
  | some cause =>
    rw [estimate_rejected hr]
    exact hstatus _ _ h
  | none =>
    have hkept := run_preserves hiterate hfinish (e.settings.maxIterations - 1) h
    cases hrun : run maps initial readings (e.settings.maxIterations - 1)
        (fresh e.source e.settings) with
    | mk r d =>
      rw [hrun] at hkept
      cases r with
      | error f =>
        rw [estimate_error hr hrun]
        exact hstatus _ _ hkept
      | ok beam =>
        rw [estimate_ok hr hrun]
        exact hstatus _ _ hkept

/-! ### The settings stay -/

theorem iterate_settings (e : Estimator K G) :
    (iterate maps initial readings e).2.settings = e.settings := by
  rw [iterate_eq]
  cases e.attempt (e.trial initial) readings (ask maps readings (e.trial initial) e).1 with
  | error f => rfl
  | ok r => rfl

theorem finish_settings (beam : Covariance K) (e : Estimator K G) :
    (finish maps readings beam e).2.settings = e.settings := by
  cases h : (ask maps readings beam e).1 >>= (beam.residual · readings) with
  | error f => rw [finish_error h]
  | ok r => rw [finish_ok h]

/-- An estimation keeps the settings. -/
theorem estimate_settings (maps : MapSource K G) (e : Estimator K G) (initial : Covariance K)
    (readings : List (Reading K)) :
    (estimate maps e initial readings).2.settings = e.settings := by
  apply estimate_preserves (P := fun d => d.settings = e.settings) (h := rfl)
  · intro d hd
    rw [iterate_settings, hd]
  · intro beam d hd
    rw [finish_settings, hd]
  · exact fun d status hd => hd

/-! ### The source stays in states that it reaches -/

theorem iterate_source (e : Estimator K G) :
    (iterate maps initial readings e).2.source = (ask maps readings (e.trial initial) e).2 := by
  rw [iterate_eq]
  cases e.attempt (e.trial initial) readings (ask maps readings (e.trial initial) e).1 with
  | error f => rfl
  | ok r => rfl

theorem finish_source (beam : Covariance K) (e : Estimator K G) :
    (finish maps readings beam e).2.source = (ask maps readings beam e).2 := by
  cases h : (ask maps readings beam e).1 >>= (beam.residual · readings) with
  | error f => rw [finish_error h]
  | ok r => rw [finish_ok h]

/-! ### Estimations one after another -/

/-- The estimator behind estimations one after another, each from a first trial and readings of its
own. -/
def afterAll (maps : MapSource K G) (e : Estimator K G)
    (given : List (Covariance K × List (Reading K))) : Estimator K G :=
  given.foldl (fun e g => (estimate maps e g.1 g.2).2) e

theorem afterAll_settings (maps : MapSource K G) (e : Estimator K G)
    (given : List (Covariance K × List (Reading K))) :
    (afterAll maps e given).settings = e.settings := by
  induction given generalizing e with
  | nil => rfl
  | cons g given ih =>
    have hrest := ih (estimate maps e g.1 g.2).2
    rw [estimate_settings] at hrest
    exact hrest

/-- The record of earlier runs has no part in an estimation. -/
theorem estimate_eq_fresh (maps : MapSource K G) (e : Estimator K G) (initial : Covariance K)
    (readings : List (Reading K)) :
    estimate maps e initial readings =
      estimate maps (fresh e.source e.settings) initial readings := by
  have hreset : (fresh e.source e.settings).reset = e.reset := by
    rw [reset_eq_fresh, reset_eq_fresh]
    rfl
  rw [estimate, estimate, hreset]

theorem mk?_eq_ok {source : G} {settings : Settings K} {e : Estimator K G}
    (h : mk? source settings = .ok e) : settings.check = .ok () ∧ e = fresh source settings := by
  obtain ⟨_, hcheck, rfl⟩ := map_eq_ok.mp h
  exact ⟨hcheck, rfl⟩

/-- Behind any estimations an estimator returns, and keeps on record, what a new estimator does with
the same settings and a source in the state that they left. -/
theorem estimate_afterAll (maps : MapSource K G) {source : G} {settings : Settings K}
    {e : Estimator K G} (he : mk? source settings = .ok e)
    (earlier : List (Covariance K × List (Reading K))) (initial : Covariance K)
    (readings : List (Reading K)) :
    ∃ new, mk? (afterAll maps e earlier).source settings = .ok new ∧
      estimate maps (afterAll maps e earlier) initial readings =
        estimate maps new initial readings := by
  obtain ⟨hcheck, rfl⟩ := mk?_eq_ok he
  have hkept : (afterAll maps (fresh source settings) earlier).settings = settings :=
    afterAll_settings maps _ earlier
  refine ⟨fresh (afterAll maps (fresh source settings) earlier).source settings, ?_, ?_⟩
  · rw [mk?, hcheck]
    rfl
  · rw [estimate_eq_fresh, hkept]

section Hesitant

variable {e : Estimator ℝ ℕ}

noncomputable def hesitation : ℕ → Except (Fault ℝ) (List (PhaseMap ℝ))
  | 4 => .error .indexRange
  | _ => .ok quarterTurn

noncomputable def hesitant : MapSource ℝ ℕ := .scripted hesitation

/-- From the beam that explains the readings the first iteration is the last. -/
theorem estimate_hesitant_finished (hsource : e.source = 0) (hsettings : e.settings = direct) :
    (estimate hesitant e unitBeam unitReadings).1 = .ok unitBeam ∧
      (estimate hesitant e unitBeam unitReadings).2.source = 2 := by
  have hbeam : unitBeam.Uncoupled := Covariance.uncoupled_ofMoments _
  obtain ⟨r, hres⟩ := residual_isOk (length_of_observe observe_quarterTurn) unitBeam
  have hanswer : (ask hesitant unitReadings unitBeam (fresh 0 direct)).1 = .ok quarterTurn := rfl
  have hstep : unitBeam.relativeDistance unitBeam < direct.tolerance := by
    rw [Covariance.relativeDistance_self, direct]
    norm_num
  rw [estimate_eq_fresh, hsource, hsettings, estimate_answered unitReadings_setFault hanswer
    observe_quarterTurn (hbeam.relax_self _) hres hstep (bind_eq_ok.mpr ⟨quarterTurn, rfl, hres⟩)]
  exact ⟨rfl, rfl⟩

/-- From the zero beam the second iteration is the last. The call behind it is the fifth, so the run is
cut off there, with one increment on record. -/
theorem estimate_hesitant_cutOff (hsource : e.source = 2) (hsettings : e.settings = direct) :
    (estimate hesitant e .zero unitReadings).1 = .error .indexRange ∧
      ∀ p, ((estimate hesitant e .zero unitReadings).2.histories.planes.get p).size = 1 := by
  have hbeam : unitBeam.Uncoupled := Covariance.uncoupled_ofMoments _
  have hthird : hesitation 2 = .ok quarterTurn := rfl
  have hfourth : hesitation 3 = .ok quarterTurn := rfl
  have hfifth : hesitation 4 = .error .indexRange := rfl
  -- The first call leads all of the way to the fit, which is a long step.
  obtain ⟨i, d, hi, hfollows, hfit, hd⟩ :=
    (AtEntry.start 2 direct).step .zero hthird observe_quarterTurn
  have halpha : i.alpha = 1 := hfollows.alpha
  have hnext : i.next = unitBeam := by
    rw [hfollows.next, hfit, halpha, hbeam.relax_one]
  have hstep : ¬ i.step < d.settings.tolerance := by
    have hroot : (1 : ℝ) ≤ √(15 / 2) := Real.one_le_sqrt.mpr (by norm_num)
    have hdistance := unitBeam_distance 1
    have htrial : i.trial = .zero := hfollows.trial
    rw [hbeam.relax_one, abs_one, one_mul] at hdistance
    rw [hfollows.step, hnext, htrial, hdistance, hd.settings, direct]
    linarith
  -- The second one stays there, so that the run asks for maps once more, and fails.
  obtain ⟨j, d', hj, hfollows', hfit', hd'⟩ := hd.step .zero hfourth observe_quarterTurn
  have htrial' : j.trial = unitBeam := hfollows'.trial.trans hnext
  have hnext' : j.next = unitBeam := by
    rw [hfollows'.next, htrial', hfit', hbeam.relax_self]
  have hstep' : j.step < d'.settings.tolerance := by
    rw [hfollows'.step, hnext', htrial', Covariance.relativeDistance_self, hd'.settings, direct]
    norm_num
  have hrun : run hesitant .zero unitReadings 9 (fresh 2 direct) =
      finish hesitant unitReadings j.next d' :=
    (run_further hi hstep 8).trans (run_converged hj hstep' 8)
  have hcut : (ask hesitant unitReadings j.next d').1 >>= (j.next.residual · unitReadings) =
      .error .indexRange := by
    change hesitation d'.source >>= _ = _
    rw [hd'.source, hfifth]
    rfl
  have hend : AtEntry direct 5 [j, i] (estimate hesitant e .zero unitReadings).2 := by
    apply AtEntry.ofRun unitReadings_setFault hsource hsettings
    change AtEntry direct 5 [j, i] (run hesitant .zero unitReadings 9 (fresh 2 direct)).2
    rw [hrun]
    exact hd'.last unitReadings j.next
  refine ⟨?_, fun p => ?_⟩
  · rw [estimate_eq_fresh, hsource, hsettings, estimate_error unitReadings_setFault
      (hrun.trans (finish_error hcut))]
  · rw [hend.histories]
    cases p <;> rfl

end Hesitant

/-- Readings that are rejected, a run that finishes, and a run that the source cuts off. -/
noncomputable def earlierRuns : List (Covariance ℝ × List (Reading ℝ)) :=
  [(.zero, []), (unitBeam, unitReadings), (.zero, unitReadings)]

/-- An increment of the last of them is still on record, and it does not come into the next run. -/
theorem estimate_afterAll_hesitant :
    mk? 0 direct = .ok (fresh 0 direct) ∧
      (∀ p, ((afterAll hesitant (fresh 0 direct) earlierRuns).histories.planes.get p).size = 1) ∧
      ∃ new, mk? (afterAll hesitant (fresh 0 direct) earlierRuns).source direct = .ok new ∧
        estimate hesitant (afterAll hesitant (fresh 0 direct) earlierRuns) .zero unitReadings =
          estimate hesitant new .zero unitReadings := by
  have hmk : mk? 0 direct = .ok (fresh 0 direct) := by
    rw [mk?, direct_check]
    rfl
  have hfew : Reading.setFault? ([] : List (Reading ℝ)) = some (.tooFewReadings 0) := rfl
  have hrejected : (estimate hesitant (fresh 0 direct) .zero []).2.source = 0 := by
    rw [estimate_rejected hfew]
    rfl
  obtain ⟨-, hfinished⟩ := estimate_hesitant_finished hrejected (estimate_settings ..)
  obtain ⟨-, hleft⟩ := estimate_hesitant_cutOff hfinished
    ((estimate_settings ..).trans (estimate_settings ..))
  exact ⟨hmk, hleft, estimate_afterAll hesitant hmk _ .zero unitReadings⟩

end BeamOptics.Estimator
