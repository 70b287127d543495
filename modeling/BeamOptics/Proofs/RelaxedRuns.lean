import BeamOptics.Proofs.SecantCandidates

/-! The relaxation factors of estimations, for every source of maps. A source that leads the trials from
one axis of the moments to the next makes increments that are as independent as can be. Their candidate
may lie above the floor, and the fourth factor of the run is then the candidate. -/

namespace BeamOptics

open Matrix

/-! ### Increments that follow one another along the axes -/

namespace History

variable {a b c : ℝ}

/-- Each increment of the recursion is the next one of the argument, and the last one vanishes. -/
noncomputable def chain (a b c : ℝ) : History ℝ :=
  ⟨3, [(⟨[a, 0, 0]⟩, ⟨[0, b, 0]⟩), (⟨[0, b, 0]⟩, ⟨[0, 0, c]⟩), (⟨[0, 0, c]⟩, ⟨[0, 0, 0]⟩)]⟩

theorem chain_complete (a b c : ℝ) : (chain a b c).Complete where
  length := rfl
  dims := by simp [chain, Vec.dim]

theorem chain_arguments : columnMat 3 (chain a b c).arguments =
    ⟨#v[#v[a, 0, 0], #v[0, b, 0], #v[0, 0, c]]⟩ := by
  apply Mat.ext_entry
  intro i j
  rw [columnMat, Mat.entry_ofFn]
  fin_cases i <;> fin_cases j <;> rfl

theorem chain_recursions : columnMat 3 (chain a b c).recursions =
    ⟨#v[#v[0, 0, 0], #v[b, 0, 0], #v[0, c, 0]]⟩ := by
  apply Mat.ext_entry
  intro i j
  rw [columnMat, Mat.entry_ofFn]
  fin_cases i <;> fin_cases j <;> rfl

theorem chain_passes (ha : 0 < a) (hb : 0 < b) (hc : 0 < c)
    (hlengths : Mat.negligiblePivot * (a + b + c) < min (min a b) c) :
    (chain a b c).argumentMat.transpose.PassesPivotTest := by
  have hsquares : (columnMat 3 (chain a b c).arguments).transpose = .ofSquares a b c 0 0 0 := by
    rw [chain_arguments]
    apply Mat.ext_entry
    intro i j
    rw [Mat.entry_transpose]
    fin_cases i <;> fin_cases j <;> simp [Mat.ofSquares, Mat.entry]
  have hzero : |(0 : ℝ)| ≤ 1 := by norm_num
  have hpasses := Mat.passes_ofSquares ha hb hc hzero hzero hzero hlengths
  rw [← hsquares] at hpasses
  exact hpasses

/-- Below its diagonal of ones the residual operator of a chain has the ratios of the lengths. -/
theorem chain_residualOperator (ha : a ≠ 0) (hb : b ≠ 0) (hc : c ≠ 0) :
    (chain a b c).residualOperator = !![1, 0, 0; -(b / a), 1, 0; 0, -(c / b), 1] := by
  have hregular : (columnMat 3 (chain a b c).arguments).toMatrix.det ≠ 0 := by
    rw [chain_arguments, det_fin_three]
    simpa [Mat.entry] using ⟨⟨ha, hb⟩, hc⟩
  have hlinear : (columnMat 3 (chain a b c).recursions).toMatrix =
      !![0, 0, 0; b / a, 0, 0; 0, c / b, 0] * (columnMat 3 (chain a b c).arguments).toMatrix := by
    rw [chain_arguments, chain_recursions]
    ext i j
    fin_cases i <;> fin_cases j <;> simp [Mat.entry, mul_apply, Fin.sum_univ_three, ha, hb]
  have hresidual : (chain a b c).residualOperator =
      (1 - !![0, 0, 0; b / a, 0, 0; 0, c / b, 0] : Matrix (Fin 3) (Fin 3) ℝ) :=
    @residualOperator_of_linear (chain a b c) _ hregular hlinear
  rw [hresidual]
  ext i j
  fin_cases i <;> fin_cases j <;> simp

theorem chain_secantFactor (ha : a ≠ 0) (hb : b ≠ 0) (hc : c ≠ 0) :
    (chain a b c).secantFactor = 3 / √(3 + (b / a) ^ 2 + (c / b) ^ 2) := by
  have htrace : (chain a b c).residualOperator.trace = 3 := by
    rw [chain_residualOperator ha hb hc]
    exact (trace_fin_three _).trans (by simp; norm_num)
  have hnorm : frobeniusNorm (chain a b c).residualOperator =
      √(3 + (b / a) ^ 2 + (c / b) ^ 2) := by
    have hsum : frobeniusNorm !![1, 0, 0; -(b / a), 1, 0; 0, -(c / b), 1] =
        √(3 + (b / a) ^ 2 + (c / b) ^ 2) := by
      rw [frobeniusNorm]
      congr 1
      simp [Fin.sum_univ_three]
      ring
    rw [chain_residualOperator ha hb hc]
    exact hsum
  rw [secantFactor, htrace, hnorm, abs_of_pos three_pos]

/-- Increments along the axes are as independent as can be. -/
theorem chain_normalizedDeterminant (ha : a ≠ 0) (hb : b ≠ 0) (hc : c ≠ 0) :
    (chain a b c).normalizedDeterminant = .ok 1 := by
  have hargument := normalizedDeterminant_eq (chain_complete a b c).argument_length
    (chain_complete a b c).argument_dim
  change _ = Except.ok (rankMeasure (columnMat 3 (chain a b c).arguments).toMatrix) at hargument
  rw [hargument, chain_arguments, (rankMeasure_eq_one _).mpr]
  simp [Mat.entry, Pairwise, dotProduct, Fin.forall_fin_succ, Fin.sum_univ_three, funext_iff, ha, hb,
    hc]

/-- A chain of lengths that pass the pivot test suggests a factor. -/
theorem candidate_chain (ha : 0 < a) (hb : 0 < b) (hc : 0 < c)
    (hlengths : Mat.negligiblePivot * (a + b + c) < min (min a b) c) {rankTolerance : ℝ}
    (hrank : rankTolerance ≤ 1) : (chain a b c).candidate rankTolerance =
      .ok (some (3 / √(3 + (b / a) ^ 2 + (c / b) ^ 2))) := by
  have hnot : ¬ (chain a b c).Refused rankTolerance := by
    rintro (⟨d, hd, hlt⟩ | hfails | hzero)
    · rw [chain_normalizedDeterminant ha.ne' hb.ne' hc.ne'] at hd
      cases hd
      exact absurd hrank (not_le.mpr hlt)
    · exact hfails (chain_passes ha hb hc hlengths)
    · rw [chain_residualOperator ha.ne' hb.ne' hc.ne'] at hzero
      exact one_ne_zero (congrFun (congrFun hzero 0) 0)
  rw [(chain_complete a b c).candidate_of_not_refused hnot, chain_secantFactor ha.ne' hb.ne' hc.ne']

end History

namespace Estimator

/-- The relaxation factors of an estimation, for every source of maps: the largest of the floor and
the candidates that the planes have from their last three increments. -/
theorem estimate_relaxation {G : Type} (maps : MapSource ℝ G) {e : Estimator ℝ G}
    (he : e.settings.check = .ok ()) (initial : Covariance ℝ) (readings : List (Reading ℝ)) (k : ℕ)
    (alpha : ℝ) (hk : (estimate maps e initial readings).2.alphas[k]? = some alpha) :
    FactorLaw e.settings readings (calls maps e initial readings)
      (estimate maps e initial readings).2.completed.reverse k alpha := by
  obtain ⟨made, rest, hcompleted, hcalls⟩ := estimate_completed maps initial readings he
  have hlaw := (hcompleted.factorLaw k alpha hk).append rest []
  rw [List.append_nil, ← hcalls] at hlaw
  exact hlaw

/-! ### A run along the axes -/

section Wandering

open Covariance Observation

/-- The drift changes its side in the second call, and the turn and the drift become shorter in the
third. -/
noncomputable def wander : ℕ → Except (Fault ℝ) (List (PhaseMap ℝ))
  | 0 => .ok (skewTurn 1 1)
  | 1 => .ok (skewTurn 1 (-1))
  | _ => .ok (skewTurn (2 / 3) (-1))

noncomputable def wanderTrial : ℕ → Moments ℝ
  | 0 => ⟨1 / 2, -1 / 2, 1⟩
  | 1 => ⟨1, -1 / 2, 1⟩
  | 2 => ⟨1, 1 / 2, 1⟩
  | _ => ⟨1, 1 / 2, 9 / 4⟩

/-- The readings are fitted by the moments that the next call gets as its trial. -/
theorem observe_wander (n : ℕ) : ∃ found, wander n = .ok found ∧
    observe found unitReadings = .ok (alike (wanderTrial (n + 1))) := by
  match n with
  | 0 =>
    refine ⟨_, rfl, (observe_skewTurn (by norm_num) (by norm_num) (by norm_num)).trans ?_⟩
    norm_num [wanderTrial]
  | 1 =>
    refine ⟨_, rfl, (observe_skewTurn (by norm_num) (by norm_num) (by norm_num)).trans ?_⟩
    norm_num [wanderTrial]
  | n + 2 =>
    have hlast : wanderTrial (n + 2 + 1) = ⟨1, 1 / 2, 9 / 4⟩ := rfl
    refine ⟨_, rfl, (observe_skewTurn (by norm_num) (by norm_num) (by norm_num)).trans ?_⟩
    norm_num [hlast]

structure Wanders (k : ℕ) (i : Iteration ℝ) : Prop where
  trial : i.trial = alike (wanderTrial k)
  recursion : i.recursion = alike (wanderTrial (k + 1))
  next : i.next = alike (wanderTrial (k + 1))

variable {k : ℕ} {its : List (Iteration ℝ)} {e : Estimator ℝ ℕ}

/-- The trials of the first three calls are too far from each other for the run to end. -/
theorem wander_step_iff (hk : k ≤ 3) :
    (alike (wanderTrial (k + 1))).relativeDistance (alike (wanderTrial k)) < direct.tolerance ↔
      k = 3 := by
  rcases hk.lt_or_eq with hlt | rfl
  · refine iff_of_false ?_ hlt.ne
    rw [not_lt, direct]
    interval_cases k
    all_goals rw [relativeDistance_alike (by norm_num [wanderTrial])]
    all_goals apply Real.le_sqrt_of_sq_le
    all_goals norm_num [wanderTrial]
  · refine iff_of_true ?_ rfl
    rw [direct]
    exact (relativeDistance_self _).trans_lt (by norm_num)

/-- The first three factors are one, and in the fourth iteration trial and fit agree. -/
theorem iterate_wander (hk : k ≤ 3) (he : AtEntry direct k its e) (hlength : its.length = k)
    (htrial : (its.head?.map (·.next)).getD (alike (wanderTrial 0)) = alike (wanderTrial k)) :
    ∃ i d, iterate (.scripted wander) (alike (wanderTrial 0)) unitReadings e = (.ok i, d) ∧
      Wanders k i ∧ (i.step < d.settings.tolerance ↔ k = 3) ∧
      i.alpha = (relaxation direct (historiesOf (i :: its))).1 ∧
      AtEntry direct (k + 1) (i :: its) d := by
  obtain ⟨found, hfound, hobs⟩ := observe_wander k
  obtain ⟨i, d, hi, hfollows, hrecursion, hd⟩ := he.step (alike (wanderTrial 0)) hfound hobs
  have hi' : i.trial = alike (wanderTrial k) := hfollows.trial.trans htrial
  have hnext : i.next = alike (wanderTrial (k + 1)) := by
    rw [hfollows.next, hi', hrecursion]
    rcases hk.lt_or_eq with hlt | rfl
    · rw [hfollows.alpha_of_short (hlength.trans_lt hlt)]
      exact (uncoupled_alike _).relax_one _
    · exact (uncoupled_alike _).relax_self _
  refine ⟨i, d, hi, ⟨hi', hrecursion, hnext⟩, ?_, hfollows.alpha, hd⟩
  rw [hfollows.step, hnext, hi', hd.settings]
  exact wander_step_iff hk

/-- The three increments of the run lie along the axes. -/
theorem lastIncrements_wander {i₀ i₁ i₂ i₃ : Iteration ℝ} (h₀ : Wanders 0 i₀) (h₁ : Wanders 1 i₁)
    (h₂ : Wanders 2 i₂) (h₃ : Wanders 3 i₃) (p : Plane) :
    lastIncrements p [i₀, i₁, i₂, i₃] = .chain (1 / 2) 1 (5 / 4) := by
  simp only [lastIncrements, incrementPairs, incrementPair, momentIncrement, List.tail_cons,
    List.zipWith_cons_cons, List.zipWith_nil_right, h₀.trial, h₀.recursion, h₁.trial, h₁.recursion,
    h₂.trial, h₂.recursion, h₃.trial, h₃.recursion, moments_alike]
  norm_num [wanderTrial, planeMoments, List.rtake, History.chain]

/-- The candidates of these increments are above the floor. -/
theorem relaxation_wander {i₀ i₁ i₂ i₃ : Iteration ℝ} (h₀ : Wanders 0 i₀) (h₁ : Wanders 1 i₁)
    (h₂ : Wanders 2 i₂) (h₃ : Wanders 3 i₃) :
    (relaxation direct (historiesOf [i₃, i₂, i₁, i₀])).1 = 12 / √137 ∧ 1 < 12 / √137 := by
  have hroot : √137 < 12 := (Real.sqrt_lt' (by norm_num)).mpr (by norm_num)
  have habove : 1 < 12 / √137 := (one_lt_div (by positivity)).mpr hroot
  -- The ratios of the lengths are two and five quarters.
  have hsum : 3 / √(3 + (1 / (1 / 2)) ^ 2 + (5 / 4 / 1) ^ 2) = 12 / √137 := by
    have hquarter : (3 + (1 / (1 / 2)) ^ 2 + (5 / 4 / 1) ^ 2 : ℝ) = 137 / 4 ^ 2 := by norm_num
    rw [hquarter, Real.sqrt_div (by norm_num), Real.sqrt_sq (by norm_num)]
    field_simp
    norm_num
  have hcandidate (p : Plane) : ((historiesOf [i₃, i₂, i₁, i₀]).get p).candidate direct.rankTolerance =
      .ok (some (12 / √137)) := by
    have hhistory : (historiesOf [i₃, i₂, i₁, i₀]).get p = .chain (1 / 2) 1 (5 / 4) :=
      (historiesOf_get p _).trans (lastIncrements_wander h₀ h₁ h₂ h₃ p)
    rw [hhistory, ← hsum]
    refine History.candidate_chain (by norm_num) one_pos (by norm_num) ?_ ?_
    · norm_num [Mat.negligiblePivot]
    · norm_num [direct]
  have hgreatest := relaxation_isGreatest direct (historiesOf [i₃, i₂, i₁, i₀])
  refine ⟨le_antisymm ?_ (hgreatest.2 (Or.inr ⟨.horizontal, hcandidate _⟩)), habove⟩
  -- All planes suggest the same factor, and the floor is lower.
  rcases hgreatest.1 with hfloor | ⟨p, hp⟩
  · rw [hfloor]
    exact habove.le
  · rw [hcandidate p] at hp
    exact (Option.some.inj (Except.ok.inj hp)).ge

/-- The run ends behind its fourth iteration. -/
theorem estimate_wander : ∃ i₀ i₁ i₂ i₃, Wanders 0 i₀ ∧ Wanders 1 i₁ ∧ Wanders 2 i₂ ∧ Wanders 3 i₃ ∧
    i₃.alpha = 12 / √137 ∧
    (estimate (.scripted wander) (fresh 0 direct) (alike (wanderTrial 0)) unitReadings).2.completed =
      [i₃, i₂, i₁, i₀] := by
  -- Four iterations, the last of which goes nowhere.
  obtain ⟨i₀, e₀, hi₀, h₀, hstep₀, -, he₀⟩ :=
    iterate_wander (by decide) (.start 0 direct) rfl rfl
  obtain ⟨i₁, e₁, hi₁, h₁, hstep₁, -, he₁⟩ := iterate_wander (by decide) he₀ rfl h₀.next
  obtain ⟨i₂, e₂, hi₂, h₂, hstep₂, -, he₂⟩ := iterate_wander (by decide) he₁ rfl h₁.next
  obtain ⟨i₃, e₃, hi₃, h₃, hstep₃, halpha, he₃⟩ := iterate_wander le_rfl he₂ rfl h₂.next
  refine ⟨i₀, i₁, i₂, i₃, h₀, h₁, h₂, h₃, halpha.trans (relaxation_wander h₀ h₁ h₂ h₃).1, ?_⟩
  have hend : AtEntry direct 5 [i₃, i₂, i₁, i₀]
      (estimate (.scripted wander) (fresh 0 direct) (alike (wanderTrial 0)) unitReadings).2 := by
    have hsource : (fresh 0 direct).source = 0 := rfl
    have hsettings : (fresh 0 direct).settings = direct := rfl
    apply AtEntry.ofRun unitReadings_setFault hsource hsettings
    change AtEntry direct 5 [i₃, i₂, i₁, i₀]
      (run (.scripted wander) (alike (wanderTrial 0)) unitReadings 9 (fresh 0 direct)).2
    -- Only the last step is below the tolerance.
    rw [run_further hi₀ (mt hstep₀.mp (by decide)), run_further hi₁ (mt hstep₁.mp (by decide)),
      run_further hi₂ (mt hstep₂.mp (by decide)), run_converged hi₃ (hstep₃.mpr rfl)]
    exact he₃.last unitReadings i₃.next
  exact hend.completed

/-- The fourth factor comes from three independent increments, and it is above the floor. -/
theorem estimate_relaxation_wander :
    direct.check = .ok () ∧
      (estimate (.scripted wander) (fresh 0 direct) (alike (wanderTrial 0))
        unitReadings).2.alphas[3]? = some (12 / √137) ∧
      direct.relaxationFloor < 12 / √137 ∧
      FactorLaw direct unitReadings
        (calls (.scripted wander) (fresh 0 direct) (alike (wanderTrial 0)) unitReadings)
        (estimate (.scripted wander) (fresh 0 direct) (alike (wanderTrial 0))
          unitReadings).2.completed.reverse 3 (12 / √137) := by
  obtain ⟨i₀, i₁, i₂, i₃, h₀, h₁, h₂, h₃, halpha, hcompleted⟩ := estimate_wander
  have hcheck : (fresh 0 direct).settings.check = .ok () := direct_check
  have hfourth : (estimate (.scripted wander) (fresh 0 direct) (alike (wanderTrial 0))
      unitReadings).2.alphas[3]? = some (12 / √137) := by
    rw [alphas, hcompleted, ← halpha]
    rfl
  exact ⟨direct_check, hfourth, (relaxation_wander h₀ h₁ h₂ h₃).2,
    estimate_relaxation _ hcheck (alike (wanderTrial 0)) unitReadings 3 (12 / √137) hfourth⟩

end Wandering

end Estimator

end BeamOptics
