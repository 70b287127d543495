import BeamOptics.Proofs.LinearSystems
import BeamOptics.Proofs.RunEndings
import BeamOptics.Proofs.UncoupledBeams

/-! Sources whose maps do not depend on the beam. The first recursion value is the fit through the
maps of the first call, and the run ends behind the first iteration when the way to the fit, as far as
the floor of the relaxation goes, is below the tolerance. -/

namespace BeamOptics

variable {K G : Type}

def MapSource.steady (found : List (PhaseMap K)) : MapSource K G := ⟨fun g _ _ => (.ok found, g)⟩

def MapSource.scripted (script : ℕ → Except (Fault K) (List (PhaseMap K))) : MapSource K ℕ :=
  ⟨fun n _ _ => (script n, n + 1)⟩

namespace Estimator

variable [Scalar K] {found : List (PhaseMap K)} {recursion : Covariance K}
  {readings : List (Reading K)}

def firstIteration (settings : Settings K) (initial recursion : Covariance K) (residual : K) :
    Iteration K where
  trial := initial
  recursion := recursion
  alpha := settings.relaxationFloor
  next := initial.relax recursion settings.relaxationFloor
  residual := residual
  step := (initial.relax recursion settings.relaxationFloor).relativeDistance initial
  skipped := []

section Answered

variable {maps : MapSource K G} {source : G} {settings : Settings K} {initial : Covariance K}
  {r : K}

/-- The first iteration, from what the source answers to its first call. -/
theorem iterate_answered
    (hanswer : (ask maps readings initial (fresh source settings)).1 = .ok found)
    (hobs : Observation.observe found readings = .ok recursion)
    (hres : (initial.relax recursion settings.relaxationFloor).residual found readings = .ok r) :
    iterate maps initial readings (fresh source settings) =
      (.ok (firstIteration settings initial recursion r),
        ⟨(ask maps readings initial (fresh source settings)).2, settings, .initialized, 1,
          [firstIteration settings initial recursion r], .empty planeMoments, some r⟩) := by
  have hattempt : (fresh source settings).attempt initial readings (.ok found) =
      .ok (firstIteration settings initial recursion r, .empty planeMoments) := by
    unfold attempt relaxed
    exact bind_eq_ok.mpr
      ⟨found, rfl, bind_eq_ok.mpr ⟨recursion, hobs, bind_eq_ok.mpr ⟨r, hres, rfl⟩⟩⟩
  rw [iterate_eq]
  change behind _ _ ((fresh source settings).attempt initial readings
    (ask maps readings initial (fresh source settings)).1) = _
  rw [hanswer, hattempt]
  rfl

/-- A run ends behind a first step below the tolerance, if there is a residual through the maps of
the beam that it led to. -/
theorem estimate_answered {next : Covariance K} {residual : K}
    (hr : Reading.setFault? readings = none)
    (hanswer : (ask maps readings initial (fresh source settings)).1 = .ok found)
    (hobs : Observation.observe found readings = .ok recursion)
    (hnext : initial.relax recursion settings.relaxationFloor = next)
    (hres : next.residual found readings = .ok r)
    (hstep : next.relativeDistance initial < settings.tolerance)
    (hlast : (maps.maps (ask maps readings initial (fresh source settings)).2 next
      (readings.map (·.position))).1 >>= (next.residual · readings) = .ok residual) :
    estimate maps (fresh source settings) initial readings =
      (.ok next, ⟨(maps.maps (ask maps readings initial (fresh source settings)).2 next
          (readings.map (·.position))).2, settings, .converged, 1,
        [firstIteration settings initial recursion r], .empty planeMoments, some residual⟩) := by
  subst hnext
  -- The first iteration is the last, so any number of further ones gives the same end.
  have hi := iterate_answered hanswer hobs hres
  have hrun := run_converged hi hstep (settings.maxIterations - 1)
  rw [finish_ok (r := residual) (by exact hlast)] at hrun
  exact estimate_ok (e := fresh source settings) hr hrun

end Answered

/-- A steady source ends the run behind the first iteration if its step is below the tolerance. -/
theorem estimate_steady (source : G) {settings : Settings K} (initial : Covariance K)
    (hr : Reading.setFault? readings = none)
    (hobs : Observation.observe found readings = .ok recursion)
    (hstep : (initial.relax recursion settings.relaxationFloor).relativeDistance initial <
      settings.tolerance) :
    ∃ r, (estimate (.steady found) (fresh source settings) initial readings).1 =
        .ok (initial.relax recursion settings.relaxationFloor) ∧
      (estimate (.steady found) (fresh source settings) initial readings).2.completed =
        [firstIteration settings initial recursion r] := by
  obtain ⟨r, hres⟩ := residual_isOk (length_of_observe hobs)
    (initial.relax recursion settings.relaxationFloor)
  have hanswer : (ask (.steady found) readings initial (fresh source settings)).1 = .ok found := rfl
  rw [estimate_answered hr hanswer hobs rfl hres hstep (bind_eq_ok.mpr ⟨found, rfl, hres⟩)]
  exact ⟨r, rfl, rfl⟩

end Estimator

/-! ### Runs on a script -/

namespace Estimator

variable [Scalar K] {script : ℕ → Except (Fault K) (List (PhaseMap K))} {settings : Settings K}
  {initial recursion : Covariance K} {readings : List (Reading K)} {found : List (PhaseMap K)}
  {its : List (Iteration K)} {n : ℕ} {e : Estimator K ℕ}

/-- A run that comes to entry `n` of its script, with these iterations on record. -/
structure AtEntry (settings : Settings K) (n : ℕ) (its : List (Iteration K)) (e : Estimator K ℕ) :
    Prop where
  source : e.source = n
  settings : e.settings = settings
  completed : e.completed = its
  histories : e.histories.planes = historiesOf its

theorem AtEntry.start (n : ℕ) (settings : Settings K) : AtEntry settings n [] (fresh n settings) :=
  ⟨rfl, rfl, rfl, rfl⟩

/-- Maps with a fit bring a run to the next entry. -/
theorem AtEntry.step (h : AtEntry settings n its e) (initial : Covariance K)
    (hanswer : script n = .ok found) (hobs : Observation.observe found readings = .ok recursion) :
    ∃ i d, iterate (.scripted script) initial readings e = (.ok i, d) ∧
      Follows settings initial readings its found i ∧ i.recursion = recursion ∧
      AtEntry settings (n + 1) (i :: its) d := by
  obtain ⟨rfl, rfl, rfl, hhistories⟩ := h
  have hask : (ask (.scripted script) readings (e.trial initial) e).1 = .ok found := hanswer
  obtain ⟨i, histories, hfollows, hrecursion, hplanes, hi⟩ := iterate_observed hhistories hask hobs
  exact ⟨i, _, hi, hfollows, hrecursion, rfl, rfl, rfl, hplanes⟩

/-- The last call takes an entry, whatever it is. -/
theorem AtEntry.last (h : AtEntry settings n its e) (readings : List (Reading K))
    (beam : Covariance K) :
    AtEntry settings (n + 1) its (finish (.scripted script) readings beam e).2 := by
  obtain ⟨rfl, rfl, rfl, hhistories⟩ := h
  cases hr : (ask (.scripted script) readings beam e).1 >>= (beam.residual · readings) with
  | error f =>
    rw [finish_error hr]
    exact ⟨rfl, rfl, rfl, hhistories⟩
  | ok r =>
    rw [finish_ok hr]
    exact ⟨rfl, rfl, rfl, hhistories⟩

/-- An estimation ends where its run does. -/
theorem AtEntry.ofRun {start : ℕ} (hr : Reading.setFault? readings = none)
    (hsource : e.source = start) (hsettings : e.settings = settings)
    (h : AtEntry settings n its (run (.scripted script) initial readings
      (settings.maxIterations - 1) (fresh start settings)).2) :
    AtEntry settings n its (estimate (.scripted script) e initial readings).2 := by
  subst hsource hsettings
  cases hrun : run (.scripted script) initial readings (e.settings.maxIterations - 1)
      (fresh e.source e.settings) with
  | mk r d =>
    rw [hrun] at h
    cases r with
    | error f =>
      rw [estimate_error hr hrun]
      exact ⟨h.source, h.settings, h.completed, h.histories⟩
    | ok beam =>
      rw [estimate_ok hr hrun]
      exact ⟨h.source, h.settings, h.completed, h.histories⟩

end Estimator

/-! ### Entries of normal equations -/

namespace Observation

/-- The entries of the normal matrix are sums of products over the equations. -/
theorem normalMatrix_entry (eqs : List (Vector ℝ 3 × ℝ)) (i j : Fin 3) :
    (normalMatrix eqs).entry i j = (eqs.map fun e => e.1.get i * e.1.get j).sum := by
  rw [normalMatrix, Mat.entry_ofFn, Scalar.real_sum]
  rfl

theorem normalRhs_get (eqs : List (Vector ℝ 3 × ℝ)) (i : Fin 3) :
    (normalRhs eqs).get i = (eqs.map fun e => e.1.get i * e.2 * e.2).sum := by
  rw [normalRhs, Vector.get_ofFn, Scalar.real_sum]
  rfl

end Observation

/-! ### Readings of one through a point, a quarter turn and a drift -/

/-- The same block in each plane: the point itself, a quarter turn, and a drift of length one. -/
noncomputable def quarterTurn : List (PhaseMap ℝ) :=
  [⟨1, 0, 0, 1⟩, ⟨0, 1, -1, 0⟩, ⟨1, 1, 0, 1⟩].map fun b => PhaseMap.ofBlocks ⟨b, b, b⟩

noncomputable def skewTurn (w side : ℝ) : List (PhaseMap ℝ) :=
  [⟨1, 0, 0, 1⟩, ⟨0, w, -1, 0⟩, ⟨w, w * side, 0, 1⟩].map fun b => PhaseMap.ofBlocks ⟨b, b, b⟩

noncomputable def unitReadings : List (Reading ℝ) :=
  [⟨"M1", 0, ⟨1, 1, 1⟩⟩, ⟨"M2", 1, ⟨1, 1, 1⟩⟩, ⟨"M3", 2, ⟨1, 1, 1⟩⟩]

noncomputable def unitBeam : Covariance ℝ :=
  .ofMoments ⟨⟨1, -1 / 2, 1⟩, ⟨1, -1 / 2, 1⟩, ⟨1, -1 / 2, 1⟩⟩

theorem unitReadings_setFault : Reading.setFault? unitReadings = none := by
  simp [Reading.setFault?, Reading.fewest, unitReadings, Reading.fault?, Triple.toList]

theorem quarterTurn_eq : quarterTurn = skewTurn 1 1 := by
  rw [quarterTurn, skewTurn, mul_one]

section SkewTurn

open Observation

variable {p w side : ℝ}

noncomputable def skewEquations (p side : ℝ) : List (Vector ℝ 3 × ℝ) :=
  [(#v[1, 0, 0], 1), (#v[0, 0, p], 1), (#v[p, 2 * p * side, p], 1)]

/-- The coefficients of the skew turn, in which only the square of the shortening appears. -/
theorem equations_skewTurn (hside : side * side = 1) (plane : Plane) :
    equations (skewTurn w side) unitReadings plane = skewEquations (w * w) side := by
  have hcross : 2 * w * (w * side) = 2 * (w * w) * side := by ring
  have hlast : w * side * (w * side) = w * w := by
    rw [mul_mul_mul_comm, hside, mul_one]
  cases plane <;> simp [equations, skewEquations, skewTurn, unitReadings, row, PhaseMap.block,
    PhaseMap.ofBlocks, Mat.entry, Plane.position, Plane.slope, Triple.get, hcross, hlast]

/-- The normal matrix as a sum of squares, from which its elimination is read off. -/
theorem normalMatrix_skew (hside : side * side = 1) : normalMatrix (skewEquations p side) =
    .ofSquares (1 + p ^ 2) (4 * p ^ 2 / (1 + p ^ 2)) (p ^ 2) (2 * p ^ 2 * side / (1 + p ^ 2))
      (p ^ 2 / (1 + p ^ 2)) (side / 2) := by
  have hpos : 1 + p ^ 2 ≠ 0 := by positivity
  rw [← sq] at hside
  apply Mat.ext_entry
  intro i j
  rw [normalMatrix_entry]
  fin_cases i <;> fin_cases j
  all_goals simp [skewEquations, Mat.ofSquares, Mat.entry, Vector.get]
  all_goals field_simp
  · linear_combination 4 * p ^ 2 * hside
  · ring
  · ring
  · linear_combination -4 * p ^ 2 * hside

/-- The normal equations of the skew turn pass the pivot test. -/
theorem solve_skew (hlow : 1 / 4 ≤ p) (hhigh : p ≤ 1) (hside : side * side = 1) :
    (normalMatrix (skewEquations p side)).solve (normalRhs (skewEquations p side)) =
      .ok #v[1, -side / 2, 1 / p] := by
  have hpos : 0 < p := by linarith
  -- The solution is put in, and the square of the side is one.
  have hsolves : (normalMatrix (skewEquations p side)).Solves #v[1, -side / 2, 1 / p]
      (normalRhs (skewEquations p side)) := by
    intro i
    rw [normalRhs_get, Fin.sum_univ_three]
    simp only [normalMatrix_entry]
    fin_cases i
    all_goals simp [skewEquations, Vector.get]
    all_goals field_simp
    · linear_combination -p ^ 2 * hside
    · linear_combination -side * p * hside
    · linear_combination -p * hside
  -- The weights of the squares lie between a sixteenth and four.
  have hsquare : 1 / 16 ≤ p ^ 2 := by nlinarith
  have hsquare' : p ^ 2 ≤ 1 := by nlinarith
  have habs : |side| = 1 := (abs_eq zero_le_one).mpr (mul_self_eq_one_iff.mp hside)
  have hcross : |2 * p ^ 2 * side / (1 + p ^ 2)| = 2 * p ^ 2 / (1 + p ^ 2) := by
    rw [abs_div, abs_mul, habs, mul_one, abs_of_pos (by positivity), abs_of_pos (by positivity)]
  have hweight : 2 * p ^ 2 ≤ 4 * p ^ 2 / (1 + p ^ 2) := by
    rw [le_div_iff₀ (by positivity)]
    nlinarith
  have hweight' : 4 * p ^ 2 / (1 + p ^ 2) ≤ 4 * p ^ 2 :=
    div_le_self (by positivity) (by linarith)
  rw [normalMatrix_skew hside] at hsolves ⊢
  refine Mat.solve_ofSquares (by positivity) (by positivity) (by positivity) ?_ ?_ ?_ ?_ hsolves
  · rw [hcross, div_le_one (by positivity)]
    linarith
  · rw [abs_of_pos (by positivity), div_le_one (by positivity)]
    linarith
  · rw [abs_div, habs, abs_two]
    norm_num
  · norm_num [Mat.negligiblePivot]
    refine ⟨⟨?_, ?_⟩, ?_⟩ <;> linarith

/-- The fit keeps the size of the point, and the sides and the shortening take the rest. -/
theorem observe_skewTurn (hlow : 1 / 4 ≤ w * w) (hhigh : w * w ≤ 1) (hside : side * side = 1) :
    observe (skewTurn w side) unitReadings = .ok (.alike ⟨1, -side / 2, 1 / (w * w)⟩) := by
  have hplane (plane : Plane) : planeMoments (skewTurn w side) unitReadings plane =
      .ok ⟨1, -side / 2, 1 / (w * w)⟩ := by
    unfold planeMoments
    simp only [equations_skewTurn hside, solve_skew hlow hhigh hside]
    rfl
  have hlength : ¬ (skewTurn w side).length ≠ unitReadings.length := by
    simp [skewTurn, unitReadings]
  unfold observe
  rw [if_neg hlength, hplane, hplane, hplane]
  rfl

theorem observe_quarterTurn : observe quarterTurn unitReadings = .ok unitBeam := by
  have hone : (1 : ℝ) * 1 = 1 := mul_one 1
  rw [quarterTurn_eq, observe_skewTurn (by norm_num) hone.le hone, hone, div_one]
  rfl

end SkewTurn

/-- Over the reals each control is compared with its bounds. -/
theorem Settings.check_real {s : Settings ℝ} : s.check = .ok () ↔
    0 < s.maxIterations ∧ 0 < s.tolerance ∧ (0 < s.relaxationFloor ∧ s.relaxationFloor ≤ 2) ∧
      (0 ≤ s.rankTolerance ∧ s.rankTolerance < 1) := by
  rw [check_eq_ok, Scalar.real_isPositive, decide_eq_true_eq, Scalar.real_zero, Scalar.real_one]

noncomputable def coarse : Settings ℝ := ⟨1, 2, 1 / 2, 0⟩

theorem coarse_check : coarse.check = .ok () := Settings.check_real.mpr (by norm_num [coarse])

/-- Settings with which all of the way to the fit is taken at once, unless the histories suggest
more. -/
noncomputable def direct : Settings ℝ := ⟨10, 1 / 10, 1, 1 / 100⟩

theorem direct_check : direct.check = .ok () := Settings.check_real.mpr (by norm_num [direct])

/-- The step from the zero beam is the norm of the unit beam. -/
theorem unitBeam_distance (alpha : ℝ) :
    (Covariance.zero.relax unitBeam alpha).relativeDistance .zero = |alpha| * √(15 / 2) := by
  have hnorm : unitBeam.momentNorm = √(15 / 2) := by
    change (Covariance.alike ⟨1, -1 / 2, 1⟩).momentNorm = _
    rw [Covariance.momentNorm_alike]
    norm_num
  rw [Covariance.relativeDistance_relax_zero, hnorm]

theorem unitBeam_step :
    (Covariance.zero.relax unitBeam coarse.relaxationFloor).relativeDistance .zero <
      coarse.tolerance := by
  have hroot : √(15 / 2) < 4 := (Real.sqrt_lt' four_pos).mpr (by norm_num)
  rw [unitBeam_distance, coarse, abs_of_pos one_half_pos]
  linarith

/-- The run for these readings ends behind its first iteration. -/
theorem estimate_quarterTurn :
    ∃ r, (Estimator.estimate (.steady quarterTurn) (.fresh () coarse) .zero unitReadings).1 =
        .ok (Covariance.zero.relax unitBeam coarse.relaxationFloor) ∧
      (Estimator.estimate (.steady quarterTurn) (.fresh () coarse) .zero unitReadings).2.completed =
        [Estimator.firstIteration coarse .zero unitBeam r] :=
  Estimator.estimate_steady () .zero unitReadings_setFault observe_quarterTurn unitBeam_step

end BeamOptics
