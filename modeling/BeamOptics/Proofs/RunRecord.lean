import BeamOptics.Estimator.Run
import BeamOptics.Proofs.Outcomes

/-! The record of a run: the calls of the map source and the iterations completed, whatever the source
does. A source that also writes its calls down is run for the record; forgetting the calls gives the
run of the source itself. -/

namespace BeamOptics

structure Call (K : Type) where
  beam : Covariance K
  positions : List K
  -- what the source answered
  result : Except (Fault K) (List (PhaseMap K))

namespace MapSource

variable {K G H : Type}

def recording (maps : MapSource K G) : MapSource K (G × List (Call K)) where
  maps s beam positions :=
    let r := maps.maps s.1 beam positions
    (r.1, r.2, s.2 ++ [⟨beam, positions, r.1⟩])

/-- The second source answers like the first in states that `f` relates. -/
def Simulates (f : G → H) (ms : MapSource K G) (ns : MapSource K H) : Prop :=
  ∀ g beam positions, ns.maps (f g) beam positions =
    ((ms.maps g beam positions).1, f (ms.maps g beam positions).2)

theorem recording_simulates (maps : MapSource K G) : Simulates Prod.fst maps.recording maps :=
  fun _ _ _ => rfl

end MapSource

namespace Estimator

variable {K G H : Type}

def mapSource (f : G → H) (e : Estimator K G) : Estimator K H where
  source := f e.source
  settings := e.settings
  status := e.status
  begun := e.begun
  completed := e.completed
  histories := e.histories
  residual := e.residual

variable [Scalar K]

/-! ### Equations of a run -/

/-- What the source answers for a beam at the readings, and its state behind the call. -/
def ask (maps : MapSource K G) (readings : List (Reading K)) (beam : Covariance K)
    (e : Estimator K G) : Except (Fault K) (List (PhaseMap K)) × G :=
  maps.maps e.source beam (readings.map (·.position))

/-- The iteration that an answer of the source leads to, with the histories behind it. -/
def attempt (e : Estimator K G) (trial : Covariance K) (readings : List (Reading K))
    (answer : Except (Fault K) (List (PhaseMap K))) :
    Except (Fault K) (Iteration K × PlaneHistories K planeMoments) := do
  let found ← answer
  let recursion ← Observation.observe found readings
  relaxed e.settings e.histories e.completed.head? trial recursion found readings

def behind (e : Estimator K G) (source : G) :
    Except (Fault K) (Iteration K × PlaneHistories K planeMoments) →
      Except (Fault K) (Iteration K) × Estimator K G
  | .error f => (.error f, { e with begun := e.begun + 1, source })
  | .ok (i, histories) =>
    (.ok i, { e with
      begun := e.begun + 1, source, completed := i :: e.completed, histories,
      residual := some i.residual })

/-- An iteration is what the source answers and what follows from the answer. -/
theorem iterate_eq (maps : MapSource K G) (initial : Covariance K) (readings : List (Reading K))
    (e : Estimator K G) :
    iterate maps initial readings e =
      e.behind (ask maps readings (e.trial initial) e).2
        (e.attempt (e.trial initial) readings (ask maps readings (e.trial initial) e).1) := rfl

variable {maps : MapSource K G} {initial : Covariance K} {readings : List (Reading K)}
  {e d : Estimator K G} {i : Iteration K} {f : Fault K}

theorem finish_error {beam : Covariance K}
    (h : (ask maps readings beam e).1 >>= (beam.residual · readings) = .error f) :
    finish maps readings beam e = (.error f, { e with source := (ask maps readings beam e).2 }) := by
  change (maps.maps e.source beam (readings.map (·.position))).1.bind
    (beam.residual · readings) = _ at h
  unfold finish callSource
  dsimp only
  rw [h]
  rfl

theorem finish_ok {beam : Covariance K} {r : K}
    (h : (ask maps readings beam e).1 >>= (beam.residual · readings) = .ok r) :
    finish maps readings beam e =
      (.ok beam, { e with source := (ask maps readings beam e).2, residual := some r }) := by
  change (maps.maps e.source beam (readings.map (·.position))).1.bind
    (beam.residual · readings) = _ at h
  unfold finish callSource
  dsimp only
  rw [h]
  rfl

theorem run_stopped (h : iterate maps initial readings e = (.error f, d)) (further : Nat) :
    run maps initial readings further e = (.error f, d) := by
  rw [run, h]

theorem run_converged (h : iterate maps initial readings e = (.ok i, d))
    (hstep : i.step < d.settings.tolerance) (further : Nat) :
    run maps initial readings further e = finish maps readings i.next d := by
  rw [run, h]
  exact if_pos hstep

theorem run_capped (h : iterate maps initial readings e = (.ok i, d))
    (hstep : ¬ i.step < d.settings.tolerance) :
    run maps initial readings 0 e = (.error (.notConverged d.settings.maxIterations i.step), d) := by
  rw [run, h]
  exact if_neg hstep

theorem run_further (h : iterate maps initial readings e = (.ok i, d))
    (hstep : ¬ i.step < d.settings.tolerance) (further : Nat) :
    run maps initial readings (further + 1) e = run maps initial readings further d := by
  rw [run, h]
  exact if_neg hstep

theorem estimate_rejected {cause : SetupFault K} (h : Reading.setFault? readings = some cause) :
    estimate maps e initial readings =
      (.error (.setup cause), { fresh e.source e.settings with status := .failed }) := by
  unfold estimate
  rw [h, reset_eq_fresh]

theorem estimate_ok {beam : Covariance K} (hr : Reading.setFault? readings = none)
    (h : run maps initial readings (e.settings.maxIterations - 1) (fresh e.source e.settings) =
      (.ok beam, d)) :
    estimate maps e initial readings = (.ok beam, { d with status := .converged }) := by
  unfold estimate
  rw [hr, reset_eq_fresh]
  dsimp only [fresh] at h ⊢
  rw [h]

theorem estimate_error (hr : Reading.setFault? readings = none)
    (h : run maps initial readings (e.settings.maxIterations - 1) (fresh e.source e.settings) =
      (.error f, d)) :
    estimate maps e initial readings = (.error f, { d with status := .failed }) := by
  unfold estimate
  rw [hr, reset_eq_fresh]
  dsimp only [fresh] at h ⊢
  rw [h]

/-! ### The recorded run is the run -/

section Simulation

variable {g : G → H} {ms : MapSource K G} {ns : MapSource K H}

omit [Scalar K] in
theorem ask_mapSource (h : MapSource.Simulates g ms ns) (readings : List (Reading K))
    (beam : Covariance K) (e : Estimator K G) :
    ask ns readings beam (e.mapSource g) =
      ((ask ms readings beam e).1, g (ask ms readings beam e).2) :=
  h e.source beam _

/-- Estimators that differ in the state of the source go through corresponding iterations. -/
theorem iterate_mapSource (h : MapSource.Simulates g ms ns) (initial : Covariance K)
    (readings : List (Reading K)) (e : Estimator K G) :
    iterate ns initial readings (e.mapSource g) =
      (iterate ms initial readings e).map id (mapSource g) := by
  have htrial : (e.mapSource g).trial initial = e.trial initial := rfl
  rw [iterate_eq, iterate_eq, htrial, ask_mapSource h]
  change (e.mapSource g).behind _ (e.attempt (e.trial initial) readings _) = _
  cases e.attempt (e.trial initial) readings (ask ms readings (e.trial initial) e).1 with
  | error f => rfl
  | ok r => rfl

theorem finish_mapSource (h : MapSource.Simulates g ms ns) (readings : List (Reading K))
    (beam : Covariance K) (e : Estimator K G) :
    finish ns readings beam (e.mapSource g) =
      (finish ms readings beam e).map id (mapSource g) := by
  have hask := ask_mapSource h readings beam e
  cases hr : (ask ms readings beam e).1 >>= (beam.residual · readings) with
  | error f =>
    rw [finish_error hr, finish_error (by rw [hask]; exact hr), hask]
    rfl
  | ok r =>
    rw [finish_ok hr, finish_ok (by rw [hask]; exact hr), hask]
    rfl

/-- Two runs agree if they do whenever the first iteration leaves them going. -/
theorem run_mapSource_of_going (h : MapSource.Simulates g ms ns) (initial : Covariance K)
    (readings : List (Reading K)) (further : Nat) (e : Estimator K G)
    (hgoing : ∀ {i d}, iterate ms initial readings e = (.ok i, d) →
      iterate ns initial readings (e.mapSource g) = (.ok i, d.mapSource g) →
      ¬ i.step < d.settings.tolerance →
      run ns initial readings further (e.mapSource g) =
        (run ms initial readings further e).map id (mapSource g)) :
    run ns initial readings further (e.mapSource g) =
      (run ms initial readings further e).map id (mapSource g) := by
  have hi' := iterate_mapSource h initial readings e
  -- Both sources give the same answer, so that both runs take the same turn.
  cases hi : iterate ms initial readings e with
  | mk r d =>
    rw [hi] at hi'
    cases r with
    | error f =>
      rw [run_stopped hi, run_stopped hi']
      rfl
    | ok i =>
      by_cases hstep : i.step < d.settings.tolerance
      · rw [run_converged hi hstep, run_converged hi' hstep]
        exact finish_mapSource h readings i.next d
      · exact hgoing hi hi' hstep

/-- So they do through corresponding runs. -/
theorem run_mapSource (h : MapSource.Simulates g ms ns) (initial : Covariance K)
    (readings : List (Reading K)) (further : Nat) (e : Estimator K G) :
    run ns initial readings further (e.mapSource g) =
      (run ms initial readings further e).map id (mapSource g) := by
  -- Both runs go on together, and each iteration leaves them in related states.
  induction further generalizing e with
  | zero =>
    apply run_mapSource_of_going h
    intro i d hi hi' hstep
    rw [run_capped hi hstep, run_capped hi' hstep]
    rfl
  | succ further ih =>
    apply run_mapSource_of_going h
    intro i d hi hi' hstep
    rw [run_further hi hstep, run_further hi' hstep]
    exact ih d

theorem estimate_mapSource (h : MapSource.Simulates g ms ns) (initial : Covariance K)
    (readings : List (Reading K)) (e : Estimator K G) :
    estimate ns (e.mapSource g) initial readings =
      (estimate ms e initial readings).map id (mapSource g) := by
  cases hr : Reading.setFault? readings with
  | some cause =>
    rw [estimate_rejected hr, estimate_rejected hr]
    rfl
  | none =>
    cases hrun : run ms initial readings (e.settings.maxIterations - 1)
      (fresh e.source e.settings) with
    | mk r d =>
      have hrun' := run_mapSource h initial readings (e.settings.maxIterations - 1)
        (fresh e.source e.settings)
      rw [hrun] at hrun'
      cases r with
      | error f => rw [estimate_error hr hrun, estimate_error hr hrun']; rfl
      | ok beam => rw [estimate_ok hr hrun, estimate_ok hr hrun']; rfl

end Simulation

def recording (e : Estimator K G) : Estimator K (G × List (Call K)) := e.mapSource (·, [])

def calls (maps : MapSource K G) (e : Estimator K G) (initial : Covariance K)
    (readings : List (Reading K)) : List (Call K) :=
  (estimate maps.recording e.recording initial readings).2.source.2

/-- Writing down the calls changes nothing. -/
theorem estimate_recording (maps : MapSource K G) (e : Estimator K G) (initial : Covariance K)
    (readings : List (Reading K)) :
    estimate maps e initial readings =
      (estimate maps.recording e.recording initial readings).map id (mapSource Prod.fst) :=
  estimate_mapSource maps.recording_simulates initial readings e.recording

end Estimator

end BeamOptics
