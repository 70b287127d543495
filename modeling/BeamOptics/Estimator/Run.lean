import BeamOptics.Envelope.Observation
import BeamOptics.Estimator.History
import BeamOptics.Estimator.Settings

/-!
The relaxed fixed-point estimator.

When the maps depend on the beam, the beam that explains the readings is a fixed point: maps are
made for a trial beam, the observation through them is its recursion value, and the next trial lies
on the way from the trial to that value. How far is the relaxation factor: the largest candidate of
the planes' histories, and never less than a floor. The run ends when a relative step is below the
tolerance, or at the iteration cap.
-/

namespace BeamOptics

/-- A source of maps from the reconstruction point to positions. It has a state of its own, and may
fail or give any number of maps. -/
structure MapSource (K G : Type) where
  maps : G → (trial : Covariance K) → (positions : List K) →
    Except (Fault K) (List (PhaseMap K)) × G

inductive Status where
  | initialized
  | converged
  | failed
deriving DecidableEq, Repr

def Status.name : Status → String
  | .initialized => "initialized"
  | .converged => "converged"
  | .failed => "failed"

structure Iteration (K : Type) where
  trial : Covariance K
  recursion : Covariance K
  alpha : K
  next : Covariance K
  -- of the relaxed beam, through the maps of the trial
  residual : K
  -- the relative distance from the trial to the relaxed beam
  step : K
  -- the planes whose history was at fault
  skipped : List Plane

def Estimator.planeMoments : Nat := 3

structure Estimator (K G : Type) where
  source : G
  settings : Settings K
  status : Status
  -- iterations, a failed one included
  begun : Nat
  -- latest first
  completed : List (Iteration K)
  histories : PlaneHistories K Estimator.planeMoments
  residual : Option K

namespace Estimator

variable {K G : Type}

def fresh (source : G) (settings : Settings K) : Estimator K G :=
  ⟨source, settings, .initialized, 0, [], .empty planeMoments, none⟩

/-- The record of the latest run cleared, field by field. The source and the settings stay. -/
def reset (e : Estimator K G) : Estimator K G :=
  { e with
    status := .initialized, begun := 0, completed := [], histories := e.histories.clear,
    residual := none }

/-- Clearing the record field by field leaves nothing of an earlier run. -/
theorem reset_eq_fresh (e : Estimator K G) : e.reset = fresh e.source e.settings := by
  rw [reset, PlaneHistories.clear_eq_empty]
  rfl

def covariance (e : Estimator K G) : Option (Covariance K) := e.completed.head?.map (·.next)

def alpha (e : Estimator K G) : K :=
  (e.completed.head?.map (·.alpha)).getD e.settings.relaxationFloor

def alphas (e : Estimator K G) : List K := e.completed.reverse.map (·.alpha)

def convergence (e : Estimator K G) : Option K := e.completed.head?.map (·.step)

def trial (e : Estimator K G) (initial : Covariance K) : Covariance K := e.covariance.getD initial

variable [Scalar K]

def mk? (source : G) (settings : Settings K) : Except (Fault K) (Estimator K G) :=
  (settings.check).map fun _ => fresh source settings

/-- The histories with the increments from an iteration to the next trial and its recursion. -/
def recordIncrements (h : Histories K) (previous : Iteration K) (trial recursion : Covariance K) :
    Histories K :=
  let increment (new old : Covariance K) (p : Plane) : Vec K :=
    let m := new.moments p
    let n := old.moments p
    ⟨[m.s11 - n.s11, m.s12 - n.s12, m.s22 - n.s22]⟩
  Triple.ofFn fun p =>
    (h.get p).push (increment trial previous.trial p) (increment recursion previous.recursion p)

theorem recordIncrements_capacity (h : Histories K) (previous : Iteration K)
    (trial recursion : Covariance K) (p : Plane) :
    ((recordIncrements h previous trial recursion).get p).capacity = (h.get p).capacity := by
  rw [recordIncrements, Triple.get_ofFn]
  rfl

/-- The largest candidate of the planes, at least the floor, and the planes that had none because
their history is at fault. -/
def relaxation (settings : Settings K) (h : Histories K) : K × List Plane :=
  let candidates := h.candidates settings.rankTolerance
  Plane.all.foldl
    (fun (alpha, skipped) p =>
      match candidates.get p with
      | .ok (some value) => (Scalar.maxNum alpha value, skipped)
      | .ok none => (alpha, skipped)
      | .error _ => (alpha, skipped ++ [p]))
    (settings.relaxationFloor, [])

/-- The iteration that follows from the recursion value of a trial, with the histories behind it. -/
def relaxed (settings : Settings K) (h : PlaneHistories K planeMoments)
    (previous : Option (Iteration K)) (trial recursion : Covariance K) (maps : List (PhaseMap K))
    (readings : List (Reading K)) :
    Except (Fault K) (Iteration K × PlaneHistories K planeMoments) := do
  -- the first iteration has no increments to record
  let h := match previous with
    | none => h
    | some i =>
      ⟨recordIncrements h.planes i trial recursion,
        fun p => (recordIncrements_capacity h.planes i trial recursion p).trans (h.capacities p)⟩
  let (alpha, skipped) := relaxation settings h.planes
  let next := trial.relax recursion alpha
  let residual ← next.residual maps readings
  return (⟨trial, recursion, alpha, next, residual, next.relativeDistance trial, skipped⟩, h)

/-- The maps for a beam at the readings, and the estimator with its source behind the call. -/
def callSource (maps : MapSource K G) (readings : List (Reading K)) (beam : Covariance K)
    (e : Estimator K G) : Except (Fault K) (List (PhaseMap K)) × Estimator K G :=
  let (result, source) := maps.maps e.source beam (readings.map (·.position))
  (result, { e with source })

/-- One iteration: the estimator with the iteration completed, or with the fault that stopped it. -/
def iterate (maps : MapSource K G) (initial : Covariance K) (readings : List (Reading K))
    (e : Estimator K G) : Except (Fault K) (Iteration K) × Estimator K G :=
  let trial := e.trial initial
  let (result, e) := callSource maps readings trial { e with begun := e.begun + 1 }
  let outcome : Except (Fault K) (Iteration K × PlaneHistories K planeMoments) := do
    let found ← result
    let recursion ← Observation.observe found readings
    relaxed e.settings e.histories e.completed.head? trial recursion found readings
  match outcome with
  | .error f => (.error f, e)
  | .ok (i, histories) =>
    (.ok i,
      { e with completed := i :: e.completed, histories, residual := some i.residual })

/-- The end of a run that met the tolerance: the maps are made once more, for the beam returned, and
the residual is taken through them. -/
def finish (maps : MapSource K G) (readings : List (Reading K)) (beam : Covariance K)
    (e : Estimator K G) : Except (Fault K) (Covariance K) × Estimator K G :=
  let (result, e) := callSource maps readings beam e
  match result.bind fun found => beam.residual found readings with
  | .error f => (.error f, e)
  | .ok r => (.ok beam, { e with residual := some r })

def run (maps : MapSource K G) (initial : Covariance K) (readings : List (Reading K)) :
    (further : Nat) → Estimator K G → Except (Fault K) (Covariance K) × Estimator K G
  | further, e =>
    match iterate maps initial readings e with
    | (.error f, e) => (.error f, e)
    | (.ok i, e) =>
      if i.step < e.settings.tolerance then finish maps readings i.next e
      else match further with
        | 0 => (.error (.notConverged e.settings.maxIterations i.step), e)
        | further + 1 => run maps initial readings further e

/-- The beam that explains the readings, from a first trial on. The record of an earlier run is
cleared first. -/
def estimate (maps : MapSource K G) (e : Estimator K G) (initial : Covariance K)
    (readings : List (Reading K)) : Except (Fault K) (Covariance K) × Estimator K G :=
  let e := e.reset
  match Reading.setFault? readings with
  | some cause => (.error (.setup cause), { e with status := .failed })
  | none =>
    match run maps initial readings (e.settings.maxIterations - 1) e with
    | (.ok beam, e) => (.ok beam, { e with status := .converged })
    | (.error f, e) => (.error f, { e with status := .failed })

end Estimator

end BeamOptics
