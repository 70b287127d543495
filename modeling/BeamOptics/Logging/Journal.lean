import BeamOptics.Command.Reconstruction
import BeamOptics.Logging.Filter

/-!
The events of a reconstruction.

A gap that a walk goes through gives two events, an iteration one, and each plane that it passed
over another before it; a run ends with one.
-/

namespace BeamOptics.Journal

open Command

def inputsLoaded : Event := ⟨.info, "beamenv", ["samples", "readings"], "inputs loaded"⟩

def walk (gaps : Nat) : List Event :=
  (List.replicate gaps
    [⟨.trace, "beamenv_calc::transfer", ["samples", "entry_energy", "exit_energy"],
        "precomputed integration context"⟩,
      ⟨.trace, "beamenv_calc::lattice", ["energy"], "probe advanced through RF gap"⟩]).flatten

def estimatorEvent (level : LogLevel) (details : List String) (message : String) : Event :=
  ⟨level, "beamenv_calc::estimator", details, message⟩

def planeSkipped : Event :=
  estimatorEvent .debug ["iteration", "plane", "error"] "plane skipped in relaxation update"

def iterated : Event :=
  estimatorEvent .debug ["iteration", "alpha", "residual", "step"] "estimator iteration"

variable {K : Type} [Scalar K]

def iteration (gaps : Nat) (i : Iteration K) : List Event :=
  walk gaps ++ i.skipped.map (fun _ => planeSkipped) ++ [iterated]

def hasLastCall {G : Type} (e : Estimator K G) : Bool :=
  decide (e.completed.length < e.begun)
    || (e.completed.head?.map fun i => decide (i.step < e.settings.tolerance)).getD false

def closing : Status → List Event
  | .initialized => []
  | .converged =>
    [estimatorEvent .info ["iterations", "alpha", "residual"] "envelope reconstruction converged"]
  | .failed => [estimatorEvent .warn ["iterations", "error"] "envelope reconstruction failed"]

def run {G : Type} (gaps : Covariance K → Nat) (initial : Covariance K) (e : Estimator K G) :
    List Event :=
  e.completed.reverse.flatMap (fun i => iteration (gaps i.trial) i)
    ++ (if hasLastCall e then walk (gaps (e.trial initial)) else [])
    ++ closing e.status

def entry (positions : List K) : Entry K → List Event
  | .walk gaps => walk gaps
  | .estimated line initial e =>
    run (fun beam => walkGaps line (line.charge beam) positions) initial e
  | _ => []

end BeamOptics.Journal
