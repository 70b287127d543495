import BeamOptics.Document.Line
import BeamOptics.Estimator.Settings
import BeamOptics.Json.Printing
import BeamOptics.Json.Reading
import BeamOptics.Logging.Config

/-!
The configuration of the solver, as a document.

Every field has a default, so a document names only what it changes.
-/

namespace BeamOptics

open Json

structure SolverConfig (K : Type) where
  estimator : Settings K
  longitudinal : LongitudinalFormula := .logRatio
  logging : LogConfig := {}
deriving BEq, Repr

namespace LogConfig

variable {K : Type}

def toJson (c : LogConfig) : Json K :=
  .record [("level", .string c.level.name), ("format", .string c.format.name),
    ("filter", (c.filter.map Json.string).getD .null), ("source_location", .bool c.sourceLocation)]

def ofJson? (v : Json K) : Option LogConfig := do
  let [level, format, filter, location] ←
    slots? ["level", "format", "filter", "source_location"] v | none
  let level ← defaulted (oneOf? (LogLevel.all.map fun l => (l.name, l))) LogLevel.info level
  let format ← defaulted (oneOf? (LogFormat.all.map fun f => (f.name, f))) LogFormat.compact format
  let filter ← defaulted (nullable string?) none filter
  let sourceLocation ← defaulted bool? false location
  return { level, format, filter, sourceLocation }

end LogConfig

namespace Settings

variable {K : Type} [Scalar K]

def toJson (s : Settings K) : Json K :=
  .record [("max_iterations", .nat s.maxIterations), ("tolerance", .real s.tolerance),
    ("default_alpha", .real s.relaxationFloor), ("rank_tolerance", .real s.rankTolerance)]

def ofJson? (v : Json K) : Option (Settings K) := do
  let [cap, tolerance, floor, rank] ←
    slots? ["max_iterations", "tolerance", "default_alpha", "rank_tolerance"] v | none
  let d : Settings K := standard
  return ⟨← defaulted nat? d.maxIterations cap, ← defaulted real? d.tolerance tolerance,
    ← defaulted real? d.relaxationFloor floor, ← defaulted real? d.rankTolerance rank⟩

end Settings

namespace SolverConfig

section

variable {K : Type} [Scalar K]

def standard : SolverConfig K := { estimator := Settings.standard }

instance : Inhabited (SolverConfig K) := ⟨standard⟩

def toJson (c : SolverConfig K) : Json K :=
  .record [("estimator", c.estimator.toJson), ("longitudinal", c.longitudinal.toJson),
    ("logging", c.logging.toJson)]

def decode? (v : Json K) : Option (SolverConfig K) := do
  let [estimator, longitudinal, logging] ←
    slots? ["estimator", "longitudinal", "logging"] v | none
  let estimator ← defaulted Settings.ofJson? Settings.standard estimator
  let longitudinal ← defaulted LongitudinalFormula.ofJson? .logRatio longitudinal
  let logging ← defaulted LogConfig.ofJson? {} logging
  return { estimator, longitudinal, logging }

def ofJson (v : Json K) : Except (Fault K) (SolverConfig K) :=
  match decode? v with
  | none => .error (.setup .solverText)
  | some c => c.estimator.check.map fun _ => c

end

def ofText (text : String) : Except (Fault Float) (SolverConfig Float) :=
  match Json.read? text with
  | none => .error (.setup .solverText)
  | some v => ofJson v

def toText (c : SolverConfig Float) : String := String.ofList (c.toJson.pretty 0)

end SolverConfig

end BeamOptics
