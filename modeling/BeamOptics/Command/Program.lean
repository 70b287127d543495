import BeamOptics.Command.Options
import BeamOptics.Command.Report
import BeamOptics.Command.Table
import BeamOptics.Document.Config
import BeamOptics.Logging.Journal

/-!
The program as a function of its arguments and files.

The configuration is read first, then the field map, then the readings. What the reconstruction did
is written as lines of the report and as logged events, in the order in which it happened; a failure
comes behind them.
-/

namespace BeamOptics.Command

inductive Output where
  | line (text : String)
  | event (e : Event) (located : Bool)
deriving DecidableEq, Repr

structure Outcome where
  output : List Output
  failure : Option (Failure Float) := none
deriving Repr

abbrev Files := String → Option String

namespace Outcome

def ofFailure (f : Failure Float) : Outcome := ⟨[], some f⟩

/-- The exit code: zero for success, two for a malformed command line, a hundred and one for a text
that is cut inside a character or shorter than its quotes and for an index out of range, and one for
any other failure. -/
def exitCode (o : Outcome) : Nat :=
  match o.failure with
  | none => 0
  | some .usage => 2
  | some .logFilter | some (.loneQuote _) | some (.fault .indexRange) => 101
  | some _ => 1

def lines (o : Outcome) : List String :=
  o.output.filterMap fun
    | .line s => some s
    | .event .. => none

def events (o : Outcome) : List (Event × Bool) :=
  o.output.filterMap fun
    | .line _ => none
    | .event e located => some (e, located)

end Outcome

def readTable (files : Files) (path : String) : Except (Failure Float) Table :=
  match (files path).map Table.ofText with
  | some (.ok t) => .ok t
  | some (.error .loneQuote) => .error (.loneQuote path)
  | some (.error .unreadable) | none => .error (.unreadable path)

def readColumn (path : String) (t : Table) (name : String) : Except (Failure Float) Column :=
  match t.column? name with
  | some column => .ok column
  | none => .error (.unreadable path)

def readNumbers (path : String) (t : Table) (name : String) :
    Except (Failure Float) (List Float) := do
  match (← readColumn path t name).toNumbers? with
  | some xs => return xs
  | none => throw (.missingValues name)

def readField (files : Files) (path : String) : Except (Failure Float) (FieldMap Float) := do
  let t ← readTable files path
  let z ← readNumbers path t "z"
  let ez ← readNumbers path t "ez"
  FieldMap.ofColumns path z ez

def readReadings (files : Files) (path : String) :
    Except (Failure Float) (List (Reading Float)) := do
  let t ← readTable files path
  let locations := (← readColumn path t "location").toTexts
  let positions ← readNumbers path t "position"
  let x ← readNumbers path t "sigma_x"
  let y ← readNumbers path t "sigma_y"
  let z ← readNumbers path t "sigma_z"
  readingsOf (locations.zip (positions.zip (x.zip (y.zip z))))

/-- The configuration in a file, the standard one without a file. With the verbose flag, its logging
section gives way to the one for development. -/
def readConfig (files : Files) (o : Options) : Except (Failure Float) (SolverConfig Float) := do
  let config ← match o.config with
    | none => pure SolverConfig.standard
    | some path =>
      match files path with
      | none => throw (.unreadable path)
      | some text => (SolverConfig.ofText text).mapError Failure.fault
  return if o.verbose then { config with logging := LogConfig.development } else config

def Options.controls (o : Options) (c : SolverConfig Float) : Controls Float where
  species := o.species.getD .proton
  energy := o.energy.getD 2.5
  frequency := o.frequency.getD 352.21
  phase := o.phase.getD (-30)
  amplitude := o.amplitude
  gapStart := o.gapStart.getD 0
  perveance := o.perveance.getD 0
  longitudinalPerveance := o.longitudinalPerveance.getD 0
  sliceLength := o.sliceLength.getD 0.05
  settings := c.estimator
  formula := c.longitudinal

structure Logger where
  filter : LogFilter
  sourceLocation : Bool

def readLogger (c : LogConfig) : Except (Failure Float) Logger :=
  match LogFilter.ofConfig? c with
  | some filter => .ok ⟨filter, c.sourceLocation⟩
  | none => .error .logFilter

def Logger.output (l : Logger) (events : List Event) : List Output :=
  (events.filter l.filter.isShown).map (.event · l.sourceLocation)

def entryOutput (l : Logger) (positions : List Float) (e : Entry Float) : List Output :=
  l.output (Journal.entry positions e) ++ (e.line?.map Output.line).toList

def reconstruction (controls : Controls Float) (l : Logger) (field : FieldMap Float)
    (readings : List (Reading Float)) : Outcome :=
  let record := reconstruct controls field readings
  let positions := readings.map (·.position)
  ⟨l.output [Journal.inputsLoaded] ++ record.entries.flatMap (entryOutput l positions),
    record.fault.map .fault⟩

def runOptions (files : Files) (o : Options) (field measurements : String) : Outcome :=
  let inputs : Except (Failure Float) Outcome := do
    let config ← readConfig files o
    let logger ← readLogger config.logging
    let field ← readField files field
    let readings ← readReadings files measurements
    return reconstruction (o.controls config) logger field readings
  match inputs with
  | .ok outcome => outcome
  | .error f => .ofFailure f

def run (files : Files) (args : List String) : Outcome :=
  match Options.read {} args with
  | .usage => .ofFailure .usage
  | .version => ⟨[.line "beamenv 0.1.0"], none⟩
  | .help => ⟨[.line Failure.usage.text], none⟩
  | .run o field measurements => runOptions files o field measurements

def paths (args : List String) : List String :=
  match Options.read {} args with
  | .run o field measurements => o.config.toList ++ [field, measurements]
  | _ => []

end BeamOptics.Command
