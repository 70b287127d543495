import BeamOptics.Estimator.Run
import BeamOptics.Line.BeamLine

/-!
The reconstruction that the command line runs.

A field map and readings become a line of drift, gap and drift that reaches the last reading. The
readings give a beam without space charge first; with space charge it is the first trial of the
estimator. What happens on the way is recorded in order, so that a fault leaves the record that was
made before it.
-/

namespace BeamOptics.Command

inductive Failure (K : Type) where
  | usage
  | unreadable (path : String)
  | loneQuote (path : String)
  | missingValues (column : String)
  | zeroField (path : String)
  | logFilter
  | fault (f : Fault K)
deriving Repr

/-- A field map as a profile with peak one and its peak. -/
structure FieldMap (K : Type) [Scalar K] where
  profile : Profile K
  peak : K

structure Controls (K : Type) where
  species : Species
  -- in mega-electronvolts
  energy : K
  -- in megahertz
  frequency : K
  -- at the entrance of the gap, in degrees
  phase : K
  -- the factor of the field's shape, if it is not the peak of the map
  amplitude : Option K
  gapStart : K
  perveance : K
  longitudinalPerveance : K
  sliceLength : K
  settings : Settings K
  formula : LongitudinalFormula
deriving Repr

inductive Entry (K : Type) [Scalar K] where
  -- through this many gaps
  | walk (gaps : Nat)
  | seedTitle
  | chargedTitle
  | ellipse (plane : Plane) (twiss : Twiss K)
  -- the estimator ran on a line from a first trial
  | estimated (line : BeamLine K) (initial : Covariance K) (run : Estimator K (BeamLine K))
  | solved (iterations : Nat) (alpha : K) (residual : Option K)
  | fitTitle
  | row (comparison : Comparison K)

structure Record (K : Type) [Scalar K] where
  entries : List (Entry K)
  fault : Option (Fault K)

variable {K : Type} [Scalar K]

namespace FieldMap

def ofColumns (path : String) (z ez : List K) : Except (Failure K) (FieldMap K) :=
  let peak := Scalar.maxAbs ez
  if peak == 0 then .error (.zeroField path)
  else
    let origin := z.headD 0
    match Profile.mk? (z.map (· - origin)).toArray (ez.map (· / peak)).toArray with
    | .ok profile => .ok ⟨profile, peak⟩
    | .error f => .error (.fault f)

end FieldMap

namespace Record

def nothing : Record K := ⟨[], none⟩

def ofFault (f : Fault K) : Record K := ⟨[], some f⟩

def cons (e : Entry K) (r : Record K) : Record K := { r with entries := e :: r.entries }

def andThen (r : Record K) (next : Unit → Record K) : Record K :=
  match r.fault with
  | some _ => r
  | none => let s := next (); ⟨r.entries ++ s.entries, s.fault⟩

def use {α : Type} (result : Except (Fault K) α) (next : α → Record K) : Record K :=
  match result with
  | .ok a => next a
  | .error f => ofFault f

def ellipses (beam : Covariance K) : List Plane → Record K
  | [] => nothing
  | p :: ps => use (beam.twiss p) fun t => cons (.ellipse p t) (ellipses beam ps)

end Record

namespace Controls

/-- Drift, gap and drift: the first only before a gap that starts behind the entrance, the last only
up to a reading behind the gap. -/
def elements (c : Controls K) (profile : Profile K) (drive : Drive K) (positions : List K) :
    List (Element K) :=
  let gapEnd := c.gapStart + profile.length
  let last := positions.getLast?.getD gapEnd
  (if 0 < c.gapStart then [.drift c.gapStart] else []) ++ [.gap (.sampled profile) drive]
    ++ if gapEnd < last then [.drift (last - gapEnd)] else []

def line (c : Controls K) (field : FieldMap K) (positions : List K) :
    Except (Fault K) (BeamLine K) := do
  let mega : K := 1000000
  let probe ← Probe.ofSpecies c.species (c.energy * mega)
  let drive ← Drive.mk? (c.frequency * mega) (c.amplitude.getD field.peak) (Scalar.radians c.phase)
  let line ← BeamLine.mk? probe (c.elements field.profile drive positions)
  return { line with formula := c.formula }

def hasSpaceCharge (c : Controls K) : Bool :=
  decide (0 < c.perveance) || decide (0 < c.longitudinalPerveance)

end Controls

/-- Readings in the order of their positions; equal positions stay in order. -/
def sortReadings (readings : List (Reading K)) : List (Reading K) :=
  readings.mergeSort fun a b => Scalar.precedes a.position b.position

def rowReading : String × K × K × K × K → Except (Failure K) (Reading K)
  | (location, position, x, y, z) =>
    (Reading.mk? location position ⟨x, y, z⟩).mapError Failure.fault

def readingsOf (rows : List (String × K × K × K × K)) : Except (Failure K) (List (Reading K)) :=
  (rows.mapM rowReading).map sortReadings

def walkGaps (line : BeamLine K) (charged : Option (ChargedBeam K)) (positions : List K) : Nat :=
  match BeamLine.checkPositions line.length 0 positions with
  | .error _ => 0
  | .ok _ => line.gapsPassed charged line.elements (line.entrance positions)

def lineSource : MapSource K (BeamLine K) where
  maps line trial positions := (line.mapsAt trial positions, line)

def compareAlong (line : BeamLine K) (beam : Covariance K) (readings : List (Reading K)) :
    Record K :=
  let positions := readings.map (·.position)
  .cons .fitTitle <| .cons (.walk (walkGaps line (line.charge beam) positions)) <|
    .use (line.mapsAt beam positions) fun maps =>
      .use (beam.compare maps readings) fun rows => ⟨rows.map .row, none⟩

def withSpaceCharge (c : Controls K) (line : BeamLine K) (seed : Covariance K)
    (readings : List (Reading K)) : Record K :=
  .use (SpaceCharge.mk? c.perveance c.longitudinalPerveance c.sliceLength) fun model =>
    let line := { line with spaceCharge := some model }
    .use (Estimator.mk? line c.settings) fun fresh =>
      let (result, run) := fresh.estimate lineSource seed readings
      .cons (.estimated line seed run) <| .use result fun beam =>
        .cons (.solved run.begun run.alpha run.residual) <| .cons .chargedTitle <|
          (Record.ellipses beam Plane.all).andThen fun _ => compareAlong line beam readings

def reconstruct (c : Controls K) (field : FieldMap K) (readings : List (Reading K)) : Record K :=
  let positions := readings.map (·.position)
  .use (c.line field positions) fun line =>
    .cons (.walk (walkGaps line none positions)) <|
      .use (line.zeroCurrentMaps positions) fun maps =>
        .use (Observation.zeroCurrent maps readings) fun seed =>
          .cons .seedTitle <| (Record.ellipses seed Plane.all).andThen fun _ =>
            if c.hasSpaceCharge then withSpaceCharge c line seed readings
            else compareAlong line seed readings

end BeamOptics.Command
