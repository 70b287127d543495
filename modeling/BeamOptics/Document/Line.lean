import BeamOptics.Envelope.Reading
import BeamOptics.Json.Decoding
import BeamOptics.Line.BeamLine

/-!
Lines and readings as documents.

Each type has a writer `toJson` and a reader `ofJson?`. A reader checks a profile as its constructor
does and takes all other numbers as they are.
-/

namespace BeamOptics

open Json

variable {K : Type} [Scalar K]

def Json.realList (xs : List K) : Json K := .array (xs.map Json.real)

namespace Profile

def toJson (p : Profile K) : Json K :=
  .record [("positions", realList p.positions.toList), ("samples", realList p.samples.toList)]

def ofJson? (v : Json K) : Option (Profile K) := do
  let [positions, samples] ← slots? ["positions", "samples"] v | none
  (mk? (← required reals? positions).toArray (← required reals? samples).toArray).toOption

end Profile

namespace TransitFit

def toJson (f : TransitFit K) : Json K :=
  .record [("length", .real f.length), ("coefficients", realList f.coefficients)]

def ofJson? (v : Json K) : Option (TransitFit K) := do
  let [length, coefficients] ← slots? ["length", "coefficients"] v | none
  return ⟨← required real? length, ← required reals? coefficients⟩

end TransitFit

namespace Drive

def toJson (d : Drive K) : Json K :=
  .record [("frequency", .real d.frequency), ("amplitude", .real d.amplitude),
    ("entry_phase", .real d.entryPhase)]

def ofJson? (v : Json K) : Option (Drive K) := do
  let [frequency, amplitude, entryPhase] ← slots? ["frequency", "amplitude", "entry_phase"] v | none
  return ⟨← required real? frequency, ← required real? amplitude, ← required real? entryPhase⟩

end Drive

namespace FieldModel

def toJson : FieldModel K → Json K
  | sampled profile => .record [("kind", .string "sampled"), ("profile", profile.toJson)]
  | transitFit fit => .record [("kind", .string "transit-time-fit"), ("fit", fit.toJson)]
  | multiCell cell cells =>
    .record [("kind", .string "multi-cell"), ("cell", cell.toJson), ("cells", .nat cells)]

/-- A model by its kind, inside `level` arrays and objects and perhaps inside another choice. -/
def ofInnerJson? (level : Nat) (inner : Bool) (v : Json K) : Option (FieldModel K) := do
  let (kind, fields) ←
    variant? "kind" ["sampled", "transit-time-fit", "multi-cell"] level inner v
  match kind with
  | "sampled" =>
    let [profile] ← slots? ["profile"] fields | none
    return sampled (← required Profile.ofJson? profile)
  | "transit-time-fit" =>
    let [fit] ← slots? ["fit"] fields | none
    return transitFit (← required TransitFit.ofJson? fit)
  | _ =>
    let [cell, cells] ← slots? ["cell", "cells"] fields | none
    return multiCell (← required Profile.ofJson? cell) (← required nat? cells)

def ofJson? (v : Json K) : Option (FieldModel K) := ofInnerJson? 0 false v

end FieldModel

namespace Element

def toJson : Element K → Json K
  | drift length => .record [("type", .string "drift"), ("length", .real length)]
  | gap model drive =>
    .record [("type", .string "rf-gap"), ("model", model.toJson), ("drive", drive.toJson)]

def ofJson? (level : Nat) (v : Json K) : Option (Element K) := do
  let (type, fields) ← variant? "type" ["drift", "rf-gap"] level false v
  match type with
  | "drift" =>
    let [length] ← slots? ["length"] fields | none
    return drift (← required real? length)
  | _ =>
    let [model, drive] ← slots? ["model", "drive"] fields | none
    return gap (← required (FieldModel.ofInnerJson? (level + 1) true) model)
      (← required Drive.ofJson? drive)

end Element

namespace SpaceCharge

def toJson (s : SpaceCharge K) : Json K :=
  .record [("perveance", .real s.perveance),
    ("longitudinal_perveance", .real s.longitudinalPerveance),
    ("slice_length", .real s.sliceLength)]

def ofJson? (v : Json K) : Option (SpaceCharge K) := do
  let [perveance, longitudinal, slice] ←
    slots? ["perveance", "longitudinal_perveance", "slice_length"] v | none
  return ⟨← required real? perveance, ← required real? longitudinal, ← required real? slice⟩

end SpaceCharge

namespace Probe

def toJson (p : Probe K) : Json K :=
  .record [("kinetic_energy", .real p.kineticEnergy), ("rest_energy", .real p.restEnergy),
    ("charge", .real p.charge)]

def ofJson? (v : Json K) : Option (Probe K) := do
  let [kinetic, rest, charge] ← slots? ["kinetic_energy", "rest_energy", "charge"] v | none
  return ⟨← required real? kinetic, ← required real? rest, ← required real? charge⟩

end Probe

namespace LongitudinalFormula

def toJson (f : LongitudinalFormula) : Json K := .string f.name

def ofJson? (v : Json K) : Option LongitudinalFormula := oneOf? (all.map fun f => (f.name, f)) v

end LongitudinalFormula

namespace BeamLine

def toJson (line : BeamLine K) : Json K :=
  .record [("probe", line.probe.toJson), ("elements", .array (line.elements.map Element.toJson)),
    ("space_charge", (line.spaceCharge.map SpaceCharge.toJson).getD .null),
    ("formula", line.formula.toJson)]

/-- A line from its particle, elements, space charge if there is one, and convention if it is not
the usual one. -/
def ofJson? (v : Json K) : Option (BeamLine K) := do
  let [probe, elements, spaceCharge, formula] ←
    slots? ["probe", "elements", "space_charge", "formula"] v | none
  let probe ← required Probe.ofJson? probe
  let elements ← (← required items? elements).mapM (Element.ofJson? 2)
  let spaceCharge ← defaulted (nullable SpaceCharge.ofJson?) none spaceCharge
  let formula ← defaulted LongitudinalFormula.ofJson? .logRatio formula
  return { probe, elements, spaceCharge, formula }

end BeamLine

namespace Reading

def toJson (r : Reading K) : Json K :=
  .record [("location", .string r.location), ("position", .real r.position),
    ("rms", realList r.sizes.toList)]

def ofJson? (v : Json K) : Option (Reading K) := do
  let [location, position, sizes] ← slots? ["location", "position", "rms"] v | none
  let location ← required string? location
  let position ← required real? position
  let [x, y, z] ← required reals? sizes | none
  return ⟨location, position, ⟨x, y, z⟩⟩

end Reading

end BeamOptics
