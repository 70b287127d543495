import BeamOptics.Beam.Probe
import BeamOptics.Decimal.Reading

/-!
The command line of the program.

An option takes its value behind an equals sign or from the next argument. The next argument must
not begin with a hyphen, but for the phase, which may be negative. No option may be given twice, and
there are no other arguments. Arguments are read from left to right, and the first that settles the
outcome does.
-/

namespace BeamOptics.Command

structure Options where
  field : Option String := none
  measurements : Option String := none
  species : Option Species := none
  -- in mega-electronvolts
  energy : Option Float := none
  -- in megahertz
  frequency : Option Float := none
  -- at the entrance of the gap, in degrees
  phase : Option Float := none
  amplitude : Option Float := none
  gapStart : Option Float := none
  perveance : Option Float := none
  longitudinalPerveance : Option Float := none
  sliceLength : Option Float := none
  config : Option String := none
  verbose : Bool := false
deriving Repr

inductive Request where
  | usage
  | version
  | help
  | run (options : Options) (field measurements : String)
deriving Repr

namespace Options

def fill? {α : Type} (slot value : Option α) : Option (Option α) :=
  match slot, value with
  | none, some v => some (some v)
  | _, _ => none

def path? (s : String) : Option String := if s.isEmpty then none else some s

/-- An option with its value, if it was not given before and the value has the right form. -/
def set? (o : Options) (name value : String) : Option Options :=
  let number := Decimal.read? value
  match name with
  | "field" => (fill? o.field (path? value)).map fun v => { o with field := v }
  | "measurements" => (fill? o.measurements (path? value)).map fun v => { o with measurements := v }
  | "species" => (fill? o.species (Species.ofName? value)).map fun v => { o with species := v }
  | "energy-mev" => (fill? o.energy number).map fun v => { o with energy := v }
  | "frequency-mhz" => (fill? o.frequency number).map fun v => { o with frequency := v }
  | "phase-deg" => (fill? o.phase number).map fun v => { o with phase := v }
  | "amplitude" => (fill? o.amplitude number).map fun v => { o with amplitude := v }
  | "gap-start" => (fill? o.gapStart number).map fun v => { o with gapStart := v }
  | "perveance" => (fill? o.perveance number).map fun v => { o with perveance := v }
  | "longitudinal-perveance" =>
    (fill? o.longitudinalPerveance number).map fun v => { o with longitudinalPerveance := v }
  | "slice-length" => (fill? o.sliceLength number).map fun v => { o with sliceLength := v }
  | "config" => (fill? o.config (path? value)).map fun v => { o with config := v }
  | _ => none

def setVerbose? (o : Options) : Option Options :=
  if o.verbose then none else some { o with verbose := true }

def isValue (name value : String) : Bool :=
  name = "phase-deg" || value = "-" || !value.startsWith "-"

def flags (o : Options) : List Char → Options ⊕ Request
  | [] => .inl o
  | 'v' :: cs =>
    match o.setVerbose? with
    | some o => flags o cs
    | none => .inr .usage
  | 'V' :: _ => .inr .version
  | 'h' :: _ => .inr .help
  | _ => .inr .usage

def request (o : Options) : Request :=
  match o.field, o.measurements with
  | some field, some measurements => .run o field measurements
  | _, _ => .usage

def read (o : Options) : List String → Request
  | [] => o.request
  | "--" :: rest => if rest.isEmpty then o.request else .usage
  | "--version" :: _ => .version
  | "--help" :: _ => .help
  | "--verbose" :: rest =>
    match o.setVerbose? with
    | some o => read o rest
    | none => .usage
  | arg :: rest =>
    match arg.toList with
    | '-' :: '-' :: long =>
      match long.dropWhile (· ≠ '=') with
      | _ :: value =>
        match o.set? (String.ofList (long.takeWhile (· ≠ '='))) (String.ofList value) with
        | some o => read o rest
        | none => .usage
      | [] =>
        match rest with
        | value :: rest =>
          let name := String.ofList long
          if isValue name value then
            match o.set? name value with
            | some o => read o rest
            | none => .usage
          else .usage
        | [] => .usage
    | '-' :: c :: cs =>
      match o.flags (c :: cs) with
      | .inl o => read o rest
      | .inr r => r
    | _ => .usage

end Options

end BeamOptics.Command
