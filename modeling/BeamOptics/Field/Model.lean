import BeamOptics.Beam.Probe
import BeamOptics.Field.Profile

/-!
How an accelerating element describes its field, and the profile that a particle sees.
-/

namespace BeamOptics

structure Drive (K : Type) where
  -- in hertz
  frequency : K
  -- the factor of the profile's shape values, in volts per metre
  amplitude : K
  -- the phase at which the synchronous particle enters, in radians
  entryPhase : K
deriving DecidableEq, BEq, Repr

structure TransitFit (K : Type) where
  length : K
  coefficients : List K
deriving DecidableEq, BEq, Repr

inductive FieldModel (K : Type) [Scalar K] where
  | sampled (profile : Profile K)
  | transitFit (fit : TransitFit K)
  | multiCell (cell : Profile K) (cells : Nat)

namespace Drive

variable {K : Type} [Scalar K]

def mk? (frequency amplitude entryPhase : K) : Except (Fault K) (Drive K) :=
  if !Scalar.isPositive frequency then .error (.setup (.frequency frequency))
  else if !Scalar.isFinite amplitude || !Scalar.isFinite entryPhase then
    .error (.setup .driveNotFinite)
  else .ok ⟨frequency, amplitude, entryPhase⟩

def omega (d : Drive K) : K := 2 * Scalar.pi * d.frequency

end Drive

namespace TransitFit

variable {K : Type} [Scalar K]

def mk? (length : K) (coefficients : List K) : Except (Fault K) (TransitFit K) :=
  if !Scalar.isPositive length then .error (.setup (.gapLength length))
  else if coefficients.isEmpty || !coefficients.all Scalar.isFinite then
    .error (.setup .transitCoefficients)
  else .ok ⟨length, coefficients⟩

def factor (f : TransitFit K) (beta : K) : K :=
  f.coefficients.foldr (fun c acc => acc * beta + c) 0

end TransitFit

namespace FieldModel

variable {K : Type} [Scalar K]

def multiCell? (cell : Profile K) (cells : Nat) : Except (Fault K) (FieldModel K) :=
  if cells = 0 then .error (.setup .noCells) else .ok (.multiCell cell cells)

def length : FieldModel K → K
  | sampled profile => profile.length
  | transitFit fit => fit.length
  | multiCell cell cells => cell.length * Scalar.ofNat cells

def cellSign (k : Nat) : K := if k % 2 = 0 then 1 else -1

/-- Sample `j` of cell `k`. A cell behind another one starts with the mean of its own start and the
other's end. -/
def cellSample (cell : Profile K) (k j : Nat) : K :=
  let value := cellSign k * cell.sample j
  if j = 0 ∧ 0 < k then (cellSign (k - 1) * cell.sample (cell.size - 1 : Nat) + value) / 2
  else value

/-- The samples of copies of a cell, one cell after the other, and the end of the last one. -/
def rowSamples (cell : Profile K) (cells : Nat) : List K :=
  ((List.range cells).flatMap fun k => (List.range (cell.size - 1)).map (cellSample cell k)) ++
    [cellSign (cells - 1) * cell.sample (cell.size - 1 : Nat)]

/-- Each cell brings one sample for each of its steps, and one more ends the row. -/
theorem length_rowSamples (cell : Profile K) (cells : Nat) :
    (rowSamples cell cells).length = (cell.size - 1) * cells + 1 := by
  simp only [rowSamples, List.length_append, List.length_flatMap, List.length_map, List.length_range,
    List.map_const', List.sum_replicate_nat, List.length_singleton, Nat.mul_comm]

/-- The profile that a particle sees. A short gap becomes one step that holds the effective field at
the entrance velocity. A count of cells that index arithmetic cannot follow is refused. -/
def profileFor (model : FieldModel K) (probe : Probe K) : Except (Fault K) (Profile K) :=
  match model with
  | sampled profile => .ok profile
  | transitFit fit => Profile.uniform fit.length #[fit.factor probe.beta, 0]
  | multiCell cell cells =>
    let count := (cell.size - 1) * cells + 1
    if cells = 0 then .error .indexRange
    else
      (Index.ofCount Index.numberSize count).bind fun _ =>
        Profile.uniform (multiCell cell cells).length (rowSamples cell cells).toArray

end FieldModel

end BeamOptics
