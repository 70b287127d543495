import BeamOptics.Beam.Covariance
import BeamOptics.Envelope.Reading

/-!
How well a beam explains its readings.
-/

namespace BeamOptics

structure Comparison (K : Type) where
  location : String
  position : K
  predicted : Triple K
  measured : Triple K
deriving DecidableEq, BEq, Repr

namespace Comparison

variable {K : Type} [Scalar K]

def deviation (c : Comparison K) : Triple K :=
  Triple.ofFn fun p => (c.predicted.get p - c.measured.get p) / c.measured.get p

end Comparison

namespace Covariance

variable {K : Type} [Scalar K]

def envelope (beam : Covariance K) (maps : List (PhaseMap K)) : List (Triple K) :=
  maps.map fun M => (beam.propagate M).sizes

def compare (beam : Covariance K) (maps : List (PhaseMap K)) (readings : List (Reading K)) :
    Except (Fault K) (List (Comparison K)) :=
  if maps.length ≠ readings.length then .error (.dimension readings.length maps.length)
  else .ok <| ((beam.envelope maps).zip readings).map fun (predicted, r) =>
    ⟨r.location, r.position, predicted, r.sizes⟩

/-- The root mean square of the relative deviations over all readings and planes, zero for none. -/
def residual (beam : Covariance K) (maps : List (PhaseMap K)) (readings : List (Reading K)) :
    Except (Fault K) K := do
  let rows ← beam.compare maps readings
  if rows.isEmpty then return 0
  let squares := rows.flatMap fun c => c.deviation.toList.map Scalar.square
  return Scalar.sqrt (Scalar.sum squares / Scalar.ofNat (3 * rows.length))

/-- The readings that a beam would give at each position; the places are numbered from one. -/
def synthesize (beam : Covariance K) (maps : List (PhaseMap K)) (positions : List K) :
    Except (Fault K) (List (Reading K)) :=
  if maps.length ≠ positions.length then .error (.dimension positions.length maps.length)
  else (((beam.envelope maps).zip positions).zipIdx 1).mapM fun ((sizes, position), i) =>
    Reading.mk? ("M" ++ toString i) position sizes

end Covariance

end BeamOptics
