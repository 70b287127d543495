import BeamOptics.Plane

/-!
What can go wrong, by cause.

Faults found while something is set up form one family, faults of the numbers themselves another; a
mismatch of dimensions counts with the first, and neither a run that does not converge nor an index
outside the machine's range belongs to either.
-/

namespace BeamOptics

/-- Faults of a description: something given is missing, out of range or malformed. -/
inductive SetupFault (K : Type) where
  | twissShape (alpha beta : K)
  | emittance (value : K)
  | asymmetricMoments (row col : Nat)
  | momentScale
  | kineticEnergy (value : K)
  | restEnergy (value : K)
  | charge
  | profileColumns (positions samples : Nat)
  | profileTooShort
  | profileNotFinite
  | profileNotIncreasing
  | profileNotUniform (index : Nat) (step spacing : K)
  | fieldLength (value : K)
  | frequency (value : K)
  | driveNotFinite
  | gapLength (value : K)
  | transitCoefficients
  | noCells
  | perveance
  | sliceLength (value : K)
  | emptyLine
  | elementLength (index : Nat) (value : K)
  | positionOutside (position total : K)
  | positionOrder
  | readingPosition (location : String)
  | readingSizes (location : String) (sizes : Triple K)
  | tooFewReadings (count : Nat)
  | iterationCap
  | tolerance (value : K)
  | relaxationFloor (value : K)
  | rankTolerance (value : K)
  | solverText
  | document
  -- a fault reported from outside, with its wording
  | reported (text : String)
deriving DecidableEq, Repr

inductive NumericFault (K : Type) where
  -- no entries, no entry but zero, or one that is not finite
  | unusableMatrix
  -- the smallest pivot is negligible beside the largest entry
  | singularMatrix (dim : Nat) (pivot : K)
  | moments (s11 s12 s22 : K)
  | rankDeficient (determinant : K)
  | vanishingSecant
  | beamSize (plane : Plane) (size : K)
  | unobservable (plane : Plane)
  | reported (text : String)
deriving DecidableEq, Repr

inductive Fault (K : Type) where
  | setup (cause : SetupFault K)
  | dimension (expected found : Nat)
  | numeric (cause : NumericFault K)
  -- the iteration cap and the last relative step
  | notConverged (iterations : Nat) (step : K)
  | indexRange
deriving DecidableEq, Repr

namespace Fault

def isSetup {K : Type} : Fault K → Bool
  | .setup _ | .dimension .. => true
  | _ => false

def isNumeric {K : Type} : Fault K → Bool
  | .numeric _ => true
  | _ => false

end Fault

end BeamOptics
