import BeamOptics.Decimal.Text
import BeamOptics.Fault

/-!
The wording of faults.

A message names the fault's family and then its cause; numbers are written so that they read back.
-/

namespace BeamOptics

open Decimal

def SetupFault.text : SetupFault Float → String
  | .twissShape a b => "invalid Twiss alpha/beta (" ++ plain a ++ ", " ++ plain b ++ ")"
  | .emittance e => "emittance must be positive, got " ++ plain e
  | .asymmetricMoments i j =>
    "moment matrix is not symmetric at (" ++ toString i ++ ", " ++ toString j ++ ")"
  | .momentScale => "moment matrix must have a homogeneous diagonal of 1"
  | .kineticEnergy w => "probe kinetic energy must be positive, got " ++ plain w
  | .restEnergy w => "probe rest energy must be positive, got " ++ plain w
  | .charge => "probe charge must be finite"
  | .profileColumns p s =>
    "field profile has " ++ toString p ++ " positions but " ++ toString s ++ " samples"
  | .profileTooShort => "field profile needs at least two samples"
  | .profileNotFinite => "field profile contains non-finite values"
  | .profileNotIncreasing => "field profile positions must increase"
  | .profileNotUniform i step spacing =>
    "field profile spacing is not uniform at sample " ++ toString i ++ " (" ++ plain step ++ " vs "
      ++ plain spacing ++ ")"
  | .fieldLength l => "field length must be positive, got " ++ plain l
  | .frequency f => "RF frequency must be positive, got " ++ plain f
  | .driveNotFinite => "RF amplitude and phase must be finite"
  | .gapLength l => "gap length must be positive, got " ++ plain l
  | .transitCoefficients => "transit-time fit needs finite coefficients"
  | .noCells => "multi-cell field needs at least one cell"
  | .perveance => "perveances must be finite and non-negative"
  | .sliceLength l => "space-charge slice length must be positive, got " ++ plain l
  | .emptyLine => "beam line has no elements"
  | .elementLength i l => "element " ++ toString i ++ " has non-positive length " ++ plain l
  | .positionOutside p total =>
    "position " ++ plain p ++ " lies outside the beam line [0, " ++ plain total ++ "]"
  | .positionOrder => "positions must be in ascending order"
  | .readingPosition at_ => "measurement " ++ at_ ++ " has a non-finite position"
  | .readingSizes at_ s =>
    "measurement " ++ at_ ++ " needs positive finite RMS sizes, got [" ++ literal s.x ++ ", "
      ++ literal s.y ++ ", " ++ literal s.z ++ "]"
  | .tooFewReadings n => "need at least 3 envelope measurements, got " ++ toString n
  | .iterationCap => "max_iterations must be at least 1"
  | .tolerance t => "tolerance must be positive, got " ++ plain t
  | .relaxationFloor a => "default_alpha must lie in (0, 2], got " ++ plain a
  | .rankTolerance r => "rank_tolerance must lie in [0, 1), got " ++ plain r
  | .solverText => "invalid solver config"
  | .document => "invalid json"
  | .reported text => text

def NumericFault.text : NumericFault Float → String
  | .unusableMatrix => "matrix is zero, empty or non-finite"
  | .singularMatrix n pivot =>
    "singular " ++ toString n ++ "x" ++ toString n ++ " matrix (pivot " ++ exponential pivot ++ ")"
  | .moments s11 s12 s22 =>
    "moments (" ++ exponential s11 ++ ", " ++ exponential s12 ++ ", " ++ exponential s22
      ++ ") are not positive definite"
  | .rankDeficient d =>
    "increment history is rank deficient (normalized determinant " ++ exponential d ++ ")"
  | .vanishingSecant => "secant residual operator vanishes"
  | .beamSize p s =>
    "non-physical " ++ p.letter ++ " beam size " ++ plain s ++ " in space-charge kick"
  | .unobservable p => "observation matrix of plane " ++ p.letter ++ " is singular"
  | .reported text => text

def Fault.message : Fault Float → String
  | .setup cause => "configuration error: " ++ cause.text
  | .dimension expected found =>
    "dimension mismatch: expected " ++ toString expected ++ ", found " ++ toString found
  | .numeric cause => "numeric domain error: " ++ cause.text
  | .notConverged n step =>
    "no convergence after " ++ toString n ++ " iterations (convergence error " ++ exponential step
      ++ ")"
  | .indexRange => "index outside the machine range"

end BeamOptics
