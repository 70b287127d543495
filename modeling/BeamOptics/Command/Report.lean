import BeamOptics.Command.Quoted
import BeamOptics.Command.Reconstruction
import BeamOptics.Fault.Message

/-!
The lines of a report, and the text of what stopped it.

Lengths are written in metres and sizes in millimetres.
-/

namespace BeamOptics.Command

open Decimal

def alignedRight (width : Nat) (s : String) : String :=
  String.ofList (List.replicate (width - s.length) ' ' ++ s.toList)

def alignedLeft (width : Nat) (s : String) : String :=
  String.ofList (s.toList ++ List.replicate (width - s.length) ' ')

def ellipseLine (p : Plane) (t : Twiss Float) : String :=
  "  " ++ p.letter ++ ": alpha = " ++ withPlus t.alpha (fixed 4 t.alpha) ++ "  beta = "
    ++ fixed 4 t.beta ++ " m  emittance = " ++ scientific 4 t.emittance ++ " m rad"

def sizePair (c : Comparison Float) (p : Plane) : String :=
  let millimetres (x : Float) : String := fixed 4 (x * 1000)
  p.letter ++ " " ++ millimetres (c.predicted.get p) ++ "/" ++ millimetres (c.measured.get p)

def comparisonLine (c : Comparison Float) : String :=
  "  " ++ alignedLeft 10 c.location ++ " " ++ alignedRight 8 (fixed 3 c.position) ++ " m  "
    ++ "  ".intercalate (Plane.all.map (sizePair c)) ++ " mm"

def Entry.line? : Entry Float → Option String
  | .walk _ | .estimated .. => none
  | .seedTitle => some "Zero-current reconstruction:"
  | .chargedTitle => some "Space-charge reconstruction:"
  | .ellipse p t => some (ellipseLine p t)
  | .solved iterations alpha residual =>
    some ("Space-charge solve: " ++ toString iterations ++ " iterations, alpha = " ++ fixed 3 alpha
      ++ ", residual = " ++ scientific 3 (residual.getD (0 / 0)))
  | .fitTitle => some "Envelope fit:"
  | .row c => some (comparisonLine c)

def faultText : Fault Float → String
  | .setup cause => "Configuration(" ++ quoted cause.text ++ ")"
  | .numeric cause => "NumericDomain(" ++ quoted cause.text ++ ")"
  | .dimension expected found =>
    "DimensionMismatch \x7b expected: " ++ toString expected ++ ", found: " ++ toString found
      ++ " \x7d"
  | .notConverged iterations step =>
    "ConvergenceFailure \x7b iterations: " ++ toString iterations ++ ", error: " ++ literal step
      ++ " \x7d"
  | .indexRange => "IndexRange"

def Failure.text : Failure Float → String
  | .usage => "usage: beamenv --field FILE --measurements FILE [options]"
  | .unreadable path => "cannot use the file " ++ path
  | .loneQuote path => "a cell of the file " ++ path ++ " is a lone quote"
  | .missingValues column => quoted ("column " ++ column ++ " has missing values")
  | .zeroField path => quoted ("field map " ++ path ++ " is identically zero")
  | .logFilter => "a directive of the log filter splits a character"
  | .fault f => faultText f

end BeamOptics.Command
