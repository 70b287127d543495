import BeamOptics.Scalar

/-!
The diagonal term of the longitudinal generator.

Both conventions depend only on the normalized momenta at the ends of a step, so the maps of
adjacent ranges compose.
-/

namespace BeamOptics

inductive LongitudinalFormula where
  | logRatio
  -- the expansion of the logarithm to second order in the relative change
  | quadratic
deriving DecidableEq, Repr

namespace LongitudinalFormula

def all : List LongitudinalFormula := [logRatio, quadratic]

def name : LongitudinalFormula → String
  | logRatio => "log-ratio"
  | quadratic => "quadratic"

def ofName? (s : String) : Option LongitudinalFormula := all.find? (·.name = s)

variable {K : Type} [Scalar K]

def diagonal (f : LongitudinalFormula) (start finish : K) : K :=
  match f with
  | logRatio => Scalar.log (start / finish)
  | quadratic =>
    let x := (finish - start) / start
    x / 2 * x - x

end LongitudinalFormula

end BeamOptics
