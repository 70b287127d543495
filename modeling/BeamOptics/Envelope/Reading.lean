import BeamOptics.Fault
import BeamOptics.Scalar

/-!
Measured beam sizes.
-/

namespace BeamOptics

structure Reading (K : Type) where
  location : String
  position : K
  sizes : Triple K
deriving DecidableEq, BEq, Repr

namespace Reading

variable {K : Type} [Scalar K]

/-- What is wrong with a reading: a position that is not finite, or a size that is not positive. -/
def fault? (r : Reading K) : Option (SetupFault K) :=
  if !Scalar.isFinite r.position then some (.readingPosition r.location)
  else if !r.sizes.toList.all Scalar.isPositive then some (.readingSizes r.location r.sizes)
  else none

def mk? (location : String) (position : K) (sizes : Triple K) : Except (Fault K) (Reading K) :=
  let r : Reading K := ⟨location, position, sizes⟩
  match r.fault? with
  | some cause => .error (.setup cause)
  | none => .ok r

def fewest : Nat := 3

/-- What is wrong with a set of readings: there are too few, or one of them is at fault. -/
def setFault? (rs : List (Reading K)) : Option (SetupFault K) :=
  if rs.length < fewest then some (.tooFewReadings rs.length) else rs.findSome? fault?

def check (rs : List (Reading K)) : Except (Fault K) Unit :=
  match setFault? rs with
  | some cause => .error (.setup cause)
  | none => .ok ()

end Reading

end BeamOptics
