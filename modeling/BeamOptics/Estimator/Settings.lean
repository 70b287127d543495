import BeamOptics.Fault
import BeamOptics.Scalar

/-!
The controls of the fixed-point iteration.
-/

namespace BeamOptics

structure Settings (K : Type) where
  maxIterations : Nat
  tolerance : K
  relaxationFloor : K
  rankTolerance : K
deriving DecidableEq, BEq, Repr

namespace Settings

variable {K : Type} [Scalar K]

def standard : Settings K := ⟨100, 1e-10, 0.5, 1e-8⟩

instance : Inhabited (Settings K) := ⟨standard⟩

def fault? (s : Settings K) : Option (SetupFault K) :=
  if s.maxIterations = 0 then some .iterationCap
  else if !Scalar.isPositive s.tolerance then some (.tolerance s.tolerance)
  else if !(decide (0 < s.relaxationFloor) && decide (s.relaxationFloor ≤ 2)) then
    some (.relaxationFloor s.relaxationFloor)
  else if !(decide (0 ≤ s.rankTolerance) && decide (s.rankTolerance < 1)) then
    some (.rankTolerance s.rankTolerance)
  else none

def check (s : Settings K) : Except (Fault K) Unit :=
  match s.fault? with
  | some cause => .error (.setup cause)
  | none => .ok ()

end Settings

end BeamOptics
