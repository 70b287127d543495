import BeamOptics.Beam.Covariance

/-!
Linear space charge.

A uniformly filled beam defocuses itself by `K / (2 σx (σx + σy))` horizontally, by the same with
`x` and `y` exchanged vertically, and by `Kₗ / σz²` along the line. The kicks of an element sit at
the centres of equal slices, and their number up to a point depends on that point alone.
-/

namespace BeamOptics

structure SpaceCharge (K : Type) where
  perveance : K
  longitudinalPerveance : K
  sliceLength : K
deriving DecidableEq, BEq, Repr

structure Slicing (K : Type) where
  count : Nat
  length : K
deriving DecidableEq, BEq, Repr

namespace Slicing

variable {K : Type} [Scalar K]

/-- The fewest slices that are no longer than `longest`, as far as they can be counted: where there
are more of them than indices, as many as there are indices are taken, and these are longer. -/
def of (element longest : K) : Slicing K :=
  let count := Index.saturate (Scalar.toNat (Scalar.maxNum (Scalar.ceil (element / longest)) 1))
  ⟨count, element / Scalar.ofNat count⟩

def center (s : Slicing K) (j : Nat) : K := (Scalar.ofNat j + 1 / 2) * s.length

def kicksUpTo (s : Slicing K) (z : K) : Nat :=
  -- kick `j` counts if its centre, `j + 1 / 2` slices behind the start, is not behind `z`
  min (Scalar.toNat (Scalar.maxNum (Scalar.floor (z / s.length + 1 / 2)) 0)) s.count

def kicksBetween (s : Slicing K) (start finish : K) : Nat :=
  s.kicksUpTo finish - s.kicksUpTo start

end Slicing

namespace SpaceCharge

variable {K : Type} [Scalar K]

def mk? (perveance longitudinal sliceLength : K) : Except (Fault K) (SpaceCharge K) :=
  let allowed (x : K) : Bool := decide (0 ≤ x) && Scalar.isFinite x
  if !allowed perveance || !allowed longitudinal then .error (.setup .perveance)
  else if !Scalar.isPositive sliceLength then .error (.setup (.sliceLength sliceLength))
  else .ok ⟨perveance, longitudinal, sliceLength⟩

/-- The local sizes of a beam, if all are positive. -/
def localSizes (beam : Covariance K) : Except (Fault K) (Triple K) :=
  let sizes : Triple K :=
    Triple.ofFn fun p => Scalar.sqrt (beam.matrix.entry p.position p.position)
  match Plane.all.find? fun p => !Scalar.isPositive (sizes.get p) with
  | some p => .error (.numeric (.beamSize p (sizes.get p)))
  | none => .ok sizes

def kick (model : SpaceCharge K) (beam : Covariance K) (length : K) :
    Except (Fault K) (PhaseMap K) := do
  let s ← localSizes beam
  let thin (strength : K) : Block K := ⟨1, 0, strength * length, 1⟩
  return PhaseMap.ofBlocks
    ⟨thin (model.perveance / (2 * s.x * (s.x + s.y))),
      thin (model.perveance / (2 * s.y * (s.x + s.y))),
      thin (model.longitudinalPerveance / (s.z * s.z))⟩

end SpaceCharge

end BeamOptics
