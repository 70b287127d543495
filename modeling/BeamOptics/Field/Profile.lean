import BeamOptics.Index
import BeamOptics.Scalar

/-!
The shape of an accelerating field along its axis, sampled at equal steps.

A profile carries the fact that its columns were accepted: two samples or more, as many positions,
all finite, positions increasing at steps that agree with the mean step. Outside the samples the
field is zero.
-/

namespace BeamOptics

namespace Profile

variable {K : Type} [Scalar K]

def meanStep (positions : Array K) : K :=
  (positions.getD (positions.size - 1) 0 - positions.getD 0 0) / Scalar.ofNat (positions.size - 1)

def stepTolerance : K := 1e-6

def stepFault? (positions : Array K) (i : Nat) : Option (SetupFault K) :=
  let spacing := meanStep positions
  let step := positions.getD (i + 1) 0 - positions.getD i 0
  if step ≤ 0 ∨ stepTolerance < Scalar.abs ((step - spacing) / spacing) then
    some (.profileNotUniform i step spacing)
  else none

def fault? (positions samples : Array K) : Option (SetupFault K) :=
  if positions.size ≠ samples.size then some (.profileColumns positions.size samples.size)
  else if samples.size < 2 then some .profileTooShort
  else if !(positions.all Scalar.isFinite && samples.all Scalar.isFinite) then
    some .profileNotFinite
  else if meanStep positions ≤ 0 then some .profileNotIncreasing
  else (List.range (positions.size - 1)).findSome? (stepFault? positions)

end Profile

structure Profile (K : Type) [Scalar K] where
  positions : Array K
  samples : Array K
  accepted : Profile.fault? positions samples = none

namespace Profile

variable {K : Type} [Scalar K]

def mk? (positions samples : Array K) : Except (Fault K) (Profile K) :=
  match h : fault? positions samples with
  | none => .ok ⟨positions, samples, h⟩
  | some cause => .error (.setup cause)

def uniform (length : K) (samples : Array K) : Except (Fault K) (Profile K) :=
  if !Scalar.isPositive length then .error (.setup (.fieldLength length))
  else if samples.size < 2 then .error (.setup .profileTooShort)
  else
    let n := samples.size
    mk? ((Array.range n).map fun i => length * Scalar.ofNat i / Scalar.ofNat (n - 1)) samples

def size (p : Profile K) : Nat := p.samples.size

def spacing (p : Profile K) : K := meanStep p.positions

def length (p : Profile K) : K := p.spacing * Scalar.ofNat (p.size - 1)

def sample (p : Profile K) (i : Int) : K := if i < 0 then 0 else p.samples.getD i.toNat 0

def slope (p : Profile K) (i : Int) : K := (p.sample (i + 1) - p.sample (i - 1)) / (2 * p.spacing)

/-- The central difference quotient at a machine integer, if both neighbours are machine integers.
-/
def derivative (p : Profile K) (i : Int) : Except (Fault K) K := do
  let _ ← Index.ofInt (i + 1)
  let _ ← Index.ofInt (i - 1)
  return p.slope i

/-- The sample nearest to a distance from the first one, halves away from it. -/
def indexOf (p : Profile K) (z : K) : Nat :=
  let raw := Scalar.round (z / p.spacing)
  if raw ≤ 0 || Scalar.isNaN raw then 0 else min (Scalar.toNat raw) (p.size - 1)

end Profile

end BeamOptics
