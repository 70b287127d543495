import BeamOptics.Fault
import BeamOptics.Scalar

/-!
The synchronous particle.

Energies are in electronvolts and charges in elementary charges.
-/

namespace BeamOptics

/-- The speed of light in metres per second. -/
def speedOfLight {K : Type} [Scalar K] : K := 299792458

inductive Species where
  | proton
  | hMinus
  | electron
deriving DecidableEq, Repr

namespace Species

def all : List Species := [proton, hMinus, electron]

def name : Species → String
  | proton => "proton"
  | hMinus => "h-minus"
  | electron => "electron"

def ofName? (s : String) : Option Species := all.find? (·.name = s)

variable {K : Type} [Scalar K]

def restEnergy : Species → K
  | proton => 938272088.16
  | hMinus => 939294000
  | electron => 510998.95

def charge : Species → K
  | proton => 1
  | hMinus => -1
  | electron => -1

end Species

namespace Relativity

variable {K : Type} [Scalar K]

@[inline] def gamma (kinetic rest : K) : K := 1 + kinetic / rest

@[inline] def beta (gamma : K) : K := Scalar.sqrt (Scalar.maxNum (1 - 1 / (gamma * gamma)) 0)

end Relativity

structure Probe (K : Type) where
  kineticEnergy : K
  restEnergy : K
  charge : K
deriving DecidableEq, BEq, Repr

namespace Probe

variable {K : Type} [Scalar K]

def mk? (kinetic rest charge : K) : Except (Fault K) (Probe K) :=
  if !Scalar.isPositive kinetic then .error (.setup (.kineticEnergy kinetic))
  else if !Scalar.isPositive rest then .error (.setup (.restEnergy rest))
  else if !Scalar.isFinite charge then .error (.setup .charge)
  else .ok ⟨kinetic, rest, charge⟩

def ofSpecies (s : Species) (kinetic : K) : Except (Fault K) (Probe K) :=
  mk? kinetic s.restEnergy s.charge

def gamma (p : Probe K) : K := Relativity.gamma p.kineticEnergy p.restEnergy

def beta (p : Probe K) : K := Relativity.beta p.gamma

def betaGamma (p : Probe K) : K := p.beta * p.gamma

def withKineticEnergy (p : Probe K) (kinetic : K) : Probe K := { p with kineticEnergy := kinetic }

end Probe

end BeamOptics
