import BeamOptics.Fault
import BeamOptics.Linear.Block
import BeamOptics.Linear.Vec

/-!
The beam in one plane, by its second moments or by its ellipse.

A positive definite moment triple and an ellipse with positive envelope function and emittance
describe the same beam; `moments` and `ofMoments` go from one to the other.
-/

namespace BeamOptics

structure Moments (K : Type) where
  s11 : K
  s12 : K
  s22 : K
deriving DecidableEq, BEq, Repr

structure Twiss (K : Type) where
  alpha : K
  beta : K
  emittance : K
deriving DecidableEq, BEq, Repr

namespace Moments

variable {K : Type}

def block (m : Moments K) : Block K := ⟨m.s11, m.s12, m.s12, m.s22⟩

def ofVec (v : Vec K) : Except (Fault K) (Moments K) :=
  match v.toList with
  | [s11, s12, s22] => .ok ⟨s11, s12, s22⟩
  | _ => .error (.dimension 3 v.dim)

end Moments

namespace Twiss

variable {K : Type} [Scalar K]

/-- Parameters of a beam: a finite correlation, a positive envelope function, a positive
emittance. -/
def mk? (alpha beta emittance : K) : Except (Fault K) (Twiss K) :=
  if !Scalar.isFinite alpha || !Scalar.isPositive beta then .error (.setup (.twissShape alpha beta))
  else if !Scalar.isPositive emittance then .error (.setup (.emittance emittance))
  else .ok ⟨alpha, beta, emittance⟩

def gamma (t : Twiss K) : K := (1 + t.alpha * t.alpha) / t.beta

def moments (t : Twiss K) : Moments K :=
  ⟨t.emittance * t.beta, -t.emittance * t.alpha, t.emittance * t.gamma⟩

def ofMoments (m : Moments K) : Except (Fault K) (Twiss K) :=
  let det := m.s11 * m.s22 - m.s12 * m.s12
  if 0 < m.s11 ∧ 0 < det then
    let emittance := Scalar.sqrt det
    .ok ⟨-m.s12 / emittance, m.s11 / emittance, emittance⟩
  else .error (.numeric (.moments m.s11 m.s12 m.s22))

end Twiss

end BeamOptics
