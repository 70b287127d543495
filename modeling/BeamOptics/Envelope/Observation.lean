import BeamOptics.Envelope.Fit

/-!
The beam that fits its readings best through given maps.

Behind a map whose plane block has first row `a, b`, the mean square position is
`a² s₁₁ + 2 a b s₁₂ + b² s₂₂`. In each plane the readings give one such equation each, and the
moments solve their normal equations.
-/

namespace BeamOptics.Observation

variable {K : Type} [Scalar K]

def row (M : PhaseMap K) (p : Plane) : Vector K 3 :=
  let b := M.block p
  #v[b.a * b.a, 2 * b.a * b.b, b.b * b.b]

def equations (maps : List (PhaseMap K)) (readings : List (Reading K)) (p : Plane) :
    List (Vector K 3 × K) :=
  (maps.map (row · p)).zip (readings.map (·.sizes.get p))

def normalMatrix (eqs : List (Vector K 3 × K)) : Mat K 3 :=
  Mat.ofFn fun i j => Scalar.sum (eqs.map fun (r, _) => r[i] * r[j])

def normalRhs (eqs : List (Vector K 3 × K)) : Vector K 3 :=
  Vector.ofFn fun i => Scalar.sum (eqs.map fun (r, size) => r[i] * size * size)

def planeMoments (maps : List (PhaseMap K)) (readings : List (Reading K)) (p : Plane) :
    Except (Fault K) (Moments K) :=
  let eqs := equations maps readings p
  match (normalMatrix eqs).solve (normalRhs eqs) with
  | .ok m => .ok ⟨m[0], m[1], m[2]⟩
  | .error _ => .error (.numeric (.unobservable p))

def observe (maps : List (PhaseMap K)) (readings : List (Reading K)) :
    Except (Fault K) (Covariance K) := do
  if maps.length ≠ readings.length then throw (.dimension readings.length maps.length)
  let x ← planeMoments maps readings .horizontal
  let y ← planeMoments maps readings .vertical
  let z ← planeMoments maps readings .longitudinal
  return Covariance.ofMoments ⟨x, y, z⟩

/-- The beam that fits a checked set of readings best through maps that do not depend on it. -/
def zeroCurrent (maps : List (PhaseMap K)) (readings : List (Reading K)) :
    Except (Fault K) (Covariance K) := do
  Reading.check readings
  observe maps readings

end BeamOptics.Observation
