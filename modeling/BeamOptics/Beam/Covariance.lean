import BeamOptics.Beam.Twiss
import BeamOptics.Phase.Map

/-!
A beam by its second moments.

The upper left six-by-six part of a covariance holds the moments of the phase coordinates, the last
row and column hold the centroid, and the last diagonal entry is one. A map carries it along by
conjugation.
-/

namespace BeamOptics

structure Covariance (K : Type) where
  matrix : PhaseMap K
deriving DecidableEq, BEq, Repr

namespace Covariance

variable {K : Type}

def block (s : Covariance K) (p : Plane) : Block K := s.matrix.block p

def moments (s : Covariance K) (p : Plane) : Moments K :=
  let b := s.block p
  ⟨b.a, b.b, b.d⟩

def setMoments (s : Covariance K) (p : Plane) (m : Moments K) : Covariance K :=
  ⟨s.matrix.setBlock p m.block⟩

def phaseMoments (s : Covariance K) : Mat K 6 :=
  Mat.ofFn fun i j => s.matrix.entry i.castSucc j.castSucc

variable [Scalar K]

def zero : Covariance K := ⟨PhaseMap.toOrigin⟩

def ofMoments (m : Triple (Moments K)) : Covariance K := ⟨PhaseMap.ofBlocks (m.map Moments.block)⟩

def ofTwiss (t : Triple (Twiss K)) : Covariance K := ofMoments (t.map Twiss.moments)

def smallestNormal : K := 2.2250738585072014e-308

/-- Mirrored moments may differ by this part of the largest one. -/
def symmetryTolerance : K := 1e-12

def belowDiagonal : List (Fin 6 × Fin 6) :=
  (List.finRange 6).flatMap fun i => ((List.finRange 6).filter (· < i)).map fun j => (i, j)

/-- The beam of a matrix that is symmetric up to rounding and ends in one. -/
def ofMatrix (M : PhaseMap K) : Except (Fault K) (Covariance K) :=
  let s : Covariance K := ⟨M⟩
  -- a scale above zero, so that the zero matrix counts as symmetric
  let tol := symmetryTolerance * Scalar.maxNum s.phaseMoments.maxAbs smallestNormal
  let differs : Fin 6 × Fin 6 → Bool := fun (i, j) =>
    tol < Scalar.abs (s.phaseMoments.entry i j - s.phaseMoments.entry j i)
  match belowDiagonal.find? differs with
  | some (i, j) => .error (.setup (.asymmetricMoments i j))
  | none => if M.entry homogeneous homogeneous == 1 then .ok s else .error (.setup .momentScale)

/-- The root-mean-square size; a moment that is not positive reads as zero. -/
def rmsSize (s : Covariance K) (p : Plane) : K := Scalar.sqrt (Scalar.maxNum (s.block p).a 0)

def sizes (s : Covariance K) : Triple K := Triple.ofFn s.rmsSize

/-- The root of the determinant of the plane's block; one that is not positive reads as zero. -/
def emittance (s : Covariance K) (p : Plane) : K :=
  Scalar.sqrt (Scalar.maxNum (s.block p).det 0)

def twiss (s : Covariance K) (p : Plane) : Except (Fault K) (Twiss K) :=
  Twiss.ofMoments (s.moments p)

def propagate (s : Covariance K) (M : PhaseMap K) : Covariance K := ⟨M.conjugate s.matrix⟩

def relax (s t : Covariance K) (alpha : K) : Covariance K :=
  ⟨PhaseMap.homogenize (s.matrix.scale (1 - alpha) + t.matrix.scale alpha)⟩

def momentNorm (s : Covariance K) : K := s.phaseMoments.frobenius

/-- The distance from `s` to `t` relative to the norm of `t`, and as it is where `t` vanishes. -/
def relativeDistance (s t : Covariance K) : K :=
  let distance := (s.phaseMoments - t.phaseMoments).frobenius
  let norm := t.momentNorm
  if 0 < norm then distance / norm else distance

end Covariance

end BeamOptics
