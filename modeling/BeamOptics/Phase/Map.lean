import BeamOptics.Linear.Block
import BeamOptics.Linear.Square

/-!
Affine maps of phase space.

A map is a seven-by-seven matrix on points whose last coordinate is one, so composition is the
matrix product: `M * N` acts as `N` and then as `M`. A homogeneous map has `0, …, 0, 1` as its last
row; products keep that row, and `homogenize` restores it after sums and multiples.
-/

namespace BeamOptics

abbrev PhaseMap (K : Type) := Mat K 7

structure Point (K : Type) where
  coordinates : Vector K 7
deriving DecidableEq, BEq, Repr

namespace PhaseMap

variable {K : Type}

def block (M : PhaseMap K) (p : Plane) : Block K :=
  ⟨M.entry p.position p.position, M.entry p.position p.slope,
    M.entry p.slope p.position, M.entry p.slope p.slope⟩

def setBlock (M : PhaseMap K) (p : Plane) (b : Block K) : PhaseMap K :=
  (((M.update p.position p.position b.a).update p.position p.slope b.b).update
    p.slope p.position b.c).update p.slope p.slope b.d

variable [Scalar K]

def identity : PhaseMap K := Mat.identity 7

def toOrigin : PhaseMap K := Mat.ofFn fun i j => if i = homogeneous ∧ j = homogeneous then 1 else 0

def displacement (shift : Vector K 6) : PhaseMap K :=
  Mat.ofFn fun i j =>
    if h : i.val < 6 ∧ j = homogeneous then shift.get ⟨i.val, h.1⟩ else if i = j then 1 else 0

def ofBlocks (b : Triple (Block K)) : PhaseMap K :=
  ⟨#v[#v[b.x.a, b.x.b, 0, 0, 0, 0, 0],
      #v[b.x.c, b.x.d, 0, 0, 0, 0, 0],
      #v[0, 0, b.y.a, b.y.b, 0, 0, 0],
      #v[0, 0, b.y.c, b.y.d, 0, 0, 0],
      #v[0, 0, 0, 0, b.z.a, b.z.b, 0],
      #v[0, 0, 0, 0, b.z.c, b.z.d, 0],
      #v[0, 0, 0, 0, 0, 0, 1]]⟩

/-- Free motion over a length: transverse positions advance with their slopes, and the longitudinal
one slips by the length over the square of the Lorentz factor. -/
def drift (length gamma : K) : PhaseMap K :=
  ofBlocks ⟨⟨1, length, 0, 1⟩, ⟨1, length, 0, 1⟩, ⟨1, length / (gamma * gamma), 0, 1⟩⟩

def homogenize (M : PhaseMap K) : PhaseMap K :=
  Mat.ofFn fun i j => if i = homogeneous then (if j = homogeneous then 1 else 0) else M.entry i j

def isHomogeneous (M : PhaseMap K) (tol : K) : Bool :=
  ((List.finRange 6).all fun j => Scalar.abs (M.entry homogeneous j.castSucc) ≤ tol)
    && Scalar.abs (M.entry homogeneous homogeneous - 1) ≤ tol

def conjugate (M S : PhaseMap K) : PhaseMap K := M * S * M.transpose

def apply (M : PhaseMap K) (p : Point K) : Point K := ⟨M.mulVec p.coordinates⟩

def ofSquare (A : Square K) : Except (Fault K) (PhaseMap K) := A.toMat 7

end PhaseMap

namespace Point

variable {K : Type} [Scalar K]

def ofCoordinates (c : Vector K 6) : Point K := ⟨c.push 1⟩

def origin : Point K := ofCoordinates (Vector.replicate 6 0)

def ofVec (v : Vec K) : Except (Fault K) (Point K) :=
  (v.toVector 7).map fun c => ⟨c.set 6 1⟩

def phaseCoordinates (p : Point K) : Vector K 6 := Vector.ofFn fun i => p.coordinates[i.castSucc]

end Point

end BeamOptics
