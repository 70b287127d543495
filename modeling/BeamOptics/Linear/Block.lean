import BeamOptics.Scalar

/-!
Two-by-two matrices and their exponential in closed form.

With `t` half the trace, the traceless part of a matrix squares to a quarter of the discriminant
`(a - d)² + 4 b c` times the identity, so the exponential series splits into hyperbolic, circular or
constant coefficients by the sign of the discriminant.
-/

namespace BeamOptics

/-- The matrix with rows `a, b` and `c, d`. -/
structure Block (K : Type) where
  a : K
  b : K
  c : K
  d : K
deriving DecidableEq, BEq, Repr

namespace Block

variable {K : Type} [Scalar K]

def identity : Block K := ⟨1, 0, 0, 1⟩

def zero : Block K := ⟨0, 0, 0, 0⟩

def mul (m n : Block K) : Block K :=
  ⟨m.a * n.a + m.b * n.c, m.a * n.b + m.b * n.d, m.c * n.a + m.d * n.c, m.c * n.b + m.d * n.d⟩

def add (m n : Block K) : Block K := ⟨m.a + n.a, m.b + n.b, m.c + n.c, m.d + n.d⟩

def scale (m : Block K) (k : K) : Block K := ⟨m.a * k, m.b * k, m.c * k, m.d * k⟩

def transpose (m : Block K) : Block K := ⟨m.a, m.c, m.b, m.d⟩

def det (m : Block K) : K := m.a * m.d - m.b * m.c

def trace (m : Block K) : K := m.a + m.d

instance : Mul (Block K) := ⟨mul⟩

instance : Add (Block K) := ⟨add⟩

def discriminant (m : Block K) : K := (m.a - m.d) * (m.a - m.d) + 4 * m.b * m.c

/-- The coefficients of the identity and of the traceless part in the exponential of the traceless
part. -/
def expCoefficients (m : Block K) : K × K :=
  let disc := m.discriminant
  if 0 < disc then
    let root := Scalar.sqrt disc
    (Scalar.cosh (root / 2), 2 * Scalar.sinh (root / 2) / root)
  else if disc < 0 then
    let root := Scalar.sqrt (-disc)
    (Scalar.cos (root / 2), 2 * Scalar.sin (root / 2) / root)
  else (1, 1)

def exp (m : Block K) : Block K :=
  let t := (m.a + m.d) / 2
  -- without its trace the block is `a - t, b, c, d - t`
  let (even, odd) := m.expCoefficients
  let growth := Scalar.exp t
  ⟨growth * (even + odd * (m.a - t)), growth * odd * m.b, growth * odd * m.c,
    growth * (even + odd * (m.d - t))⟩

def maxDiff (m n : Block K) : K :=
  Scalar.maxAbs [m.a - n.a, m.b - n.b, m.c - n.c, m.d - n.d]

end Block

end BeamOptics
