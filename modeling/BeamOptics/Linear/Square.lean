import BeamOptics.Linear.Elimination

/-!
Square matrices whose dimension is known only when the program runs.

Each operation checks dimensions and hands on to the one on matrices of a fixed dimension; a fault
names this matrix's dimension as expected.
-/

namespace BeamOptics

structure Square (K : Type) where
  dim : Nat
  mat : Mat K dim

namespace Square

variable {K : Type}

def withSameDim {α : Type} (A B : Square K) (f : Mat K A.dim → Mat K A.dim → α) :
    Except (Fault K) α :=
  if h : B.dim = A.dim then .ok (f A.mat (h ▸ B.mat)) else .error (.dimension A.dim B.dim)

def toMat (A : Square K) (n : Nat) : Except (Fault K) (Mat K n) :=
  if h : A.dim = n then .ok (h ▸ A.mat) else .error (.dimension n A.dim)

def get? (A : Square K) (i j : Nat) : Option K := A.mat.get? i j

def set (A : Square K) (i j : Nat) (x : K) : Except (Fault K) (Square K) :=
  (A.mat.set i j x).map (⟨A.dim, ·⟩)

def transpose (A : Square K) : Square K := ⟨A.dim, A.mat.transpose⟩

variable [Scalar K]

def zeros (n : Nat) : Square K := ⟨n, .zero n⟩

def identity (n : Nat) : Square K := ⟨n, .identity n⟩

def zeros? (n : Nat) : Except (Fault K) (Square K) :=
  (Index.ofCount Index.numberSize (n * n)).map fun _ => zeros n

def identity? (n : Nat) : Except (Fault K) (Square K) :=
  (Index.ofCount Index.numberSize (n * n)).map fun _ => identity n

def ofRows (rows : List (Vec K)) : Except (Fault K) (Square K) :=
  match rows.find? (·.dim ≠ rows.length) with
  | some row => .error (.dimension rows.length row.dim)
  | none => .ok ⟨rows.length, .ofFn fun i j => rows[i].toList.getD j 0⟩

/-- The matrix with the given columns, if each has as many components as there are columns. -/
def ofColumns (columns : List (Vec K)) : Except (Fault K) (Square K) :=
  (ofRows columns).map transpose

def add (A B : Square K) : Except (Fault K) (Square K) :=
  A.withSameDim B fun a b => ⟨A.dim, a + b⟩

def sub (A B : Square K) : Except (Fault K) (Square K) :=
  A.withSameDim B fun a b => ⟨A.dim, a - b⟩

def mul (A B : Square K) : Except (Fault K) (Square K) :=
  A.withSameDim B fun a b => ⟨A.dim, a * b⟩

def scale (A : Square K) (factor : K) : Square K := ⟨A.dim, A.mat.scale factor⟩

def mulVec (A : Square K) (v : Vec K) : Except (Fault K) (Vec K) :=
  (v.toVector A.dim).map fun x => ⟨(A.mat.mulVec x).toList⟩

def trace (A : Square K) : K := A.mat.trace

def frobenius (A : Square K) : K := A.mat.frobenius

def determinant (A : Square K) : K := A.mat.determinant

def inverse (A : Square K) : Except (Fault K) (Square K) := A.mat.inverse.map (⟨A.dim, ·⟩)

def solve (A : Square K) (b : Vec K) : Except (Fault K) (Vec K) := do
  let x ← A.mat.solve (← b.toVector A.dim)
  return ⟨x.toList⟩

def solveMat (A B : Square K) : Except (Fault K) (Square K) := do
  let x ← (← A.withSameDim B fun a b => a.solveMat b)
  return ⟨A.dim, x⟩

def isNear (A B : Square K) (tol : K) : Bool :=
  if h : B.dim = A.dim then A.mat.isNear (h ▸ B.mat) tol else false

end Square

end BeamOptics
