import BeamOptics.Index
import BeamOptics.Scalar

/-!
Vectors whose dimension is known only when the program runs.

Operations on two vectors check that the dimensions agree; the fault names the first one's as
expected and the second one's as found.
-/

namespace BeamOptics

structure Vec (K : Type) where
  toList : List K
deriving DecidableEq, BEq, Repr

namespace Vec

variable {K : Type}

def dim (v : Vec K) : Nat := v.toList.length

def get? (v : Vec K) (i : Nat) : Option K := v.toList[i]?

/-- Component `i` replaced; past the end, the smallest dimension that would hold it is reported. -/
def set (v : Vec K) (i : Nat) (x : K) : Except (Fault K) (Vec K) :=
  if i < v.dim then .ok ⟨v.toList.set i x⟩
  else (Index.ofNat (i + 1)).bind fun found => .error (.dimension v.dim found)

def withSameDim {α : Type} (v w : Vec K) (f : List K → List K → α) : Except (Fault K) α :=
  if v.dim = w.dim then .ok (f v.toList w.toList) else .error (.dimension v.dim w.dim)

variable [Scalar K]

def zeros (n : Nat) : Vec K := ⟨List.replicate n 0⟩

def zeros? (n : Nat) : Except (Fault K) (Vec K) := (Index.ofCount Index.numberSize n).map zeros

def toVector (v : Vec K) (n : Nat) : Except (Fault K) (Vector K n) :=
  if v.dim = n then .ok (Vector.ofFn fun i => v.toList.getD i 0) else .error (.dimension n v.dim)

def add (v w : Vec K) : Except (Fault K) (Vec K) :=
  v.withSameDim w fun xs ys => ⟨List.zipWith (· + ·) xs ys⟩

def sub (v w : Vec K) : Except (Fault K) (Vec K) :=
  v.withSameDim w fun xs ys => ⟨List.zipWith (· - ·) xs ys⟩

def scale (v : Vec K) (factor : K) : Vec K := ⟨v.toList.map (· * factor)⟩

def dot (v w : Vec K) : Except (Fault K) K :=
  v.withSameDim w fun xs ys => Scalar.sumInLanes (List.zipWith (· * ·) xs ys)

def normOne (v : Vec K) : K := Scalar.sum (v.toList.map Scalar.abs)

def normTwo (v : Vec K) : K := Scalar.sqrt (Scalar.sumInLanes (v.toList.map Scalar.square))

def normMax (v : Vec K) : K := Scalar.maxAbs v.toList

def isNear (v w : Vec K) (tol : K) : Bool :=
  v.dim = w.dim && (v.toList.zip w.toList).all fun (a, b) => Scalar.abs (a - b) ≤ tol

end Vec

end BeamOptics
