import BeamOptics.Linear.Vec

/-!
Square matrices of a fixed dimension.

A matrix is stored by rows; `Mat.ofFn` builds one from its entries, and `entry_ofFn` is all that
later definitions need to know about the storage.
-/

namespace BeamOptics

structure Mat (K : Type) (n : Nat) where
  rows : Vector (Vector K n) n
deriving DecidableEq, BEq, Repr

namespace Mat

variable {K : Type} {n : Nat}

@[inline] def entry (A : Mat K n) (i j : Fin n) : K := A.rows[i][j]

@[inline] def ofFn (f : Fin n → Fin n → K) : Mat K n :=
  ⟨Vector.ofFn fun i => Vector.ofFn fun j => f i j⟩

@[simp] theorem entry_ofFn (f : Fin n → Fin n → K) (i j : Fin n) : (ofFn f).entry i j = f i j := by
  simp [entry, ofFn]

/-- Matrices with the same entries are equal. -/
theorem ext_entry {A B : Mat K n} (h : ∀ i j, A.entry i j = B.entry i j) : A = B := by
  cases A with | mk a =>
  cases B with | mk b =>
  congr 1
  apply Vector.ext
  intro i hi
  apply Vector.ext
  intro j hj
  exact h ⟨i, hi⟩ ⟨j, hj⟩

def get? (A : Mat K n) (i j : Nat) : Option K :=
  if h : i < n ∧ j < n then some (A.entry ⟨i, h.1⟩ ⟨j, h.2⟩) else none

def update (A : Mat K n) (i j : Fin n) (x : K) : Mat K n :=
  ofFn fun r c => if r = i ∧ c = j then x else A.entry r c

/-- One entry replaced; outside the matrix, the smallest dimension that would hold it is reported.
-/
def set (A : Mat K n) (i j : Nat) (x : K) : Except (Fault K) (Mat K n) :=
  if h : i < n ∧ j < n then .ok (A.update ⟨i, h.1⟩ ⟨j, h.2⟩ x)
  else (Index.ofNat (max i j + 1)).bind fun found => .error (.dimension n found)

def entries (A : Mat K n) : List K := A.rows.toList.flatMap Vector.toList

def column (A : Mat K n) (j : Fin n) : Vector K n := Vector.ofFn fun i => A.entry i j

def ofColumns (cols : Vector (Vector K n) n) : Mat K n := ofFn fun i j => cols[j][i]

def transpose (A : Mat K n) : Mat K n := ofFn fun i j => A.entry j i

@[simp] theorem entry_transpose (A : Mat K n) (i j : Fin n) :
    A.transpose.entry i j = A.entry j i := entry_ofFn ..

@[simp] theorem entry_update (A : Mat K n) (i j r c : Fin n) (x : K) :
    (A.update i j x).entry r c = if r = i ∧ c = j then x else A.entry r c := entry_ofFn ..

variable [Scalar K]

@[inline] def total (f : Fin n → K) : K := Fin.foldl n (fun acc k => acc + f k) 0

@[inline] def laneTotal (f : Fin n → K) : K :=
  if n < 8 then total f else Scalar.sumInLanes (List.ofFn f)

def zero (n : Nat) : Mat K n := ofFn fun _ _ => 0

def identity (n : Nat) : Mat K n := ofFn fun i j => if i = j then 1 else 0

def add (A B : Mat K n) : Mat K n := ofFn fun i j => A.entry i j + B.entry i j

def sub (A B : Mat K n) : Mat K n := ofFn fun i j => A.entry i j - B.entry i j

def mul (A B : Mat K n) : Mat K n := ofFn fun i j => total fun k => A.entry i k * B.entry k j

def scale (A : Mat K n) (factor : K) : Mat K n := ofFn fun i j => A.entry i j * factor

def mulVec (A : Mat K n) (v : Vector K n) : Vector K n :=
  Vector.ofFn fun i => laneTotal fun k => A.entry i k * v[k]

instance : Add (Mat K n) := ⟨add⟩

instance : Sub (Mat K n) := ⟨sub⟩

instance : Mul (Mat K n) := ⟨mul⟩

def trace (A : Mat K n) : K := total fun i => A.entry i i

def frobenius (A : Mat K n) : K := Scalar.sqrt (Scalar.sum (A.entries.map Scalar.square))

def maxAbs (A : Mat K n) : K := Scalar.maxAbs A.entries

def isNear (A B : Mat K n) (tol : K) : Bool :=
  (A.entries.zip B.entries).all fun (a, b) => Scalar.abs (a - b) ≤ tol

def maxDiff (A B : Mat K n) : K := (A - B).maxAbs

@[simp] theorem entry_identity (i j : Fin n) :
    (identity n : Mat K n).entry i j = if i = j then 1 else 0 := entry_ofFn ..

@[simp] theorem entry_zero (i j : Fin n) : (zero n : Mat K n).entry i j = 0 := entry_ofFn ..

@[simp] theorem entry_add (A B : Mat K n) (i j : Fin n) :
    (A + B).entry i j = A.entry i j + B.entry i j := entry_ofFn ..

@[simp] theorem entry_sub (A B : Mat K n) (i j : Fin n) :
    (A - B).entry i j = A.entry i j - B.entry i j := entry_ofFn ..

@[simp] theorem entry_scale (A : Mat K n) (k : K) (i j : Fin n) :
    (A.scale k).entry i j = A.entry i j * k := entry_ofFn ..

theorem entry_mul (A B : Mat K n) (i j : Fin n) :
    (A * B).entry i j = total fun k => A.entry i k * B.entry k j := entry_ofFn ..

end Mat

end BeamOptics
