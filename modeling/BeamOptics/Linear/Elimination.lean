import BeamOptics.Linear.Mat

/-!
Elimination with partial pivoting.

`Mat.eliminate` records one step for each column: the row that is brought to the top, the pivot, the
rest of that row, and the factors by which it is subtracted from the rows below. Determinant,
solutions and inverse are read off the record. A matrix whose smallest pivot is negligible beside
its largest entry is refused as singular.
-/

namespace BeamOptics

inductive Elimination (K : Type) : Nat → Type where
  | done : Elimination K 0
  -- Row `top` changes places with the first row. It holds `pivot` in the first column and `right`
  -- in the others, and `factors` times it is taken from the rows below.
  | step {n : Nat} (top : Fin (n + 1)) (pivot : K) (right factors : Vector K n)
      (rest : Elimination K n) : Elimination K (n + 1)

/-- The index that changes places with `i` when `top` and the first index are exchanged. -/
def exchange {n : Nat} (top i : Fin (n + 1)) : Fin (n + 1) :=
  if i = 0 then top else if i = top then 0 else i

namespace Mat

variable {K : Type} [Scalar K] {n : Nat}

def pivotRow (A : Mat K (n + 1)) : Fin (n + 1) :=
  Fin.foldl n
    (fun best i =>
      if Scalar.abs (A.entry best 0) < Scalar.abs (A.entry i.succ 0) then i.succ else best)
    0

def eliminate : {n : Nat} → Mat K n → Elimination K n
  | 0, _ => .done
  | n + 1, A =>
    let top := A.pivotRow
    let pivot := A.entry top 0
    if pivot == 0 then
      .step 0 (A.entry 0 0) (Vector.ofFn fun j => A.entry 0 j.succ) (Vector.ofFn fun _ => 0)
        (eliminate (ofFn fun i j => A.entry i.succ j.succ))
    else
      let right : Vector K n := Vector.ofFn fun j => A.entry top j.succ
      let factors : Vector K n := Vector.ofFn fun i => A.entry (exchange top i.succ) 0 * (1 / pivot)
      .step top pivot right factors
        (eliminate
          (ofFn fun i j => A.entry (exchange top i.succ) j.succ - right[j] * factors[i]))

end Mat

namespace Elimination

variable {K : Type} {n : Nat}

def pivots : {n : Nat} → Elimination K n → List K
  | 0, .done => []
  | _ + 1, .step _ pivot _ _ rest => pivot :: rest.pivots

def isOdd : {n : Nat} → Elimination K n → Bool
  | 0, .done => false
  | _ + 1, .step top _ _ _ rest => (top ≠ 0) ^^ rest.isOdd

variable [Scalar K]

def determinant (e : Elimination K n) : K :=
  e.pivots.foldl (· * ·) 1 * if e.isOdd then -1 else 1

def smallestPivot (e : Elimination K n) : K :=
  match e.pivots with
  | [] => 0
  | p :: ps => ps.foldl (fun acc q => Scalar.minNum acc (Scalar.abs q)) (Scalar.abs p)

/-- The solution for a right-hand side: its rows are exchanged and reduced on the way down, and the
unknowns follow from the last to the first. -/
def solve : {n : Nat} → Elimination K n → Vector K n → Vector K n
  | 0, .done, _ => Vector.ofFn fun i => i.elim0
  | n + 1, .step top pivot right factors rest, b =>
    let first := b[top]
    let below : Vector K n :=
      Vector.ofFn fun i => b[exchange top i.succ] - first * factors[i]
    let others := rest.solve below
    let x := Fin.foldr n (fun k acc => acc - others[k] * right[k]) first / pivot
    Vector.ofFn (Fin.cases x fun i => others[i])

def solveMat (e : Elimination K n) (B : Mat K n) : Mat K n :=
  .ofColumns (Vector.ofFn fun j => e.solve (B.column j))

end Elimination

namespace Mat

variable {K : Type} [Scalar K] {n : Nat}

/-- A pivot that is no larger than this, relative to the largest entry, counts as zero. -/
def negligiblePivot : K := 1e-13

def factorize (A : Mat K n) : Except (Fault K) (Elimination K n) :=
  let scale := A.maxAbs
  if n = 0 || scale == 0 || !Scalar.isFinite scale then .error (.numeric .unusableMatrix)
  else
    let e := A.eliminate
    if e.smallestPivot ≤ negligiblePivot * scale then
      .error (.numeric (.singularMatrix n e.smallestPivot))
    else .ok e

def determinant (A : Mat K n) : K := if n = 0 then 1 else A.eliminate.determinant

def solve (A : Mat K n) (b : Vector K n) : Except (Fault K) (Vector K n) :=
  A.factorize.map (·.solve b)

def solveMat (A B : Mat K n) : Except (Fault K) (Mat K n) := A.factorize.map (·.solveMat B)

def inverse (A : Mat K n) : Except (Fault K) (Mat K n) := A.solveMat (identity n)

end Mat

end BeamOptics
