import BeamOptics.Linear.Square

/-!
The latest increments of a recursion and the relaxation factor that they suggest.

A history keeps pairs of an increment of the argument and the increment of the recursion that
belongs to it. Once it is full, a secant estimate `J` of the derivative follows from the pairs, and
the candidate is `|tr (1 - J)| / ‖1 - J‖`.
-/

namespace BeamOptics

structure History (K : Type) where
  capacity : Nat
  -- each increment of an argument with the one of its recursion
  increments : List (Vec K × Vec K)
deriving DecidableEq, BEq, Repr

namespace History

variable {K : Type}

def empty (capacity : Nat) : History K := ⟨capacity, []⟩

def incrementSize : Nat := 48

def ofCapacity (capacity : Nat) : Except (Fault K) (History K) :=
  (Index.ofCount incrementSize capacity).map empty

def size (h : History K) : Nat := h.increments.length

/-- There are exactly as many pairs as the capacity says. -/
def isFull (h : History K) : Bool := h.size = h.capacity

def push (h : History K) (argument recursion : Vec K) : History K :=
  let kept := if h.isFull then h.increments.drop 1 else h.increments
  { h with increments := kept ++ [(argument, recursion)] }

def clear (h : History K) : History K := { h with increments := [] }

def arguments (h : History K) : List (Vec K) := h.increments.map (·.1)

def recursions (h : History K) : List (Vec K) := h.increments.map (·.2)

variable [Scalar K]

/-- The absolute determinant of the argument's increments, relative to the product of their lengths:
one for orthogonal increments and zero for dependent ones. -/
def normalizedDeterminant (h : History K) : Except (Fault K) K := do
  let arguments ← Square.ofColumns h.arguments
  let scale := (h.arguments.map Vec.normTwo).foldl (· * ·) 1
  return if scale == 0 || !Scalar.isFinite scale then 0
    else Scalar.abs arguments.determinant / scale

/-- The residual operator `1 - J`, transposed: `J` maps the argument's increments to the
recursion's. -/
def secantResidual (h : History K) : Except (Fault K) (Square K) := do
  let arguments ← Square.ofColumns h.arguments
  let recursions ← Square.ofColumns h.recursions
  let jacobian ← arguments.transpose.solveMat recursions.transpose
  (Square.identity h.capacity).sub jacobian

/-- The relaxation factor that a full history suggests, unless its increments are nearly dependent
or the residual operator vanishes. -/
def candidate (h : History K) (rankTolerance : K) : Except (Fault K) (Option K) := do
  if !h.isFull then return none
  let normalized ← h.normalizedDeterminant
  if normalized < rankTolerance then throw (.numeric (.rankDeficient normalized))
  let r ← h.secantResidual
  let norm := r.frobenius
  if Scalar.isPositive norm then return some (Scalar.abs r.trace / norm)
  throw (.numeric .vanishingSecant)

end History

abbrev Histories (K : Type) := Triple (History K)

namespace Histories

variable {K : Type}

def empty (capacity : Nat) : Histories K := Triple.ofFn fun _ => .empty capacity

def ofCapacity (capacity : Nat) : Except (Fault K) (Histories K) :=
  (History.ofCapacity capacity).map fun h => Triple.ofFn fun _ => h

def record (h : Histories K) (p : Plane) (argument recursion : Vec K) : Histories K :=
  Triple.ofFn fun q => if q = p then (h.get q).push argument recursion else h.get q

def clear (h : Histories K) : Histories K := h.map History.clear

def candidates [Scalar K] (h : Histories K) (rankTolerance : K) :
    Triple (Except (Fault K) (Option K)) :=
  h.map (·.candidate rankTolerance)

end Histories

structure PlaneHistories (K : Type) (capacity : Nat) where
  planes : Histories K
  capacities : ∀ p, (planes.get p).capacity = capacity

namespace PlaneHistories

variable {K : Type} {capacity : Nat}

def empty (capacity : Nat) : PlaneHistories K capacity where
  planes := .empty capacity
  capacities p := by
    rw [Histories.empty, Triple.get_ofFn]
    rfl

def clear (h : PlaneHistories K capacity) : PlaneHistories K capacity where
  planes := h.planes.clear
  capacities p := by
    rw [Histories.clear, Triple.get_map]
    exact h.capacities p

/-- Cleared histories are those that were never pushed to. -/
theorem clear_eq_empty (h : PlaneHistories K capacity) : h.clear = empty capacity := by
  have hplanes : h.planes.clear = .empty capacity := by
    apply Triple.ext_get
    intro p
    rw [Histories.clear, Histories.empty, Triple.get_map, Triple.get_ofFn, History.clear,
      h.capacities]
    rfl
  unfold clear empty
  congr

end PlaneHistories

end BeamOptics
