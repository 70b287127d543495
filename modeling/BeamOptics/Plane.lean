/-!
The three planes of motion and their coordinates.

Phase space is ordered `x, x', y, y', z, z', 1`: each plane has a position followed by its slope,
and the last coordinate is the constant one that lets a matrix carry a displacement.
-/

namespace BeamOptics

/-- The last coordinate, which is one at every point. -/
def homogeneous : Fin 7 := 6

inductive Plane where
  | horizontal
  | vertical
  | longitudinal
deriving DecidableEq, Repr

namespace Plane

def all : List Plane := [horizontal, vertical, longitudinal]

def index : Plane → Nat
  | horizontal => 0
  | vertical => 1
  | longitudinal => 2

def position : Plane → Fin 7
  | horizontal => 0
  | vertical => 2
  | longitudinal => 4

def slope : Plane → Fin 7
  | horizontal => 1
  | vertical => 3
  | longitudinal => 5

def letter : Plane → String
  | horizontal => "x"
  | vertical => "y"
  | longitudinal => "z"

def name : Plane → String
  | horizontal => "horizontal"
  | vertical => "vertical"
  | longitudinal => "longitudinal"

def ofName? (s : String) : Option Plane := all.find? (·.name = s)

theorem mem_all (p : Plane) : p ∈ all := by cases p <;> decide

end Plane

/-- One value for each plane. -/
structure Triple (α : Type) where
  x : α
  y : α
  z : α
deriving DecidableEq, BEq, Repr

namespace Triple

variable {α β : Type}

def get (t : Triple α) : Plane → α
  | .horizontal => t.x
  | .vertical => t.y
  | .longitudinal => t.z

def ofFn (f : Plane → α) : Triple α := ⟨f .horizontal, f .vertical, f .longitudinal⟩

def map (f : α → β) (t : Triple α) : Triple β := ⟨f t.x, f t.y, f t.z⟩

def toList (t : Triple α) : List α := [t.x, t.y, t.z]

@[simp] theorem get_ofFn (f : Plane → α) (p : Plane) : (ofFn f).get p = f p := by cases p <;> rfl

@[simp] theorem get_map (f : α → β) (t : Triple α) (p : Plane) : (t.map f).get p = f (t.get p) := by
  cases p <;> rfl

/-- Triples with the same values in all planes are equal. -/
theorem ext_get {s t : Triple α} (h : ∀ p, s.get p = t.get p) : s = t := by
  cases s; cases t
  simp only [mk.injEq]
  exact ⟨h .horizontal, h .vertical, h .longitudinal⟩

end Triple

end BeamOptics
