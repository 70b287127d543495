import BeamOptics.Decimal.Binary

/-!
The numbers that the formulas of this library are written over.

`Scalar K` lists the operations that the formulas use and none of their laws, so that one definition
runs over `Float` and is reasoned about over an exact field. Comparisons are the carrier's own:
where the carrier has a value that is not a number, every comparison with it is false.
-/

namespace BeamOptics

/-- A number type with a decidable order, elementary functions and rounding. -/
class Scalar (K : Type) extends Add K, Sub K, Mul K, Div K, Neg K, LT K, LE K, BEq K where
  decLt : DecidableLT K
  decLe : DecidableLE K
  -- rounded if the carrier is inexact
  ofNat : Nat → K
  -- the decimal with digits `m` and exponent `e`, negative when the flag is set
  ofScientific : (m : Nat) → (negative : Bool) → (e : Nat) → K
  sqrt : K → K
  exp : K → K
  log : K → K
  sin : K → K
  cos : K → K
  sinh : K → K
  cosh : K → K
  pi : K
  abs : K → K
  -- in both, a value that is not a number gives way to the other one
  maxNum : K → K → K
  minNum : K → K → K
  floor : K → K
  ceil : K → K
  -- halves away from zero
  round : K → K
  -- the whole part; zero below zero, and for a value that is not a number
  toNat : K → Nat
  isFinite : K → Bool
  isNaN : K → Bool
  -- a total order that refines `≤`, for sorting
  precedes : K → K → Bool

namespace Scalar

variable {K : Type} [Scalar K]

instance (priority := low) : DecidableLT K := Scalar.decLt

instance (priority := low) : DecidableLE K := Scalar.decLe

instance (priority := low) (n : Nat) : OfNat K n := ⟨Scalar.ofNat n⟩

instance (priority := low) : OfScientific K := ⟨Scalar.ofScientific⟩

@[inline] def square (x : K) : K := x * x

/-- The largest absolute value of a list, zero for none; values that are not numbers are passed
over. -/
def maxAbs (xs : List K) : K := xs.foldl (fun acc x => maxNum acc (abs x)) 0

def sum (xs : List K) : K := xs.foldl (· + ·) 0

/-- The sum of a list on top of eight sums: as long as eight numbers are left, each goes to a sum of
its own. Then the sums are taken two by two, four apart, and what is left is added. -/
def addLanes (a b c d e f g h : K) : List K → K
  | s :: t :: u :: v :: w :: x :: y :: z :: xs =>
    addLanes (a + s) (b + t) (c + u) (d + v) (e + w) (f + x) (g + y) (h + z) xs
  | xs => xs.foldl (· + ·) (0 + (a + e) + (b + f) + (c + g) + (d + h))

/-- The sum of a list. Long lists are added in eight lanes, which matters where partial sums leave
the carrier's range. -/
def sumInLanes (xs : List K) : K :=
  if xs.length < 8 then sum xs else addLanes 0 0 0 0 0 0 0 0 xs

@[inline] def isPositive (x : K) : Bool := decide (0 < x) && isFinite x

def radians (degrees : K) : K := degrees * (pi / 180)

end Scalar

instance : Scalar Float where
  decLt := inferInstance
  decLe := inferInstance
  ofNat := Float.ofNat
  ofScientific := Float.ofScientific
  sqrt := Float.sqrt
  exp := Float.exp
  log := Float.log
  sin := Float.sin
  cos := Float.cos
  sinh := Float.sinh
  cosh := Float.cosh
  pi := 3.141592653589793
  abs := Float.abs
  maxNum a b := if a.isNaN then b else if b.isNaN then a else if a < b then b else a
  minNum a b := if a.isNaN then b else if b.isNaN then a else if b < a then b else a
  floor := Float.floor
  ceil := Float.ceil
  round := Float.round
  toNat x := x.toUInt64.toNat
  isFinite := Float.isFinite
  isNaN := Float.isNaN
  precedes := Decimal.precedes

end BeamOptics
