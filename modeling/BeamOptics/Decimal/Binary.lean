/-!
The exact value of a double, and its size as a power of ten.

A finite double is `significand * 2 ^ exponent`; every digit that this library writes is chosen by
exact arithmetic on these two integers.
-/

namespace BeamOptics.Decimal

def twoTo (k : Nat) : Nat := Nat.pow 2 k

def tenTo (k : Nat) : Nat := Nat.pow 10 k

def signBit : Nat := 9223372036854775808

def exponentBit : Nat := 4503599627370496

/-- The size of a finite double, `significand * 2 ^ exponent`. -/
structure Binary where
  significand : Nat
  exponent : Int
  -- the gap to the next smaller double is half the gap to the next larger one
  narrow : Bool
deriving DecidableEq, Repr

namespace Binary

def ofFloat (x : Float) : Binary :=
  let bits : Nat := x.toBits.toNat % signBit
  let fraction : Nat := bits % exponentBit
  let biased : Nat := bits / exponentBit
  -- subnormal doubles have no hidden bit
  if biased = 0 then ⟨fraction, -1074, false⟩
  else ⟨exponentBit + fraction, (biased : Int) - 1075, fraction = 0 && 1 < biased⟩

def scaled (b : Binary) (k : Int) : Nat × Nat :=
  (b.significand * twoTo b.exponent.toNat * tenTo k.toNat,
    twoTo (-b.exponent).toNat * tenTo (-k).toNat)

def isBelow (b : Binary) (k : Int) : Bool :=
  let (num, den) := b.scaled (-k)
  num < den

/-- The least `k` with the value below `10 ^ k`: the place of the decimal point before the first
digit. The binary size fixes it up to three candidates. -/
def point (b : Binary) : Int :=
  let guess := ((b.significand.log2 + b.exponent) * 30103).fdiv 100000
  if b.isBelow guess then guess
  else if b.isBelow (guess + 1) then guess + 1
  else guess + 2

end Binary

def isNegative (x : Float) : Bool := signBit ≤ x.toBits.toNat

/-- Two doubles in the order of their values, with `-0` before `0` and anything that is not a number
outside the finite ones, on the side of its sign. -/
def precedes (a b : Float) : Bool :=
  let key (x : Float) : Int :=
    let bits := x.toBits.toNat
    if bits < signBit then bits else (signBit : Int) - 1 - bits
  key a ≤ key b

def roundDiv (num den : Nat) : Nat :=
  let below := num / den
  let rest := 2 * (num % den)
  if rest < den then below
  else if den < rest then below + 1
  else below + below % 2

end BeamOptics.Decimal
