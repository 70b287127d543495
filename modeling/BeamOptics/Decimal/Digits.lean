import BeamOptics.Decimal.Binary

/-!
Which decimal digits stand for a double: a set number of significant digits, a set number of places,
or the fewest digits that read back.
-/

namespace BeamOptics.Decimal

structure Digits where
  number : Nat
  point : Int
deriving DecidableEq, Repr

def Digits.chars (d : Digits) : List Char := Nat.toDigits 10 d.number

def Digits.zero : Digits := ⟨0, 1⟩

namespace Binary

def significant (b : Binary) (count : Nat) : Digits :=
  if b.significand = 0 then ⟨0, 1⟩
  else
    let k := b.point
    let (num, den) := b.scaled (count - k)
    let n := roundDiv num den
    -- rounding up may need one digit more
    if n = tenTo count then ⟨tenTo (count - 1), k + 1⟩ else ⟨n, k⟩

def inPlaces (b : Binary) (places : Nat) : Nat :=
  let (num, den) := b.scaled places
  roundDiv num den

/-- The decimal `n * 10 ^ s` lies among the reals whose nearest double is this one. Those form an
interval that reaches half way to both neighbours, its ends included when the significand is even.
-/
def readsBack (b : Binary) (n : Nat) (s : Int) : Bool :=
  let quarter := b.exponent - 2
  let value := n * tenTo s.toNat * twoTo (-quarter).toNat
  let bound (quarters : Nat) := quarters * twoTo quarter.toNat * tenTo (-s).toNat
  let low := bound (4 * b.significand - if b.narrow then 1 else 2)
  let high := bound (4 * b.significand + 2)
  if b.significand % 2 = 0 then low ≤ value && value ≤ high else low < value && value < high

/-- The decimal with `count` digits nearest to the value among those that read back; `tieUp` says
that of two equally near ones the larger is taken, otherwise the even one. -/
def nearest? (b : Binary) (tieUp : Bool) (count : Nat) : Option (Nat × Int) :=
  let s := b.point - count
  let (num, den) := b.scaled (-s)
  let low := num / den
  match b.readsBack low s, b.readsBack (low + 1) s with
  | false, false => none
  | true, false => some (low, s)
  | false, true => some (low + 1, s)
  | true, true =>
    let rest := 2 * (num % den)
    if rest < den then some (low, s)
    else if den < rest then some (low + 1, s)
    else if tieUp || low % 2 = 1 then some (low + 1, s) else some (low, s)

def stripZeros : (fuel : Nat) → Nat → Int → Nat × Int
  | 0, n, s => (n, s)
  | fuel + 1, n, s => if n ≠ 0 ∧ n % 10 = 0 then stripZeros fuel (n / 10) (s + 1) else (n, s)

def shortest (b : Binary) (tieUp : Bool) : Digits :=
  if b.significand = 0 then .zero
  else
    let (n, s) := ((List.range 17).findSome? fun i => b.nearest? tieUp (i + 1)).getD
      (let d := b.significant 17; (d.number, d.point - 17))
    let (n, s) := stripZeros 17 n s
    ⟨n, s + (Nat.toDigits 10 n).length⟩

end Binary

end BeamOptics.Decimal
