import BeamOptics.Decimal.Digits

/-!
How numbers are written in messages and reports.

Every form writes `NaN` for a value that is not a number, `inf` for an infinity, and a minus sign
wherever the sign bit is set, so also for `-0`.
-/

namespace BeamOptics.Decimal

def zeros (n : Nat) : List Char := List.replicate n '0'

/-- The digits with the decimal point in its place, and no point after the last digit. -/
def Digits.positional (d : Digits) : List Char :=
  let cs := d.chars
  if d.point ≤ 0 then '0' :: '.' :: zeros (-d.point).toNat ++ cs
  else if cs.length ≤ d.point.toNat then cs ++ zeros (d.point.toNat - cs.length)
  else cs.take d.point.toNat ++ '.' :: cs.drop d.point.toNat

/-- The power of ten of the first digit after an `e`, with its sign; `plus` asks for one before
powers that are not negative too. -/
def Digits.power (d : Digits) (plus : Bool) : List Char :=
  let k := d.point - 1
  'e' :: (if plus && 0 ≤ k then ['+'] else []) ++ (toString k).toList

def Digits.exponential (d : Digits) (plus : Bool) : List Char :=
  match d.chars with
  | [] => '0' :: d.power plus
  | [c] => c :: d.power plus
  | c :: cs => c :: '.' :: cs ++ d.power plus

def written (x : Float) (finite : Binary → List Char) : String :=
  if x.isNaN then "NaN"
  else
    let body := if x.isFinite then finite (.ofFloat x) else "inf".toList
    String.ofList (if isNegative x then '-' :: body else body)

def plain (x : Float) : String := written x fun b => (b.shortest true).positional

def exponential (x : Float) : String := written x fun b => (b.shortest true).exponential false

def withPlace (cs : List Char) : List Char := if cs.contains '.' then cs else cs ++ ['.', '0']

/-- The fewest digits that read back: positional with at least one place from `0.0001` up to below
`10 ^ 16`, with an exponent outside. -/
def literal (x : Float) : String :=
  written x fun b =>
    let d := b.shortest true
    if b.significand ≠ 0 ∧ (d.point < -3 ∨ 16 < d.point) then d.exponential false
    else withPlace d.positional

/-- The fewest digits that read back, with at least one place: positional from `0.00001` up to below
`10 ^ 10`, with an exponent outside. -/
def label (x : Float) : String :=
  written x fun b =>
    let d := b.shortest false
    if b.significand ≠ 0 ∧ (d.point < -4 ∨ 10 < d.point) then
      withPlace (({ d with point := 1 } : Digits).exponential false |>.takeWhile (· ≠ 'e'))
        ++ d.power false
    else withPlace d.positional

def fixed (places : Nat) (x : Float) : String :=
  written x fun b =>
    let cs := Nat.toDigits 10 (b.inPlaces places)
    let cs := zeros (places + 1 - cs.length) ++ cs
    let whole := cs.length - places
    if places = 0 then cs else cs.take whole ++ '.' :: cs.drop whole

/-- A set number of places after the decimal point of a scaled value between one and ten. -/
def scientific (places : Nat) (x : Float) : String :=
  written x fun b =>
    let d := b.significant (places + 1)
    let cs := d.chars
    let cs := cs ++ zeros (places + 1 - cs.length)
    if places = 0 then cs ++ d.power false else cs.take 1 ++ '.' :: cs.drop 1 ++ d.power false

def withPlus (x : Float) (text : String) : String :=
  if x.isNaN || isNegative x then text else "+" ++ text

end BeamOptics.Decimal
