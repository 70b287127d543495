/-!
Decimal numbers read as doubles.

`read?` accepts a sign, digits with at most one point and at least one digit, and an exponent, or
one of the names of infinity and of a value that is not a number, in any case. The result is the
double nearest to the decimal.
-/

namespace BeamOptics.Decimal

/-- The double nearest to `mantissa * 10 ^ exponent`. Decimals outside every double's range are
settled by their size alone. -/
def nearestDouble (mantissa : Nat) (exponent : Int) : Float :=
  let size := (Nat.toDigits 10 mantissa).length + exponent
  if mantissa = 0 ∨ size < -330 then 0
  else if 310 < size then 1 / 0
  else Float.ofScientific mantissa (exponent < 0) exponent.natAbs

def digitsValue (cs : List Char) : Nat := cs.foldl (fun n c => 10 * n + (c.toNat - 48)) 0

/-- An exponent: `e` or `E`, a sign or none, and at least one digit; nothing at all stands for
zero. -/
def readExponent? : List Char → Option Int
  | [] => some 0
  | e :: cs =>
    let (negative, ds) := match cs with
      | '-' :: ds => (true, ds)
      | '+' :: ds => (false, ds)
      | ds => (false, ds)
    if (e = 'e' ∨ e = 'E') ∧ ds ≠ [] ∧ ds.all Char.isDigit then
      some (if negative then -(digitsValue ds : Int) else digitsValue ds)
    else none

def readUnsigned? (cs : List Char) : Option Float := do
  let whole := cs.takeWhile Char.isDigit
  let (fraction, rest) := match cs.dropWhile Char.isDigit with
    | '.' :: rest => (rest.takeWhile Char.isDigit, rest.dropWhile Char.isDigit)
    | rest => ([], rest)
  guard (whole ≠ [] ∨ fraction ≠ [])
  let exponent ← readExponent? rest
  return nearestDouble (digitsValue (whole ++ fraction)) (exponent - fraction.length)

def readSize? (cs : List Char) : Option Float :=
  match String.ofList (cs.map Char.toLower) with
  | "inf" | "infinity" => some (1 / 0)
  | "nan" => some (0 / 0)
  | _ => readUnsigned? cs

def read? (text : String) : Option Float :=
  match text.toList with
  | '-' :: cs => (readSize? cs).map (- ·)
  | '+' :: cs => readSize? cs
  | cs => readSize? cs

end BeamOptics.Decimal
