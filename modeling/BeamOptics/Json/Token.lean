import BeamOptics.Decimal.Reading
import BeamOptics.Json.Tree

/-!
The words of a document.

`Token.scan` reads the characters once, from left to right, and holds at most one unfinished word. A
number is the longest run of characters that numbers are written with, and has to have the form of a
number as a whole.
-/

namespace BeamOptics.Json

inductive Token where
  | openArray
  | closeArray
  | openObject
  | closeObject
  | colon
  | comma
  -- one of the three named values
  | constant (name : String)
  | number (n : JsonNumber Float)
  | text (s : Option String)
deriving Repr

/-- Part of a text: a character, or a 16-bit unit that was written as an escape. -/
inductive Piece where
  | char (c : Char)
  | unit (n : Nat)
deriving Repr

def joinPieces : List Piece → Option (List Char)
  | [] => some []
  | .char c :: ps => (joinPieces ps).map (c :: ·)
  -- a unit of the first half of a surrogate pair needs one of the second half behind it
  | .unit hi :: .unit lo :: ps =>
    if 0xD800 ≤ hi ∧ hi < 0xDC00 then
      if 0xDC00 ≤ lo ∧ lo < 0xE000 then
        (joinPieces ps).map (Char.ofNat (0x10000 + (hi - 0xD800) * 0x400 + (lo - 0xDC00)) :: ·)
      else none
    else if 0xDC00 ≤ hi ∧ hi < 0xE000 then none
    else (joinPieces (.unit lo :: ps)).map (Char.ofNat hi :: ·)
  | .unit n :: ps =>
    if 0xD800 ≤ n ∧ n < 0xE000 then none else (joinPieces ps).map (Char.ofNat n :: ·)

def largestCount : Nat := 18446744073709551615

def largestBelow : Nat := 9223372036854775808

def wholeAsReal (negative : Bool) (n : Nat) : JsonNumber Float :=
  let x := Decimal.nearestDouble n 0
  if x.isFinite then .real (if negative then -x else x) else .tooLarge

/-- The number of a lexeme: a minus sign or none, a whole part without a leading zero, at least one
digit after a point, at least one digit in an exponent. -/
def numberOf? (lexeme : List Char) : Option (JsonNumber Float) := do
  let (negative, cs) := match lexeme with
    | '-' :: cs => (true, cs)
    | cs => (false, cs)
  let whole := cs.takeWhile Char.isDigit
  guard (whole ≠ [] ∧ (whole.head? ≠ some '0' ∨ whole.length = 1))
  match cs.dropWhile Char.isDigit with
  | [] =>
    let n := Decimal.digitsValue whole
    if negative then
      return if n ≠ 0 ∧ n ≤ largestBelow then .below n else wholeAsReal true n
    else return if n ≤ largestCount then .count n else wholeAsReal false n
  | '.' :: rest => guard ((rest.head?.map Char.isDigit) = some true)
  | _ => pure ()
  let x ← Decimal.readUnsigned? cs
  return if x.isFinite then .real (if negative then -x else x) else .tooLarge

inductive Partial where
  | none
  | text (pieces : List Piece)
  | escape (pieces : List Piece)
  -- inside the four hexadecimal digits of a unit
  | unit (pieces : List Piece) (digits value : Nat)
  | number (lexeme : List Char)
  | name (letters : List Char)

def isNumberChar (c : Char) : Bool :=
  c.isDigit || c = '-' || c = '+' || c = '.' || c = 'e' || c = 'E'

def hexValue? (c : Char) : Option Nat :=
  if c.isDigit then some (c.toNat - 48)
  else if 'a' ≤ c ∧ c ≤ 'f' then some (c.toNat - 87)
  else if 'A' ≤ c ∧ c ≤ 'F' then some (c.toNat - 55)
  else none

def Token.start? (c : Char) (done : List Token) : Option (List Token × Partial) :=
  match c with
  | ' ' | '\n' | '\t' | '\r' => some (done, .none)
  | '[' => some (.openArray :: done, .none)
  | ']' => some (.closeArray :: done, .none)
  | '\x7b' => some (.openObject :: done, .none)
  | '\x7d' => some (.closeObject :: done, .none)
  | ':' => some (.colon :: done, .none)
  | ',' => some (.comma :: done, .none)
  | '"' => some (done, .text [])
  | c =>
    if c.isDigit || c = '-' then some (done, .number [c])
    else if c.isAlpha then some (done, .name [c])
    else none

def Token.finish? : Partial → List Token → Option (List Token)
  | .none, done => some done
  | .number lexeme, done => (numberOf? lexeme.reverse).map (.number · :: done)
  | .name letters, done => some (.constant (String.ofList letters.reverse) :: done)
  | _, _ => none

def Token.step? (state : List Token × Partial) (c : Char) : Option (List Token × Partial) :=
  let (done, current) := state
  match current with
  | .none => Token.start? c done
  | .text ps =>
    if c = '"' then some (.text ((joinPieces ps.reverse).map String.ofList) :: done, .none)
    else if c = '\\' then some (done, .escape ps)
    else if c.toNat < 0x20 then none
    else some (done, .text (.char c :: ps))
  | .escape ps =>
    let put (c : Char) := some (done, Partial.text (.char c :: ps))
    match c with
    | '"' => put '"'
    | '\\' => put '\\'
    | '/' => put '/'
    | 'b' => put (Char.ofNat 8)
    | 'f' => put (Char.ofNat 12)
    | 'n' => put '\n'
    | 'r' => put '\r'
    | 't' => put '\t'
    | 'u' => some (done, .unit ps 0 0)
    | _ => none
  | .unit ps digits value =>
    (hexValue? c).map fun h =>
      let value := 16 * value + h
      if digits = 3 then (done, .text (.unit value :: ps)) else (done, .unit ps (digits + 1) value)
  | .number lexeme =>
    if isNumberChar c then some (done, .number (c :: lexeme))
    else (Token.finish? current done).bind (Token.start? c)
  | .name letters =>
    if c.isAlpha then some (done, .name (c :: letters))
    else (Token.finish? current done).bind (Token.start? c)

def Token.scan (cs : List Char) : Option (List Token) := do
  let (done, current) ← cs.foldlM Token.step? ([], .none)
  return (← Token.finish? current done).reverse

end BeamOptics.Json
