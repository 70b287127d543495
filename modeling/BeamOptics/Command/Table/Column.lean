import BeamOptics.Command.Table.Cell
import BeamOptics.Decimal.Reading
import BeamOptics.Decimal.Text
import BeamOptics.Text.CharClass

/-!
Typed columns.

A column is of the kind that the cells of the first lines agree on; whole numbers and other numbers
agree on numbers, any further mixture on text. Every cell must then be of the kind of its column, or
hold nothing.
-/

namespace BeamOptics.Command

inductive CellKind where
  | truth
  | whole
  -- with a point or an exponent, or the name of one that is not finite
  | number
  | text
deriving DecidableEq, Repr

namespace CellKind

def isDigits (cs : List Char) : Bool := !cs.isEmpty && cs.all CharClass.digit.has

def isExponent : List Char → Bool
  | e :: '+' :: cs => (e = 'e' || e = 'E') && isDigits cs
  | e :: '-' :: cs => (e = 'e' || e = 'E') && isDigits cs
  | e :: cs => (e = 'e' || e = 'E') && isDigits cs
  | [] => false

def isNumber (cs : List Char) : Bool :=
  let whole := cs.takeWhile CharClass.digit.has
  match cs.dropWhile CharClass.digit.has with
  | ['.'] => !whole.isEmpty
  | '.' :: cs =>
    let rest := cs.dropWhile CharClass.digit.has
    rest.length < cs.length && (rest.isEmpty || isExponent rest)
  | rest =>
    whole.isEmpty && (cs = ['i', 'n', 'f'] || cs = ['N', 'a', 'N'])
      || !whole.isEmpty && isExponent rest

/-- What a cell with these characters looks like; white space before a number is passed over. -/
def ofChars (cs : List Char) : CellKind :=
  let name := String.ofList (cs.map Char.toLower)
  if name = "true" ∨ name = "false" then .truth
  else
    let size := cs.dropWhile CharClass.blank.has
    let unsigned := match size with
      | '-' :: rest => rest
      | '+' :: rest => rest
      | rest => rest
    if isNumber unsigned then .number
    else if isDigits unsigned ∧ size.head? ≠ some '+' then .whole
    else .text

def common (kinds : List CellKind) : CellKind :=
  if kinds.isEmpty then .text
  else if kinds.all (· = .truth) then .truth
  else if kinds.all (· = .whole) then .whole
  else if kinds.all fun k => k = .whole ∨ k = .number then .number
  else .text

end CellKind

inductive Column where
  | truths (cells : List (Option Bool))
  | wholes (cells : List (Option Int))
  | numbers (cells : List (Option Float))
  | texts (cells : List (Option String))
deriving Repr

namespace Column

def truth? (cs : List Char) : Option Bool :=
  match String.ofList (cs.map Char.toLower) with
  | "true" => some true
  | "false" => some false
  | _ => none

def whole? (cs : List Char) : Option Int :=
  let digits := match cs with
    | '-' :: rest => rest
    | '+' :: rest => rest
    | rest => rest
  let size : Int := Decimal.digitsValue digits
  let value := if cs.head? = some '-' then -size else size
  if !digits.isEmpty && digits.all Char.isDigit && -9223372036854775808 ≤ value
      && value ≤ 9223372036854775807 then
    some value
  else none

def number? (cs : List Char) : Option Float := Decimal.read? (String.ofList cs)

def truthCell? (c : Cell) : Option (Option Bool) :=
  if c.inner = [] then some none else (truth? c.inner).map some

def textCell? (c : Cell) : Option (Option String) :=
  if c = .empty then some none else c.text?.map some

/-- The content of a cell that holds a number; spaces and tabs before it are passed over, and a cell
that has nothing else holds nothing. -/
def numericCell? {α : Type} (read : List Char → Option α) (c : Cell) : Option (Option α) :=
  let size := c.inner.dropWhile fun c => c = ' ' || c = '\t'
  if c = .empty ∨ size = [] ∧ c.inner ≠ [] then some none else (read size).map some

def ofCells? (kind : CellKind) (cells : List Cell) : Option Column :=
  match kind with
  | .truth => (cells.mapM truthCell?).map .truths
  | .whole => (cells.mapM (numericCell? whole?)).map .wholes
  | .number => (cells.mapM (numericCell? number?)).map .numbers
  | .text => (cells.mapM textCell?).map .texts

def toNumbers? : Column → Option (List Float)
  | truths cells => cells.mapM fun c => c.map fun b => if b then 1 else 0
  | wholes cells => cells.mapM fun c => c.map Float.ofInt
  | numbers cells => cells.mapM id
  | texts cells => cells.mapM fun c => c.bind Decimal.read?

def toTexts : Column → List String
  | truths cells => cells.map fun c => (c.map fun b => if b then "true" else "false").getD ""
  | wholes cells => cells.map fun c => toString (c.getD 0)
  | numbers cells => cells.map fun c => Decimal.label (c.getD 0)
  | texts cells => cells.map (·.getD "")

end Column

end BeamOptics.Command
