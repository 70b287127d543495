/-!
Cells and rows of comma-separated text, as they stand.

A cell that begins with a quote reaches to the first comma or line end outside quotes, any other
cell to the first comma or line end. Rows are told apart cell by cell; lines are told apart by line
ends outside quotes, wherever in the line the quotes stand. The two agree unless a quote stands
alone inside a cell.
-/

namespace BeamOptics.Command

structure Cell where
  raw : List Char
deriving DecidableEq, Repr

namespace Cell

def empty : Cell := ⟨[]⟩

def isQuoted (c : Cell) : Bool := c.raw.head? = some '"'

def inner (c : Cell) : List Char := if c.isQuoted then c.raw.tail.dropLast else c.raw

def trimmed (c : Cell) : Cell := if c.raw.getLast? = some '\r' then ⟨c.raw.dropLast⟩ else c

/-- A single quote is all of the cell, so that nothing stands between its first and its last
character. -/
def isLoneQuote (c : Cell) : Bool := c.raw = ['"']

def unquote : List Char → List Char
  | '"' :: '"' :: cs => '"' :: unquote cs
  | '"' :: cs => unquote cs
  | c :: cs => c :: unquote cs
  | [] => []

/-- The text that the cell stands for. A quoted cell loses one byte at its end, so it has no text if
its last character takes more. -/
def text? (c : Cell) : Option String :=
  if c.isQuoted then
    if (c.raw.getLast?.map Char.utf8Size).getD 1 = 1 then some (String.ofList (unquote c.inner))
    else none
  else some (String.ofList c.raw)

end Cell

inductive RowPlace where
  | before
  | inside
  | behind
deriving DecidableEq

/-- Rows in the middle of being read; everything is held in reverse. -/
structure RowScan where
  place : RowPlace
  cell : List Char := []
  isQuoted : Bool := false
  -- the number of quotes so far is odd
  isOpen : Bool := false
  row : List Cell := []
  rows : List (List Cell) := []

namespace RowScan

def isLeading (c : Char) : Bool := c = ' ' || c = '\t' || c = '\n' || c = '\r'

def cells (s : RowScan) : List Cell := ⟨s.cell.reverse⟩ :: s.row

def endRow (s : RowScan) : RowScan := { place := .before, rows := s.cells.reverse :: s.rows }

/-- The present cell ends, and with it what counts of the row if that was the last cell. -/
def endCell (width : Nat) (s : RowScan) : RowScan :=
  if s.cells.length = width then { place := .behind, rows := s.cells.reverse :: s.rows }
  else { place := .inside, row := s.cells, rows := s.rows }

def stepInside (width : Nat) (s : RowScan) (c : Char) : RowScan :=
  let isQuoted := s.isQuoted || (s.cell.isEmpty && c = '"')
  if c = '"' && isQuoted then
    { s with cell := c :: s.cell, isQuoted := isQuoted, isOpen := !s.isOpen }
  else if c = ',' && !s.isOpen then s.endCell width
  else if c = '\n' && !s.isOpen then s.endRow
  else { s with cell := c :: s.cell }

def step (width : Nat) (s : RowScan) (c : Char) : RowScan :=
  match s.place with
  | .before => if isLeading c then s else { s with place := .inside }.stepInside width c
  | .inside => s.stepInside width c
  | .behind =>
    if c = '"' then { s with isOpen := !s.isOpen }
    else if c = '\n' && !s.isOpen then { place := .before, rows := s.rows }
    else s

def finished (s : RowScan) : List (List Cell) :=
  (if s.place = .inside then s.endRow.rows else s.rows).reverse

end RowScan

/-- The rows of a text: of each at most the first `width` cells. Blank space and line ends before a
row are passed over. -/
def rowsOf (width : Nat) (text : List Char) : List (List Cell) :=
  (text.foldl (RowScan.step width) { place := .before }).finished

/-- The cells of a line, at most `width` of them. A carriage return at the end of the line is left
out, unless it is all of the line. -/
def cellsOf (width : Nat) (line : List Char) : List Cell :=
  let line := if 1 < line.length ∧ line.getLast? = some '\r' then line.dropLast else line
  (line.foldl (RowScan.step width) { place := .inside }).finished.headD []

structure LineScan where
  line : List Char := []
  -- the number of quotes so far is odd
  isOpen : Bool := false
  lines : List (List Char) := []

def LineScan.step (s : LineScan) (c : Char) : LineScan :=
  if c = '\n' && !s.isOpen then { lines := s.line.reverse :: s.lines }
  else { s with line := c :: s.line, isOpen := if c = '"' then !s.isOpen else s.isOpen }

/-- The lines of a text, each of which ends outside quotes; what follows the last line end is left
out. -/
def linesOf (text : List Char) : List (List Char) := (text.foldl LineScan.step {}).lines.reverse

end BeamOptics.Command
