import BeamOptics.Command.Table.Column

/-!
Tables as comma-separated text.

The first line names the columns, which are then read by kind. Line ends before the first line are
passed over, as are cells beyond the named columns; cells that a line lacks hold nothing. The last
line counts for the kinds of the columns only if a line end follows it, or if it is the only one.
-/

namespace BeamOptics.Command

inductive TableTrouble where
  | unreadable
  | loneQuote
deriving DecidableEq, Repr

structure Table where
  header : List String
  columns : List Column
deriving Repr

namespace Table

def sampleSize : Nat := 128

def start (text : List Char) : List Char :=
  let text := if text.head? = some (Char.ofNat 0xFEFF) then text.drop 1 else text
  text.dropWhile fun c => c = '\n' || c = '\r'

def name (c : Cell) : String :=
  String.ofList (if 2 ≤ c.raw.length then c.inner else c.raw)

def sample (body : List Char) : List (List Char) :=
  let lines := linesOf body
  -- a single line counts without a line end, too
  (if lines.isEmpty then linesOf (body ++ ['\n']) else lines).take sampleSize

def kind (lines : List (List Cell)) (i : Nat) : CellKind :=
  .common (lines.filterMap fun cells =>
    match cells[i]? with
    | some c => if c = .empty then none else some (.ofChars c.inner)
    | none => none)

/-- Cell `i` of a row as its column reads it; one that is missing or a lone quote holds nothing. -/
def cell (row : List Cell) (i : Nat) : Cell :=
  let c := (row.getD i .empty).trimmed
  if c.isLoneQuote then .empty else c

/-- The table of a text. A lone quote is a trouble of its own, but any other comes before it,
because only the last cell of a text can be one. -/
def ofText (text : String) : Except TableTrouble Table := do
  let text := start text.toList
  if text = [] then throw .unreadable
  let first := (linesOf text).headD text
  let body := text.drop (first.length + 1)
  let header := (cellsOf (first.length + 1) first).map name
  let width := header.length
  let lines := ((sample body).filter (· ≠ [])).map (cellsOf width)
  let rows := rowsOf width body
  match (List.range width).mapM fun i => Column.ofCells? (kind lines i) (rows.map (cell · i)) with
  | none => throw .unreadable
  | some columns =>
    if rows.any (·.any (·.trimmed.isLoneQuote)) then throw .loneQuote
    return ⟨header, columns⟩

def column? (t : Table) (name : String) : Option Column :=
  ((t.header.zip t.columns).find? (·.1 = name)).map (·.2)

end Table

end BeamOptics.Command
