import PipeTable.Document.Replacement
import PipeTable.Navigation.Moves
import PipeTable.Table.Printer

/-! # The table under the cursor

A command works on the table around the cursor's line: its region in the document, the lines
of the region, and the table read from them. The cursor is anchored to a cell or to a separator
row before the table changes, and afterwards it goes to a cell of the table as it will be
written.
-/

namespace PipeTable

/-- Where the cursor is among the cells: inside one, outside all but nearest to one, or on a
separator row. -/
inductive Anchor where
  | inside (cell : CellAddress)
  | beside (cell : CellAddress)
  | separator (row : Nat)
deriving DecidableEq

def Anchor.cell : Anchor → Option CellAddress
  | inside cell | beside cell => some cell
  | separator _ => none

structure Focus where
  dialect : Dialect
  region : Region
  lines : List Text
  table : Table

namespace Focus

/-- Read the table around a line; `none` if the line belongs to no table. -/
def load (d : Dialect) (doc : List Text) (line : Nat) : Except Fault (Option Focus) := do
  match Region.locate doc line with
  | none => return none
  | some region =>
    let lines ← region.linesOf doc
    match Table.parse d (Text.joinLines lines) with
    | none => return none
    | some t => return some ⟨d, region, lines, { t with startLine := region.startLine }⟩

/-- The blanks that the first line of the region starts with. -/
def indent (f : Focus) : Text := Text.leadingBlanks (f.lines.headD [])

/-- The row that a position is on. -/
def rowAt (f : Focus) (p : Position) : Except Fault Nat :=
  if p.line < f.region.startLine then .error .aboveTable
  else .ok (p.line - f.region.startLine)

/-- The cells as the document has them. -/
def liveCells (f : Focus) : CellMap := CellMap.inDocument f.table f.lines

/-- Anywhere on the line of a separator row is that row. -/
def anchorAt (f : Focus) (p : Position) : Except Fault (Option Anchor) := do
  let row ← f.rowAt p
  if f.table.rows[row]?.any Row.isSeparator then return some (.separator row)
  match f.liveCells.stopAt p with
  | some s => return some (.inside s.address)
  | none => return (f.liveCells.cellAt p).map .beside

def render (f : Focus) : Text := f.table.render f.dialect f.indent

/-- The cells as they will be once the table is written. -/
def writtenCells (f : Focus) : CellMap := CellMap.inDocument f.table (Text.lines f.render)

/-- Where the cursor goes for a cell of the written table: into the cell, or to the start of the
line if the row has no such cell. -/
def cursorFor (f : Focus) (a : CellAddress) : Position :=
  (f.writtenCells.positionOf a).getD ⟨f.region.startLine + a.row, 0⟩

/-- Write the table over the region that it was read from. -/
def replace (f : Focus) (cursor : Option Position) : Replacement := ⟨f.region, f.render, cursor⟩

def replaceAt (f : Focus) (a : CellAddress) : Replacement := f.replace (some (f.cursorFor a))

def withTable (f : Focus) (t : Table) : Focus := { f with table := t }

/-- Append an empty data row and put the cursor into its column `col`. -/
def appendRow (f : Focus) (col : Nat) : Replacement :=
  let g := f.withTable (f.table.addRow .data [])
  g.replaceAt ⟨g.table.rowCount - 1, col⟩

end Focus

end PipeTable
