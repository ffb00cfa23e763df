import PipeTable.Command.Focus

/-! # Commands

A command takes a document and a cursor to the replacement that realigns the table under the
cursor after one change of its own. The answer `none` says that there is nothing to do: the
cursor is outside all tables, on a separator row where a cell is needed, or at an edge.
-/

namespace PipeTable

inductive Command where
  | format
  | nextCell
  | previousCell
  | nextRow
  | moveRowUp
  | moveRowDown
  | moveColumnLeft
  | moveColumnRight
  | clearCell
  | insertRowBelow
  | deleteRow
  | insertColumnRight
  | deleteColumn
deriving DecidableEq

/-- `autoAddRow` lets a move past the last cell or the last row append a row. -/
structure CommandOptions where
  autoAddRow : Bool := true
deriving DecidableEq

inductive Direction where
  | back
  | forward
deriving DecidableEq

/-- The neighbour of index `i` among `count` of them. -/
def Direction.step : Direction → Nat → Nat → Option Nat
  | back, 0, _ => none
  | back, i + 1, count => if i < count then some i else none
  | forward, i, count => if i + 1 < count then some (i + 1) else none

namespace Focus

variable (f : Focus) (p : Position) (anchor : Option Anchor)

def format : Option Replacement :=
  some (f.replace ((anchor.bind Anchor.cell).map f.cursorFor))

/-- From a cell to the next one, from outside to the nearest one. The last cell is left for a
new row if that is allowed, and is kept otherwise. -/
def nextCell (options : CommandOptions) : Option Replacement :=
  let cells := f.writtenCells
  match anchor with
  | none => none
  | some (.beside a) => some (f.replace (cells.positionOf a))
  | some (.separator row) => some (f.replace (cells.nextCell ⟨f.region.startLine + row, 0⟩))
  | some (.inside a) =>
    (cells.positionOf a).map fun current =>
      if cells.isLastCell current && options.autoAddRow then f.appendRow 0
      else f.replace ((cells.nextCell current).or (some current))

def previousCell : Option Replacement :=
  let cells := f.writtenCells
  match anchor with
  | none => none
  | some (.beside a) => some (f.replace (cells.positionOf a))
  | some (.separator row) =>
    some (f.replace (cells.previousCell ⟨f.region.startLine + row, 0⟩))
  | some (.inside a) =>
    (cells.positionOf a).map fun current =>
      f.replace ((cells.previousCell current).or (some current))

/-- Where a move to the next row starts, and the column of a row that it may append. -/
def rowMoveStart (a : Anchor) : Option (Position × Nat) :=
  match a.cell with
  | some cell => (f.writtenCells.positionOf cell).map fun q => (q, cell.col)
  | none => some (⟨p.line, 0⟩, 0)

def nextRow (options : CommandOptions) : Option Replacement :=
  (anchor.bind (f.rowMoveStart p)).map fun (current, col) =>
    match f.writtenCells.nextRowInDocument current with
    | some target => f.replace (some target)
    | none => if options.autoAddRow then f.appendRow col else f.replace (some current)

def moveRow (direction : Direction) : Except Fault (Option Replacement) := do
  let row ← f.rowAt p
  match direction.step row f.table.rowCount with
  | none => return none
  | some target =>
    let g := f.withTable (← f.table.swapRows row target)
    match anchor.bind Anchor.cell with
    | some cell => return some (g.replaceAt ⟨target, cell.col⟩)
    | none => return some (g.replace (some ⟨f.region.startLine + target, p.character⟩))

def moveColumn (direction : Direction) : Except Fault (Option Replacement) := do
  match anchor.bind Anchor.cell with
  | none => return none
  | some cell =>
    match direction.step cell.col f.table.colCount with
    | none => return none
    | some target =>
      let g := f.withTable (← f.table.swapColumns cell.col target)
      return some (g.replaceAt ⟨cell.row, target⟩)

def clearCell : Except Fault (Option Replacement) := do
  match anchor.bind Anchor.cell with
  | none => return none
  | some cell =>
    let g := f.withTable (← f.table.setCell cell.row cell.col [])
    return some (g.replaceAt cell)

/-- The column of the anchor, the first one on a separator row. -/
def anchorColumn (anchor : Option Anchor) : Nat :=
  ((anchor.bind Anchor.cell).map CellAddress.col).getD 0

def insertRowBelow : Except Fault (Option Replacement) := do
  let row ← f.rowAt p
  let g := f.withTable (← f.table.insertRow (row + 1) .data)
  return some (g.replaceAt ⟨row + 1, anchorColumn anchor⟩)

/-- The last row of a table is never deleted. -/
def deleteRow : Except Fault (Option Replacement) := do
  if f.table.rowCount ≤ 1 then return none
  let row ← f.rowAt p
  let g := f.withTable (← f.table.removeRow row)
  return some (g.replaceAt ⟨min row (g.table.rowCount - 1), anchorColumn anchor⟩)

def insertColumnRight : Except Fault (Option Replacement) := do
  match anchor.bind Anchor.cell with
  | none => return none
  | some cell =>
    let g := f.withTable (← f.table.insertColumn (cell.col + 1))
    return some (g.replaceAt ⟨cell.row, cell.col + 1⟩)

/-- The last column of a table is never deleted. -/
def deleteColumn : Except Fault (Option Replacement) := do
  match anchor.bind Anchor.cell with
  | none => return none
  | some cell =>
    match ← f.table.removeColumn cell.col with
    | none => return none
    | some t =>
      let g := f.withTable t
      return some (g.replaceAt ⟨cell.row, min cell.col (t.colCount - 1)⟩)

def perform (command : Command) (options : CommandOptions) : Except Fault (Option Replacement) :=
  match command with
  | .format => .ok (f.format anchor)
  | .nextCell => .ok (f.nextCell anchor options)
  | .previousCell => .ok (f.previousCell anchor)
  | .nextRow => .ok (f.nextRow p anchor options)
  | .moveRowUp => f.moveRow p anchor .back
  | .moveRowDown => f.moveRow p anchor .forward
  | .moveColumnLeft => f.moveColumn anchor .back
  | .moveColumnRight => f.moveColumn anchor .forward
  | .clearCell => f.clearCell anchor
  | .insertRowBelow => f.insertRowBelow p anchor
  | .deleteRow => f.deleteRow p anchor
  | .insertColumnRight => f.insertColumnRight anchor
  | .deleteColumn => f.deleteColumn anchor

end Focus

/-- Carry out a command on a document with the cursor at `p`. -/
def Command.run (command : Command) (options : CommandOptions) (d : Dialect) (doc : List Text)
    (p : Position) : Except Fault (Option Replacement) := do
  match ← Focus.load d doc p.line with
  | none => return none
  | some f => f.perform p (← f.anchorAt p) command options

end PipeTable
