import PipeTable.Table.Fault

/-! # Operations on tables

Growing a table keeps its grid rectangular: every data row has one cell for each column.
Operations that take an index check it first, rows before columns before the kind of the row,
and a failed check leaves nothing to return but the fault.
-/

namespace PipeTable

/-- Cut `cells` to `n` of them, or fill up with empty ones. -/
def fitCells (n : Nat) (cells : List Text) : List Text :=
  cells.take n ++ List.replicate (n - cells.length) []

@[simp] theorem length_fitCells (n : Nat) (cells : List Text) :
    (fitCells n cells).length = n := by
  simp [fitCells]; omega

/-- Exchange the entries at `a` and `b`; both have to exist. -/
def exchange {α : Type} (xs : List α) (a b : Nat) : List α :=
  match xs[a]?, xs[b]? with
  | some x, some y => (xs.set a y).set b x
  | _, _ => xs

@[simp] theorem length_exchange {α : Type} (xs : List α) (a b : Nat) :
    (exchange xs a b).length = xs.length := by
  unfold exchange
  split <;> simp

namespace Table

def addColumn (t : Table) : Table :=
  { t with
    columns := t.columns ++ [{ width := t.minWidth }]
    rows := t.rows.map (Row.mapCells (· ++ [[]])) }

def addColumns : Nat → Table → Table
  | 0, t => t
  | n + 1, t => addColumns n t.addColumn

def widenTo (width : Nat) (c : Column) : Column :=
  { c with width := max c.width width }

/-- Append a row. The table first grows to as many columns as there are values, and to one if it
would have none; a data row is filled up with empty cells, a separator row keeps no values. -/
def addRow (t : Table) (kind : RowKind) (values : List Text) : Table :=
  let values := if values.isEmpty && t.columns.isEmpty then [[]] else values
  let t := t.addColumns (values.length - t.colCount)
  match kind with
  | .data =>
    let cells := fitCells t.colCount values
    { t with
      columns := t.columns.zipWith (fun c v => widenTo (Text.displayWidth v) c) cells
      rows := t.rows ++ [.data cells] }
  | .separator =>
    { t with
      columns := t.columns.map (widenTo ruleWidth)
      rows := t.rows ++ [.separator] }

def addRows (t : Table) (kind : RowKind) (values : List Text) : Nat → Table
  | 0 => t
  | n + 1 => (t.addRow kind values).addRows kind values n

/-- A table of empty cells: a header, a separator and `rows - 1` rows below it. -/
def withSize (rows cols : Nat) : Table :=
  let blank := List.replicate (max cols 1) []
  let head := (empty.addRow .data blank).addRow .separator []
  (head.addRows .data blank (max rows 1 - 1)).refit

def setAlignment (t : Table) (col : Nat) (a : Alignment) : Except Fault Table := do
  t.checkColumn col
  return { t with columns := t.columns.modify col fun c => { c with alignment := a } }

def row (t : Table) (index : Nat) : Except Fault Row :=
  match t.rows[index]? with
  | some r => .ok r
  | none => .error (.rowIndex index t.rowCount)

def cellsOf (t : Table) (index : Nat) : Except Fault (List Text) := do
  return (← t.row index).cells

/-- The value of a cell; every cell of a separator row reads as empty. -/
def cell (t : Table) (index col : Nat) : Except Fault Text := do
  let r ← t.row index
  t.checkColumn col
  match r with
  | .separator => return []
  | .data cells =>
    match cells[col]? with
    | some value => return value
    | none => throw .ragged

/-- The width of a column after one of its cells went from `old` to `new` display cells. Only a
cell that made the column as wide as it is can make it narrower. -/
def widthAfter (t : Table) (col old new current : Nat) : Nat :=
  if current < new then new
  else if new < old ∧ old = current then t.fittedWidth col
  else current

def setCell (t : Table) (index col : Nat) (value : Text) : Except Fault Table := do
  let r ← t.row index
  t.checkColumn col
  match r with
  | .separator => throw (.separatorCell index col)
  | .data cells =>
    match cells[col]? with
    | none => throw .ragged
    | some old =>
      let t := { t with rows := t.rows.set index (.data (cells.set col value)) }
      let width := t.widthAfter col (Text.displayWidth old) (Text.displayWidth value)
      return { t with columns := t.columns.modify col fun c => { c with width := width c.width } }

/-- Replace the cells of a data row; a separator row stays as it is. -/
def setRow (t : Table) (index : Nat) (values : List Text) : Except Fault Table := do
  match ← t.row index with
  | .separator => return t
  | .data _ =>
    return { t with rows := t.rows.set index (.data (fitCells t.colCount values)) }.refit

def blankRow (cols : Nat) : RowKind → Row
  | .data => .data (List.replicate cols [])
  | .separator => .separator

/-- Insert an empty row before row `index`, at the end if `index` is the number of rows. -/
def insertRow (t : Table) (index : Nat) (kind : RowKind) : Except Fault Table := do
  if t.rowCount < index then throw (.rowInsertion index t.rowCount)
  let t := if t.columns.isEmpty then t.addColumn else t
  return { t with rows := t.rows.insertIdx index (blankRow t.colCount kind) }.refit

def removeRow (t : Table) (index : Nat) : Except Fault Table := do
  t.checkRow index
  return { t with rows := t.rows.eraseIdx index }.refit

def swapRows (t : Table) (a b : Nat) : Except Fault Table := do
  t.checkRow a
  t.checkRow b
  return { t with rows := exchange t.rows a b }.refit

/-- Insert an empty left-aligned column before column `index`, at the end if `index` is the
number of columns. -/
def insertColumn (t : Table) (index : Nat) : Except Fault Table := do
  if t.colCount < index then throw (.columnInsertion index t.colCount)
  t.checkReach index
  return { t with
    columns := t.columns.insertIdx index {}
    rows := t.rows.map (Row.mapCells (·.insertIdx index [])) }.refit

/-- Remove a column. The only column of a table is never removed: the answer is then `none`. -/
def removeColumn (t : Table) (index : Nat) : Except Fault (Option Table) := do
  t.checkColumn index
  if t.colCount = 1 then return none
  t.checkReach (index + 1)
  return some { t with
    columns := t.columns.eraseIdx index
    rows := t.rows.map (Row.mapCells (·.eraseIdx index)) }.refit

/-- Exchange two columns, with the cells of every data row. -/
def swapColumns (t : Table) (a b : Nat) : Except Fault Table := do
  t.checkColumn a
  t.checkColumn b
  t.checkReach (max a b + 1)
  return { t with
    columns := exchange t.columns a b
    rows := t.rows.map (Row.mapCells (exchange · a b)) }.refit

end Table

end PipeTable
