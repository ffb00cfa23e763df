import PipeTable.Table.Reader

/-! # Tables changed in place

A table that is kept as the kinds of its rows, its columns and its cells, each in a list of its
own, and the operations as they change these lists one after the other. An operation that reports
a fault may stop between two changes, and those it has made are not taken back. A list that lacks
an entry stops it with the fault `ragged`, which has no wording.
-/

namespace PipeTable

/-- The lists that a table is kept in. -/
structure Store where
  kinds : List RowKind
  columns : List Column
  cells : List (List Text)
  startLine : Nat
deriving DecidableEq

/-- A computation on the lists of a table, which keeps its changes when it stops with a fault. -/
abbrev InPlace := EStateM Fault Store

section Entries

variable {α : Type}

def modifyEntry (i : Nat) (f : α → α) (xs : List α) : Option (List α) :=
  if i < xs.length then some (xs.modify i f) else none

def setEntry (i : Nat) (x : α) (xs : List α) : Option (List α) :=
  if i < xs.length then some (xs.set i x) else none

def insertEntry (i : Nat) (x : α) (xs : List α) : Option (List α) :=
  if i ≤ xs.length then some (xs.insertIdx i x) else none

def removeEntry (i : Nat) (xs : List α) : Option (List α) :=
  if i < xs.length then some (xs.eraseIdx i) else none

def exchangeEntries (a b : Nat) (xs : List α) : Option (List α) :=
  if a < xs.length ∧ b < xs.length then some (exchange xs a b) else none

end Entries

namespace Store

def minWidth (s : Store) : Nat :=
  if s.kinds.any (· == .separator) then Table.ruleWidth else 0

/-- Widen columns to the cells of a row; columns behind the last cell stay as they are. -/
def widen : List Column → List Text → List Column
  | c :: columns, v :: cells => Table.widenTo (Text.displayWidth v) c :: widen columns cells
  | columns, _ => columns

def widenToRow (columns : List Column) : RowKind × List Text → List Column
  | (.data, cells) => widen columns cells
  | (.separator, _) => columns

/-- Set all widths to zero and widen the columns row by row. -/
def refit (s : Store) : Store :=
  let unset := s.columns.map fun c => { c with width := 0 }
  let widened := (s.kinds.zip s.cells).foldl widenToRow unset
  { s with columns := widened.map (Table.widenTo s.minWidth) }

/-- The widest cell of column `col`; each data row has to have one. -/
def widest (col : Nat) : List (RowKind × List Text) → Option Nat
  | [] => some 0
  | (.separator, _) :: rows => widest col rows
  | (.data, cells) :: rows => do
    let value ← cells[col]?
    let width ← widest col rows
    return max (Text.displayWidth value) width

end Store

namespace InPlace

variable {α : Type}

/-- Go on with an entry that has to be there. -/
def demand : Option α → InPlace α
  | some x => pure x
  | none => throw .ragged

def require (p : Prop) [Decidable p] (fault : Fault) : InPlace Unit :=
  if p then pure () else throw fault

def checkRow (row : Nat) : InPlace Unit := do
  let s ← get
  require (row < s.kinds.length) (.rowIndex row s.kinds.length)

def checkColumn (col : Nat) : InPlace Unit := do
  let s ← get
  require (col < s.columns.length) (.columnIndex col s.columns.length)

def editColumns (f : List Column → Option (List Column)) : InPlace Unit := do
  let s ← get
  let columns ← demand (f s.columns)
  set { s with columns := columns }

def editRows (f : List RowKind → Option (List RowKind))
    (g : List (List Text) → Option (List (List Text))) : InPlace Unit := do
  let s ← get
  let kinds ← demand (f s.kinds)
  set { s with kinds := kinds }
  let cells ← demand (g s.cells)
  set { s with kinds := kinds, cells := cells }

/-- Change the cells of each data row from row `i` on, the kinds of these rows given. -/
def eachData (f : List Text → Option (List Text)) : Nat → List RowKind → InPlace Unit
  | _, [] => pure ()
  | i, .separator :: kinds => eachData f (i + 1) kinds
  | i, .data :: kinds => do
    let s ← get
    match s.cells[i]? with
    | none => pure ()
    | some before => do
      let after ← demand (f before)
      set { s with cells := s.cells.set i after }
      eachData f (i + 1) kinds

def refit : InPlace Unit :=
  modify Store.refit

def addColumn : InPlace Unit := do
  let s ← get
  set ({ s with columns := s.columns ++ [{ width := s.minWidth }] } : Store)
  eachData (fun cells => some (cells ++ [[]])) 0 s.kinds

def addColumns : Nat → InPlace Unit
  | 0 => pure ()
  | n + 1 => do
    addColumn
    addColumns n

def addRow (kind : RowKind) (values : List Text) : InPlace Unit := do
  let s ← get
  let values := if values.isEmpty && s.columns.isEmpty then [[]] else values
  addColumns (values.length - s.columns.length)
  let s ← get
  match kind with
  | .data =>
    let row := fitCells s.columns.length values
    set ({ s with
      kinds := s.kinds ++ [.data]
      columns := Store.widen s.columns row
      cells := s.cells ++ [row] } : Store)
  | .separator =>
    set ({ s with
      kinds := s.kinds ++ [.separator]
      columns := s.columns.map (Table.widenTo Table.ruleWidth)
      cells := s.cells ++ [[]] } : Store)

def setAlignment (col : Nat) (a : Alignment) : InPlace Unit := do
  checkColumn col
  editColumns (modifyEntry col fun c => { c with alignment := a })

/-- Give the columns from column `j` on the alignments that the cells of a rule encode. -/
def alignFrom : Nat → List Text → InPlace Unit
  | _, [] => pure ()
  | j, cell :: cells => do
    match cellAlignment cell with
    | some a => setAlignment j a
    | none => pure ()
    alignFrom (j + 1) cells

def addSeparator : Dialect → Text → InPlace Unit
  | .markdown, line => do
    addRow .separator []
    let s ← get
    alignFrom 0 ((splitCells line).take s.columns.length)
  | .org, _ => addRow .separator []

def cell (row col : Nat) : InPlace Text := do
  checkRow row
  checkColumn col
  let s ← get
  let kind ← demand s.kinds[row]?
  match kind with
  | .separator => pure []
  | .data => do
    let cells ← demand s.cells[row]?
    demand cells[col]?

def cellsOf (row : Nat) : InPlace (List Text) := do
  checkRow row
  let s ← get
  demand s.cells[row]?

def setWidth (col width : Nat) : InPlace Unit :=
  editColumns (modifyEntry col fun c => { c with width := width })

/-- Adjust the width of a column, one cell of which went from `old` to `new` display cells. -/
def fitColumn (col old new : Nat) : InPlace Unit := do
  let s ← get
  let c ← demand s.columns[col]?
  if c.width < new then setWidth col new
  else if new < old ∧ old = c.width then do
    let width ← demand (Store.widest col (s.kinds.zip s.cells))
    setWidth col (max width s.minWidth)
  else pure ()

def setCell (row col : Nat) (value : Text) : InPlace Unit := do
  checkRow row
  checkColumn col
  let s ← get
  let kind ← demand s.kinds[row]?
  require (kind = .data) (.separatorCell row col)
  let cells ← demand s.cells[row]?
  let old ← demand cells[col]?
  set { s with cells := s.cells.set row (cells.set col value) }
  fitColumn col (Text.displayWidth old) (Text.displayWidth value)

def setRow (row : Nat) (values : List Text) : InPlace Unit := do
  checkRow row
  let s ← get
  let kind ← demand s.kinds[row]?
  match kind with
  | .separator => pure ()
  | .data => do
    editRows some (setEntry row (fitCells s.columns.length values))
    refit

def ensureColumn : InPlace Unit := do
  let s ← get
  if s.columns.isEmpty then addColumn else pure ()

def insertRow (index : Nat) (kind : RowKind) : InPlace Unit := do
  let s ← get
  require (index ≤ s.kinds.length) (.rowInsertion index s.kinds.length)
  ensureColumn
  let s ← get
  editRows (insertEntry index kind)
    (insertEntry index (Table.blankRow s.columns.length kind).cells)
  refit

def removeRow (index : Nat) : InPlace Unit := do
  checkRow index
  editRows (removeEntry index) (removeEntry index)
  refit

def swapRows (a b : Nat) : InPlace Unit := do
  checkRow a
  checkRow b
  editRows (exchangeEntries a b) (exchangeEntries a b)
  refit

def insertColumn (index : Nat) : InPlace Unit := do
  let s ← get
  require (index ≤ s.columns.length) (.columnInsertion index s.columns.length)
  editColumns (insertEntry index {})
  eachData (insertEntry index []) 0 s.kinds
  refit

/-- Remove a column and tell whether there was another one. -/
def removeColumn (index : Nat) : InPlace Bool := do
  checkColumn index
  let s ← get
  if s.columns.length = 1 then pure false
  else do
    editColumns (removeEntry index)
    eachData (removeEntry index) 0 s.kinds
    refit
    pure true

def swapColumns (a b : Nat) : InPlace Unit := do
  checkColumn a
  checkColumn b
  editColumns (exchangeEntries a b)
  let s ← get
  eachData (exchangeEntries a b) 0 s.kinds
  refit

end InPlace

end PipeTable
