import PipeTable.Text.Width

/-! # Tables

A table is a list of columns and a list of rows. A data row holds its cells and a separator
row holds none. Each column carries an alignment and a width in display cells; once a
separator row exists no column is narrower than three cells.
-/

namespace PipeTable

inductive Alignment where
  | left
  | center
  | right
deriving DecidableEq

structure Column where
  alignment : Alignment := .left
  width : Nat := 0
deriving DecidableEq

inductive RowKind where
  | data
  | separator
deriving DecidableEq

inductive Row where
  | data (cells : List Text)
  | separator
deriving DecidableEq

namespace Row

def kind : Row → RowKind
  | data _ => .data
  | separator => .separator

def isSeparator : Row → Bool
  | data _ => false
  | separator => true

def cells : Row → List Text
  | data cs => cs
  | separator => []

def mapCells (f : List Text → List Text) : Row → Row
  | data cs => data (f cs)
  | separator => separator

/-- The display width of the cell in column `col`, zero where there is no such cell. -/
def cellWidth (col : Nat) (row : Row) : Nat :=
  (row.cells[col]?).elim 0 Text.displayWidth

/-- A data row has at least `n` cells; nothing is asked of a separator row. -/
def reaches (n : Nat) : Row → Bool
  | data cs => n ≤ cs.length
  | separator => true

@[simp] theorem isSeparator_mapCells (f : List Text → List Text) (row : Row) :
    (row.mapCells f).isSeparator = row.isSeparator := by
  cases row <;> rfl

@[simp] theorem kind_mapCells (f : List Text → List Text) (row : Row) :
    (row.mapCells f).kind = row.kind := by
  cases row <;> rfl

end Row

/-- `startLine` is the document line of row 0. -/
structure Table where
  columns : List Column := []
  rows : List Row := []
  startLine : Nat := 0
deriving DecidableEq

namespace Table

def empty : Table := {}

def rowCount (t : Table) : Nat := t.rows.length

def colCount (t : Table) : Nat := t.columns.length

def isEmpty (t : Table) : Bool := t.rows.isEmpty

def hasSeparator (t : Table) : Bool := t.rows.any Row.isSeparator

/-- The width of the shortest rule, `---`. -/
def ruleWidth : Nat := 3

/-- No column is narrower than this. -/
def minWidth (t : Table) : Nat := if t.hasSeparator then ruleWidth else 0

/-- The widest cell of column `col`. -/
def contentWidth (rows : List Row) (col : Nat) : Nat :=
  (rows.map (Row.cellWidth col)).foldr max 0

/-- The width that the rows ask of column `col`. -/
def fittedWidth (t : Table) (col : Nat) : Nat :=
  max (contentWidth t.rows col) t.minWidth

/-- Give every column the width that the rows ask of it. -/
def refit (t : Table) : Table :=
  { t with columns := t.columns.mapIdx fun j c => { c with width := t.fittedWidth j } }

@[simp] theorem rows_refit (t : Table) : t.refit.rows = t.rows := rfl

@[simp] theorem startLine_refit (t : Table) : t.refit.startLine = t.startLine := rfl

@[simp] theorem colCount_refit (t : Table) : t.refit.colCount = t.colCount := by
  simp [refit, colCount]

@[simp] theorem map_alignment_refit (t : Table) :
    t.refit.columns.map Column.alignment = t.columns.map Column.alignment := by
  apply List.ext_getElem <;> simp [refit]

/-- Widths depend on the rows alone, so fitting them twice changes nothing. -/
theorem refit_refit (t : Table) : t.refit.refit = t.refit := by
  have hwidth (j : Nat) : t.refit.fittedWidth j = t.fittedWidth j := rfl
  simp only [refit, List.mapIdx_mapIdx] at hwidth ⊢
  rfl

end Table

end PipeTable
