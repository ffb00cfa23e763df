import PipeTable.Table.Basic

/-! # Faults

What an operation with a bad argument reports: the index and the bound that it missed, or the
separator row that it would have written to. `ragged` is a grid whose data rows have too few
cells, `noSuchLines` a range of lines that the document does not have, and `aboveTable` a cursor
line before the table.
-/

namespace PipeTable

inductive Fault where
  | rowIndex (row count : Nat)
  | columnIndex (col count : Nat)
  | rowInsertion (index count : Nat)
  | columnInsertion (index count : Nat)
  | separatorCell (row col : Nat)
  | ragged
  | noSuchLines
  | aboveTable
deriving DecidableEq

namespace Fault

/-- The wording of a fault; the last three have none. -/
def message : Fault → Option String
  | rowIndex row count => some s!"row index {row} out of range ({count} rows)"
  | columnIndex col count => some s!"column index {col} out of range ({count} columns)"
  | rowInsertion index count => some s!"row insert index {index} out of range ({count} rows)"
  | columnInsertion index count =>
    some s!"column insert index {index} out of range ({count} columns)"
  | separatorCell row col => some s!"cannot set cell ({row}, {col}): row {row} is a separator"
  | ragged | noSuchLines | aboveTable => none

end Fault

namespace Table

def checkRow (t : Table) (row : Nat) : Except Fault Unit :=
  if row < t.rowCount then .ok () else .error (.rowIndex row t.rowCount)

def checkColumn (t : Table) (col : Nat) : Except Fault Unit :=
  if col < t.colCount then .ok () else .error (.columnIndex col t.colCount)

/-- Every data row has at least `n` cells. -/
def checkReach (t : Table) (n : Nat) : Except Fault Unit :=
  if t.rows.all (Row.reaches n) then .ok () else .error .ragged

end Table

end PipeTable
