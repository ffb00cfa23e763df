import PipeTable.Dialect
import PipeTable.Table.Operations
import PipeTable.Text.Lines

/-! # Reading tables

A table line starts, after its blanks, with a bar. Both dialects read a block of text line by
line: a line that is a separator for the dialect adds a separator row, any other table line a
data row, and all remaining lines are skipped. A data line without its closing bar is read as
if it had one.
-/

namespace PipeTable

def bar : Char := '|'

def startsWithBar (line : Text) : Bool :=
  line.head? == some bar

/-- A line belongs to a table when its first character that is not blank is a bar. -/
def isTableLine (line : Text) : Bool :=
  startsWithBar (Text.trimStart line)

/-- Drop one bar at the start of a line, if there is one. -/
def dropOpening (line : Text) : Text :=
  if line.head? = some bar then line.tail else line

/-- Drop one bar at the end of a line, if there is one. -/
def dropClosing (line : Text) : Text :=
  if line.getLast? = some bar then line.dropLast else line

/-- The trimmed cells of a line, with or without a bar at either end. -/
def splitCells (line : Text) : List Text :=
  (Text.fields bar (dropClosing (dropOpening line))).map Text.trim

/-- The alignment that a cell of a rule encodes, if it has at least three characters. -/
def cellAlignment (cell : Text) : Option Alignment :=
  if cell.length < 3 then none
  else if cell.getLast? = some ':' then
    if cell.head? = some ':' then some .center else some .right
  else some .left

namespace Dialect

/-- In Markdown a separator starts, blanks apart, with `|-` or `|:-`; in Org its second
character is a dash. -/
def isSeparator : Dialect → Text → Bool
  | markdown, line =>
    let solid := Text.compact line
    "|-".toList.isPrefixOf solid || "|:-".toList.isPrefixOf solid
  | org, line => line.tail.head? == some '-'

end Dialect

namespace Table

/-- Give each column the alignment that its cell encodes, where there is one. -/
def alignAs (t : Table) (cells : List Text) : Table :=
  { t with columns := t.columns.mapIdx fun j c =>
      { c with alignment := (cells[j]?.bind cellAlignment).getD c.alignment } }

/-- Append the separator row that `line` writes. -/
def addSeparator (t : Table) : Dialect → Text → Table
  | .markdown, line => (t.addRow .separator []).alignAs (splitCells line)
  | .org, _ => t.addRow .separator []

def addLine (d : Dialect) (t : Table) (line : Text) : Table :=
  if d.isSeparator line then t.addSeparator d line else t.addRow .data (splitCells line)

/-- The trimmed table lines of a text. -/
def tableLines (s : Text) : List Text :=
  ((Text.lines s).map Text.trim).filter startsWithBar

/-- Read a block of text. Only the empty text is no table. -/
def parse (d : Dialect) (s : Text) : Option Table :=
  if s.isEmpty then none else some ((tableLines s).foldl (addLine d) empty).refit

end Table

end PipeTable
