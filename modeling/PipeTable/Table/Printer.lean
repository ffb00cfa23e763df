import PipeTable.Table.Reader

/-! # Writing tables

Data rows look the same in both dialects: every cell is padded to the width of its column and
stands between bars with one space on either side. A rule is written per column in Markdown,
with colons for the alignment, and as one line of dashes with crossings in Org.
-/

namespace PipeTable

/-- The character at either end of a rule in Markdown. -/
def Alignment.marks : Alignment → Char × Char
  | .left => ('-', '-')
  | .center => (':', ':')
  | .right => ('-', ':')

/-- A cell of `width` display cells, the spaces around it and its closing bar. -/
def dataCellText (width : Nat) (value : Text) : Text :=
  ' ' :: Text.pad width value ++ [' ', bar]

/-- A rule over one column of `width` display cells, the spaces around it and its closing bar. -/
def ruleCellText (c : Column) (width : Nat) : Text :=
  let dashes := List.replicate (width - 2) '-'
  ' ' :: c.alignment.marks.1 :: dashes ++ [c.alignment.marks.2, ' ', bar]

/-- What follows the opening bar of a separator row. -/
def Dialect.ruleText (columns : List Column) (widths : List Nat) : Dialect → Text
  | markdown => (columns.zipWith ruleCellText widths).flatten
  | org =>
    if widths.isEmpty then []
    else ['+'].intercalate (widths.map fun w => List.replicate (w + 2) '-') ++ [bar]

namespace Table

/-- The widths of the written columns; a rule needs at least three dashes. -/
def renderWidths (t : Table) : List Nat :=
  t.columns.map fun c => max c.width t.minWidth

/-- The line that a row is written as, without indentation. -/
def rowText (t : Table) (d : Dialect) : Row → Text
  | .data cells => bar :: (t.renderWidths.zipWith dataCellText cells).flatten
  | .separator => bar :: d.ruleText t.columns t.renderWidths

/-- The written lines, `indent` in front of each. -/
def renderLines (t : Table) (d : Dialect) (indent : Text) : List Text :=
  t.rows.map fun r => indent ++ t.rowText d r

def render (t : Table) (d : Dialect) (indent : Text) : Text :=
  Text.joinLines (t.renderLines d indent)

end Table

/-- The text of a new table of empty cells. -/
def createTable (rows cols : Nat) (d : Dialect) (indent : Text) : Text :=
  (Table.withSize rows cols).render d indent

end PipeTable
