import PipeTable.Document.Position
import PipeTable.Table.Reader

/-! # Cursor stops

Every data cell of a table has a stop, the range of characters between its bars, and every
separator row has a placeholder. Ranges come from the text of the row where it is known. A bar
that the text does not have is put where it would stand if the cells up to it were written
with the widths of their columns.
-/

namespace PipeTable

/-- `cellStart` is just after the opening bar, `start` is where the content begins and the
cursor goes, `close` is where the closing bar stands. -/
structure Span where
  cellStart : Nat
  start : Nat
  close : Nat
deriving DecidableEq

/-- `prev` and `next` are the indices of the neighbours in the list of all stops. -/
structure Stop where
  line : Nat
  row : Nat
  col : Nat
  span : Span
  isSeparator : Bool
  prev : Option Nat
  next : Option Nat
deriving DecidableEq

namespace Span

/-- The span between two bars of a line. One space before the content belongs to the layout;
past the end of the line the content would follow such a space. -/
def between (line : Text) (opening closing : Nat) : Span :=
  let first := opening + 1
  let start :=
    match line.drop first with
    | [] => min (first + 1) closing
    | c :: _ => if c = ' ' ∧ first < closing then first + 1 else first
  ⟨first, start, closing⟩

/-- The indices of the bars of a line whose first character has the index `n`. -/
def barsFrom (n : Nat) : Text → List Nat
  | [] => []
  | c :: rest => if c = bar then n :: barsFrom (n + 1) rest else barsFrom (n + 1) rest

def bars (line : Text) : List Nat := barsFrom 0 line

/-- The spans of cells that take `sizes` characters when written. The bars of the line come
first; after the last of them the text goes on to its end, and from there on, starting at
`opening`, bars are put where the written cells would have them. -/
def spans (line : Text) : List Nat → Nat → List Nat → List Span
  | _, _, [] => []
  | found, opening, size :: sizes =>
    let opening := found.head?.getD opening
    let closing :=
      match found with
      | [] => opening + size + 1
      | [_] => line.length
      | _ :: b :: _ => b
    between line opening closing :: spans line found.tail closing sizes

theorem length_spans (line : Text) (found : List Nat) (opening : Nat) (sizes : List Nat) :
    (spans line found opening sizes).length = sizes.length := by
  induction sizes generalizing found opening with
  | nil => rfl
  | cons size sizes ih => simp [spans, ih]

end Span

namespace Stop

def holds (s : Stop) (character : Nat) : Bool :=
  s.span.cellStart ≤ character && character ≤ s.span.close

def position (s : Stop) : Position := ⟨s.line, s.span.start⟩

def address (s : Stop) : CellAddress := ⟨s.row, s.col⟩

def isAt (s : Stop) (p : Position) : Bool :=
  s.line == p.line && s.holds p.character

/-- The placeholder of a separator row covers the first character of its line. -/
def placeholder (line row : Nat) : Stop :=
  ⟨line, row, 0, ⟨0, 0, 1⟩, true, none, none⟩

def ofSpan (line row col : Nat) (span : Span) : Stop :=
  ⟨line, row, col, span, false, none, none⟩

/-- Characters between the bars of a written cell. -/
def writtenSize (c : Column) (value : Text) : Nat :=
  value.length + (c.width - Text.displayWidth value) + 2

/-- The stops of row `row` of a table, which stands on line `line`; without a text its spans are
those of an empty one. -/
def ofRow (t : Table) (line row : Nat) (text : Option Text) : Row → List Stop
  | .separator => [placeholder line row]
  | .data cells =>
    let text := text.getD []
    let sizes := t.columns.mapIdx fun j c => writtenSize c (cells.getD j [])
    (Span.spans text (Span.bars text) 0 sizes).mapIdx (ofSpan line row)

/-- Tell every stop its neighbours. -/
def linked (stops : List Stop) : List Stop :=
  stops.mapIdx fun i s =>
    { s with
      prev := if i = 0 then none else some (i - 1)
      next := if i + 1 < stops.length then some (i + 1) else none }

/-- All stops of a table in the order of rows and columns; row `i` stands on line `place i`, and
`lines` are the texts of the rows as far as they are known. -/
def ofTable (place : Nat → Nat) (t : Table) (lines : List Text) : List Stop :=
  linked (t.rows.mapIdx fun i r => ofRow t (place i) i lines[i]? r).flatten

end Stop

end PipeTable
