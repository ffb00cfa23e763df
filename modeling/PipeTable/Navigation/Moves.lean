import PipeTable.Navigation.Stop

/-! # Moving between cells

Questions about a position are answered from the stops of a table. The stop that holds the
position decides; a position that no stop holds belongs to the next cell on its line, and to
the first one after the last. Moves skip the placeholders of separator rows.
-/

namespace PipeTable

structure CellMap where
  stops : List Stop
deriving DecidableEq

namespace CellMap

/-- The cells of a table whose rows read as `lines` and stand on the lines `place`; rows without
a text are estimated from the widths of the columns. -/
def placed (place : Nat → Nat) (t : Table) (lines : List Text) : CellMap :=
  ⟨Stop.ofTable place t lines⟩

/-- The cells of a table that may begin on any line. -/
abbrev ofTable (t : Table) (lines : List Text) : CellMap := placed (lineAfter t.startLine) t lines

/-- The cells of a table in a document. A document has no more lines than there are numbers for
them, so here lines are counted without an end. -/
abbrev inDocument (t : Table) (lines : List Text) : CellMap := placed (t.startLine + ·) t lines

def indexAt (m : CellMap) (p : Position) : Option Nat :=
  m.stops.findIdx? fun s => s.isAt p

/-- The stop that holds a position. -/
def stopAt (m : CellMap) (p : Position) : Option Stop :=
  m.stops.find? fun s => s.isAt p

/-- The data cells of a line. -/
def cellsOnLine (m : CellMap) (line : Nat) : List Stop :=
  m.stops.filter fun s => s.line == line && !s.isSeparator

/-- The first data cell of the line that starts after the position, or the first of all. -/
def nearest (m : CellMap) (p : Position) : Option Stop :=
  let cells := m.cellsOnLine p.line
  (cells.find? fun s => p.character < s.span.start).or cells.head?

/-- The cell that a position belongs to. -/
def cellAt (m : CellMap) (p : Position) : Option CellAddress :=
  match (m.stopAt p).or (m.nearest p) with
  | some s => if s.isSeparator then none else some s.address
  | none => none

/-- Where the cursor goes in a cell. -/
def positionOf (m : CellMap) (a : CellAddress) : Option Position :=
  (m.stops.find? fun s => !s.isSeparator && s.row == a.row && s.col == a.col).map Stop.position

def cellAfter (m : CellMap) (i : Nat) : Option Stop :=
  (m.stops.drop (i + 1)).find? fun s => !s.isSeparator

def cellBefore (m : CellMap) (i : Nat) : Option Stop :=
  (m.stops.take i).reverse.find? fun s => !s.isSeparator

/-- The start of the next cell, or of the nearest one from outside all stops. -/
def nextCell (m : CellMap) (p : Position) : Option Position :=
  match m.indexAt p with
  | some i => (m.cellAfter i).map Stop.position
  | none => (m.nearest p).map Stop.position

/-- The start of the previous cell, or of the nearest one from outside all stops. -/
def previousCell (m : CellMap) (p : Position) : Option Position :=
  match m.indexAt p with
  | some i => (m.cellBefore i).map Stop.position
  | none => (m.nearest p).map Stop.position

/-- The position is in a data cell, and no data cell follows. -/
def isLastCell (m : CellMap) (p : Position) : Bool :=
  match m.indexAt p, m.stopAt p with
  | some i, some s => !s.isSeparator && (m.cellAfter i).isNone
  | _, _ => false

def isOnSeparator (m : CellMap) (p : Position) : Bool :=
  (m.stopAt p).any Stop.isSeparator

/-- The cell of a line that a character belongs to: the one that holds it, else the last one
that starts before it, else the first. -/
def columnOnLine (m : CellMap) (line character : Nat) (first : Stop) (all : List Stop) : Stop :=
  let before := all.filter fun s => s.span.cellStart ≤ character
  ((m.stopAt ⟨line, character⟩).or before.getLast?).getD first

def offLine (stops : List Stop) (line : Nat) : List Stop := stops.filter fun s => s.line != line

theorem length_offLine_lt {stops : List Stop} {s : Stop} (h : s ∈ stops) :
    (offLine stops s.line).length < stops.length :=
  List.length_filter_lt_length_iff_exists.2 ⟨s, h, by simp⟩

/-- The cell for a character in the first row that is no separator, on `line` or one of the
lines `below` it. A line without stops ends the table. `left` are the stops on lines that have not
been passed. -/
def nextRowFrom (m : CellMap) (below : Nat → Nat) (character : Nat) (left : List Stop)
    (line : Nat) : Option Position :=
  match _h : left.filter fun s => s.line == line with
  | [] => none
  | first :: others =>
    if first.isSeparator then
      m.nextRowFrom below character (offLine left line) (below line)
    else some (m.columnOnLine line character first (first :: others)).position
termination_by left.length
decreasing_by
  have hfirst : first ∈ left.filter fun s => s.line == line := by rw [_h]; exact .head _
  obtain ⟨hmem, hline⟩ := List.mem_filter.1 hfirst
  exact beq_iff_eq.1 hline ▸ length_offLine_lt hmem

/-- The same column in the next data row. -/
def nextRowBy (m : CellMap) (below : Nat → Nat) (p : Position) : Option Position :=
  m.nextRowFrom below p.character m.stops (below p.line)

abbrev nextRow (m : CellMap) (p : Position) : Option Position := m.nextRowBy (lineAfter · 1) p

abbrev nextRowInDocument (m : CellMap) (p : Position) : Option Position := m.nextRowBy (· + 1) p

end CellMap

/-- The positions that a move leads to one after the other, `n` of them at most. -/
def walk (move : Position → Option Position) : Nat → Position → List Position
  | 0, _ => []
  | n + 1, p =>
    match move p with
    | some q => q :: walk move n q
    | none => []

end PipeTable
