import PipeTable.Proofs.Table.Written
import PipeTable.Proofs.Text.Content
import Mathlib.Data.List.Basic

/-! # The content of a table

A line that is read as a data row leaves all its content in cells, one that is read as a
separator row leaves nothing. Written lines hold the content of the cells and no other, so all
that reading and writing a table can lose is what stood on separator lines.
-/

namespace PipeTable

open Text

/-- What a trimmed table line tells a table: all its content, unless it is a separator. -/
def lineContent (d : Dialect) (line : Text) : Text :=
  if d.isSeparator line then [] else content line

theorem isContent_bar : isContent bar = false := by decide

theorem content_dropOpening (line : Text) : content (dropOpening line) = content line := by
  unfold dropOpening
  split
  · next h =>
    obtain ⟨rest, rfl⟩ := List.head?_eq_some_iff.1 h
    rw [List.tail_cons, content_cons_layout isContent_bar]
  · rfl

theorem content_dropClosing (line : Text) : content (dropClosing line) = content line := by
  unfold dropClosing
  split
  · next h =>
    obtain ⟨front, rfl⟩ := List.getLast?_eq_some_iff.1 h
    rw [List.dropLast_concat, content_append, content_cons_layout isContent_bar, content_nil,
      List.append_nil]
  · rfl

theorem flatMap_content_splitCells (line : Text) :
    (splitCells line).flatMap content = content line := by
  rw [splitCells, List.flatMap_map]
  simp only [content_trim]
  rw [flatMap_content_fields isContent_bar, content_dropClosing, content_dropOpening]

namespace Row

def content (r : Row) : Text := r.cells.flatMap Text.content

theorem content_mapCells_append (r : Row) (n : Nat) :
    (r.mapCells (· ++ List.replicate n [])).content = r.content := by
  cases r with
  | separator => rfl
  | data vs => simp [content, mapCells, cells]

end Row

namespace Table

variable {t : Table} {d : Dialect}

def content (t : Table) : Text := t.rows.flatMap Row.content

theorem content_grownFor (t : Table) (values : List Text) :
    (t.grownFor values).content = t.content := by
  rw [content, grownFor, rows_addColumns, List.flatMap_map]
  simp only [Row.content_mapCells_append]
  rfl

theorem content_addRow_separator (t : Table) (values : List Text) :
    (t.addRow .separator values).content = t.content := by
  rw [content, rows_addRow, List.flatMap_append]
  simp only [List.flatMap_singleton]
  rw [← content, content_grownFor]
  exact List.append_nil _

theorem content_addRow_data {values : List Text} (h : values ≠ []) :
    (t.addRow .data values).content = t.content ++ values.flatMap Text.content := by
  obtain ⟨n, hfit⟩ := fitCells_grownFor (t := t) h
  rw [content, rows_addRow, List.flatMap_append]
  simp only [List.flatMap_singleton]
  rw [← content, content_grownFor, hfit]
  simp [Row.content, Row.cells]

theorem content_addLine (t : Table) (d : Dialect) (line : Text) :
    (t.addLine d line).content = t.content ++ lineContent d line := by
  unfold addLine lineContent
  split
  · rw [List.append_nil]
    cases d <;> exact content_addRow_separator t []
  · rw [content_addRow_data (splitCells_ne_nil line), flatMap_content_splitCells]

theorem content_addLines (t : Table) (d : Dialect) (ls : List Text) :
    (ls.foldl (addLine d) t).content = t.content ++ ls.flatMap (lineContent d) := by
  induction ls generalizing t with
  | nil => simp
  | cons l ls ih => rw [List.foldl_cons, ih, content_addLine, List.append_assoc]; rfl

/-- A table that is read holds the content of its lines, separators apart. -/
theorem content_of_parse {s : Text} (h : parse d s = some t) :
    t.content = (tableLines s).flatMap (lineContent d) := by
  rw [eq_of_parse h]
  exact content_addLines empty d _

theorem content_paddedCell (width : Nat) (value : Text) :
    Text.content (paddedCell width value) = Text.content value := by
  rw [← content_trim, trim_paddedCell, content_trim]

theorem content_closedCells (ps : List Text) :
    Text.content (closedCells ps) = ps.flatMap Text.content := by
  induction ps with
  | nil => rfl
  | cons p ps ih =>
    have hcons : closedCells (p :: ps) = p ++ bar :: closedCells ps := by simp [closedCells]
    rw [hcons, content_append, content_cons_layout isContent_bar, ih, List.flatMap_cons]

theorem flatMap_content_paddedCells {widths : List Nat} {cells : List Text}
    (h : cells.length ≤ widths.length) :
    (widths.zipWith paddedCell cells).flatMap Text.content = cells.flatMap Text.content := by
  induction cells generalizing widths with
  | nil => simp
  | cons v vs ih =>
    cases widths with
    | nil => simp at h
    | cons w ws =>
      rw [List.zipWith_cons_cons, List.flatMap_cons, content_paddedCell,
        ih (Nat.le_of_succ_le_succ h), List.flatMap_cons]

theorem content_rowText (ht : t.WellFormed) {r : Row} (hr : r ∈ t.rows) :
    Text.content (t.rowText d r) = r.content := by
  cases r with
  | data cells =>
    have hlen : cells.length = t.renderWidths.length := by
      rw [length_renderWidths, ht.rectangular cells hr]
    rw [rowText_data, content_cons_layout isContent_bar, content_closedCells,
      flatMap_content_paddedCells (Nat.le_of_eq hlen)]
    rfl
  | separator =>
    have hlayout : ∀ c ∈ ['|', ' ', '-', ':', '+'], isContent c = false := by
      simp [isContent, isBlank_space]
    exact content_eq_nil_iff.2 fun c hc => hlayout c (mem_rowText_separator hc)

theorem content_render (ht : t.WellFormed) {indent : Text} (hblank : Blank indent) :
    Text.content (t.render d indent) = t.content := by
  rw [render, content_joinLines, renderLines, List.flatMap_map]
  apply List.flatMap_congr
  intro r hr
  rw [content_append, content_of_blank hblank, content_rowText ht hr, List.nil_append]

end Table

end PipeTable
