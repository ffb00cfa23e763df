import PipeTable.Proofs.Navigation.Moves

/-! # Cells of a written table

In a written table every cell stands between two bars of its line, and the cursor of a cell goes
two characters behind the first of them, past the bar and the space that follows it.
-/

namespace PipeTable

open Text

/-- The content of cell `a` starts at `p` in a written table of these lines, the first of which
is line `start` of the document: two characters behind the opening bar of the cell. -/
def IsContentStart (start : Nat) (lines : List Text) (a : CellAddress) (p : Position) : Prop :=
  ∃ line opening, lines[a.row]? = some line ∧ (Span.bars line)[a.col]? = some opening ∧
    p = ⟨start + a.row, opening + 2⟩

section Row

variable {t : Table} {d : Dialect} {indent : Text} {cells : List Text}

/-- Where bar `j` of a written data row stands. -/
def Table.barOffset (t : Table) (indent : Text) (cells : List Text) (j : Nat) : Nat :=
  Span.barPlace indent (t.renderWidths.zipWith paddedCell cells) j

theorem Table.length_paddedCells (hlen : cells.length = t.colCount) :
    (t.renderWidths.zipWith paddedCell cells).length = t.colCount := by
  rw [List.length_zipWith, length_renderWidths, hlen, Nat.min_self]

theorem Table.bars_rowText_data (hblank : Blank indent) (hcells : ∀ v ∈ cells, bar ∉ v)
    (hlen : cells.length = t.colCount) {j : Nat} (hj : j ≤ t.colCount) :
    (Span.bars (indent ++ t.rowText d (.data cells)))[j]? = some (t.barOffset indent cells j) := by
  rw [rowText_data, Span.bars_written hblank.bar_not_mem (bar_not_mem_paddedCells hcells),
    length_paddedCells hlen, List.getElem?_map, List.getElem?_range (Nat.lt_succ_of_le hj)]
  rfl

/-- No character of a cell takes two display cells. -/
def Narrow (cells : List Text) : Prop := ∀ v ∈ cells, displayWidth v = v.length

theorem Table.WellFormed.renderWidths_eq (ht : t.WellFormed) :
    t.renderWidths = t.columns.map Column.width := by
  refine List.map_congr_left fun c hc => ?_
  obtain ⟨j, hj⟩ := List.getElem?_of_mem hc
  rw [ht.fitted j c hj, fittedWidth]
  exact Nat.max_eq_left (Nat.le_max_right _ _)

theorem Table.WellFormed.map_length_paddedCells (ht : t.WellFormed)
    (hr : Row.data cells ∈ t.rows) (hnarrow : Narrow cells) :
    (t.renderWidths.zipWith paddedCell cells).map List.length = t.renderWidths.map (· + 2) := by
  have hlen := ht.rectangular cells hr
  rw [ht.renderWidths_eq]
  apply List.ext_getElem
  · simp [hlen, colCount]
  · intro j hj hj'
    rw [List.length_map, List.length_map] at hj'
    have hcell : j < cells.length := hlen.symm ▸ hj'
    have hwidth : cells[j].length ≤ t.columns[j].width := by
      have hle := cellWidth_le_contentWidth hr j
      rw [Row.cellWidth, Row.cells, List.getElem?_eq_getElem hcell, Option.elim_some,
        hnarrow _ (List.getElem_mem hcell)] at hle
      rw [ht.fitted j _ (List.getElem?_eq_getElem hj')]
      exact Nat.le_trans hle (Nat.le_max_left _ _)
    simp only [List.getElem_map, List.getElem_zipWith, length_paddedCell,
      hnarrow _ (List.getElem_mem hcell)]
    omega

theorem Table.WellFormed.bars_rowText_eq (ht : t.WellFormed) (hblank : Blank indent)
    {others : List Text} (hcells : Row.data cells ∈ t.rows) (hothers : Row.data others ∈ t.rows)
    (hbar : ∀ v ∈ cells ++ others, bar ∉ v) (hnarrow : Narrow cells) (hnarrow' : Narrow others) :
    Span.bars (indent ++ t.rowText d (.data cells)) =
      Span.bars (indent ++ t.rowText d (.data others)) := by
  obtain ⟨hb, hb'⟩ := List.forall_mem_append.1 hbar
  have hlength : (t.renderWidths.zipWith paddedCell cells).map List.length =
      (t.renderWidths.zipWith paddedCell others).map List.length :=
    (ht.map_length_paddedCells hcells hnarrow).trans
      (ht.map_length_paddedCells hothers hnarrow').symm
  rw [rowText_data, rowText_data, Span.bars_written hblank.bar_not_mem (bar_not_mem_paddedCells hb),
    Span.bars_written hblank.bar_not_mem (bar_not_mem_paddedCells hb'),
    Span.barPlace_congr indent hlength, length_paddedCells (ht.rectangular cells hcells),
    length_paddedCells (ht.rectangular others hothers)]

theorem Stop.rowSpans_written (hindent : bar ∉ indent) (hcells : ∀ v ∈ cells, bar ∉ v)
    (hlen : cells.length = t.colCount) :
    rowSpans t (some (indent ++ t.rowText d (.data cells))) cells =
      (List.range t.colCount).map fun j =>
        ⟨t.barOffset indent cells j + 1, t.barOffset indent cells j + 2,
          t.barOffset indent cells (j + 1)⟩ := by
  have hcount := Table.length_paddedCells hlen
  rw [rowSpans, Option.getD_some, Table.rowText_data, Span.spans_written hindent
    (Table.bar_not_mem_paddedCells hcells), hcount]
  · rfl
  · intro p hp
    obtain ⟨w, -, v, -, rfl⟩ := exists_of_mem_zipWith hp
    rfl
  · rw [List.length_mapIdx, hcount]
    rfl

end Row

namespace CellMap

variable {t : Table} {d : Dialect} {indent : Text} {s : Stop}

/-- A cell of a written table lies between two neighbouring bars, its content behind a space. -/
theorem span_of_mem_written (ht : t.WellFormed) (hblank : Blank indent)
    (hcells : ∀ cells, Row.data cells ∈ t.rows → ∀ v ∈ cells, CellText v)
    (hs : s ∈ (inDocument t (t.renderLines d indent)).cells) :
    ∃ cells, t.rows[s.row]? = some (.data cells) ∧ s.col < t.colCount ∧
      s.span = ⟨t.barOffset indent cells s.col + 1, t.barOffset indent cells s.col + 2,
        t.barOffset indent cells (s.col + 1)⟩ := by
  obtain ⟨cells, hr, hcol⟩ := exists_data_of_mem_cells hs
  have hmem := List.mem_of_getElem? hr
  have hline : (t.renderLines d indent)[s.row]? =
      some (indent ++ t.rowText d (.data cells)) := by
    rw [Table.renderLines, List.getElem?_map, hr]
    rfl
  have hspans := Stop.rowSpans_written (d := d) hblank.bar_not_mem
    (fun v hv => (hcells cells hmem v hv).2.1) (ht.rectangular cells hmem)
  have hspan := Stop.getElem?_rowSpans_of_mem (mem_cells.1 hs).1 hr
  rw [hline, hspans, List.getElem?_map, List.getElem?_range hcol] at hspan
  exact ⟨cells, hr, hcol, (Option.some.inj hspan).symm⟩

theorem isContentStart_of_mem_written (ht : t.WellFormed) (hblank : Blank indent)
    (hcells : ∀ cells, Row.data cells ∈ t.rows → ∀ v ∈ cells, CellText v)
    (hs : s ∈ (inDocument t (t.renderLines d indent)).cells) :
    IsContentStart t.startLine (t.renderLines d indent) s.address s.position := by
  obtain ⟨cells, hr, hcol, hspan⟩ := span_of_mem_written ht hblank hcells hs
  have hmem := List.mem_of_getElem? hr
  refine ⟨indent ++ t.rowText d (.data cells), t.barOffset indent cells s.col, ?_, ?_, ?_⟩
  · rw [Table.renderLines, List.getElem?_map, Stop.address, hr]
    rfl
  · exact Table.bars_rowText_data hblank (fun v hv => (hcells cells hmem v hv).2.1)
      (ht.rectangular cells hmem) (Nat.le_of_lt hcol)
  · rw [Stop.position, hspan, (ordered_inDocument t _).line s (mem_cells.1 hs).1]
    rfl

end CellMap

end PipeTable
