import PipeTable.Proofs.Command.Anchor
import PipeTable.Proofs.Table.Reading

/-! # Cells as the document has them

Reading a table line and finding the spans in it take different ways: the one trims the line,
drops a bar at either end and cuts at the bars that are left, the other counts the bars of the
line as it stands and takes what follows the last of them as the content of one more cell. Both
come to the same cells. What the document shows in the span of a cell, blanks at its ends apart,
is the value of the cell, also where a row is indented, too short or not closed yet.
-/

namespace PipeTable

open Text

namespace Span

variable {line : Text} {s : Span}

/-- The part of a line that a span covers, as far as the line goes. -/
def textIn (line : Text) (s : Span) : Text :=
  (line.take s.close).drop s.cellStart

theorem textIn_between (line : Text) (opening closing : Nat) :
    (between line opening closing).textIn line = (line.take closing).drop (opening + 1) := rfl

theorem textIn_of_mem_spans_nil {sizes : List Nat} (h : s ∈ spans line [] line.length sizes) :
    s.textIn line = [] := by
  have hstart : line.length < s.cellStart := ((spans_ordered .nil nofun _ _).1 s h).1
  rw [textIn, List.drop_eq_nil_iff, List.length_take]
  omega

theorem textIn_between_append (front f rest : Text) :
    (between (front ++ bar :: f ++ rest) front.length (front ++ bar :: f).length).textIn
      (front ++ bar :: f ++ rest) = f := by
  rw [textIn_between, List.take_left]
  simp [List.drop_append]

/-- The spans of a line show its pieces between the bars: the last piece, which no bar needs to
close, has a span of its own, and the spans behind it are empty. -/
theorem textIn_spans {front body : Text} {opening : Nat} {sizes : List Nat} {j : Nat}
    (h : (spans (front ++ bar :: body) (barsFrom front.length (bar :: body)) opening
      sizes)[j]? = some s) :
    s.textIn (front ++ bar :: body) = (fields bar body).getD j [] := by
  induction body using field_induction bar generalizing front opening sizes j with
  | last f hf =>
    have hfound : barsFrom front.length (bar :: f) = [front.length] := by
      rw [barsFrom, if_pos rfl, barsFrom_eq_nil hf]
    rw [hfound] at h
    rw [fields_of_not_mem hf]
    cases sizes with
    | nil => cases h
    | cons size sizes =>
      -- the only bar opens a cell that goes on to the end of the line
      cases j with
      | zero =>
        obtain rfl := Option.some.inj h
        simpa using textIn_between_append front f []
      | succ j =>
        change (spans _ [] (front ++ bar :: f).length sizes)[j]? = some s at h
        exact textIn_of_mem_spans_nil (List.mem_of_getElem? h)
  | field f rest hf ih =>
    have hfound : barsFrom front.length (bar :: (f ++ bar :: rest)) =
        front.length :: barsFrom (front ++ bar :: f).length (bar :: rest) := by
      rw [barsFrom, if_pos rfl, barsFrom_append, barsFrom_eq_nil hf, List.nil_append,
        List.length_append, List.length_cons, Nat.add_right_comm, Nat.add_assoc]
    have hline : front ++ bar :: (f ++ bar :: rest) = front ++ bar :: f ++ bar :: rest := by
      simp
    rw [hfound, hline] at h
    rw [hline, fields_append hf]
    -- behind the first piece the line reads as one with a longer front
    cases sizes with
    | nil => cases h
    | cons size sizes =>
      cases j with
      | zero =>
        obtain rfl := Option.some.inj h
        exact textIn_between_append front f (bar :: rest)
      | succ j => exact ih h

end Span

namespace CellMap

/-- The map of cells shows the table in the lines: it has one row for each line and one stop for
each cell, and the text that the line has there, trimmed, is the value of the cell. -/
structure Shows (t : Table) (lines : List Text) (m : CellMap) : Prop where
  rowCount : t.rowCount = lines.length
  cell : ∀ (row col : Nat) (cells : List Text), t.rows[row]? = some (.data cells) →
    col < t.colCount → ∃! s, s ∈ m.cells ∧ s.address = ⟨row, col⟩
  text : ∀ s ∈ m.cells, ∃ line, lines[s.row]? = some line ∧
    t.cell s.row s.col = .ok (trim (s.span.textIn line))

theorem existsUnique_cell {t : Table} {a : CellAddress} (ha : a ∈ t.cellAddresses)
    (lines : List Text) : ∃! s, s ∈ (inDocument t lines).cells ∧ s.address = a := by
  obtain ⟨s, hs, rfl⟩ := exists_cell_inDocument ha lines
  refine ⟨s, ⟨hs, rfl⟩, fun u hu => ?_⟩
  exact (ordered_inDocument t lines).eq_of_address (mem_cells.1 hu.1).1 (mem_cells.1 hs).1 hu.2

/-- Where a data row is read from a line, the span of a cell shows the value of the cell. -/
theorem trim_textIn {t : Table} {d : Dialect} {lines : List Text} {line : Text}
    {cells : List Text} {s : Stop} (hs : s ∈ (inDocument t lines).cells)
    (hr : t.rows[s.row]? = some (.data cells)) (hline : lines[s.row]? = some line)
    (htable : isTableLine line = true) (hread : Table.ReadAs d (trim line) (.data cells)) :
    trim (s.span.textIn line) = cells.getD s.col [] := by
  obtain ⟨lead, body, hlead, rfl⟩ := exists_bar_of_tableLine htable
  have hspan := Stop.getElem?_rowSpans_of_mem (mem_cells.1 hs).1 hr
  have hbars : Span.bars (lead ++ bar :: body) = Span.barsFrom lead.length (bar :: body) := by
    rw [Span.bars, Span.barsFrom_append, Span.barsFrom_eq_nil hlead.bar_not_mem, Nat.zero_add,
      List.nil_append]
  rw [hline, Stop.rowSpans, Option.getD_some, hbars] at hspan
  rw [Span.textIn_spans hspan, hread.getD_cells, getD_splitCells hlead]

theorem shows_of_parse {d : Dialect} {lines : List Text} {t : Table}
    (hnew : ∀ l ∈ lines, '\n' ∉ l) (hrun : ∀ l ∈ lines, isTableLine l = true)
    (ht : Table.parse d (joinLines lines) = some t) (start : Nat) :
    (inDocument { t with startLine := start } lines).Shows t lines where
  rowCount := Table.rowCount_of_parse_run hnew hrun ht
  cell row col cells hr hcol :=
    existsUnique_cell (Table.mem_cellAddresses.2 ⟨⟨cells, hr⟩, hcol⟩) lines
  text s hs := by
    obtain ⟨cells, hr, hcol⟩ := exists_data_of_mem_cells hs
    obtain ⟨hrow, hr'⟩ := List.getElem?_eq_some_iff.1 hr
    have hcount := Table.rowCount_of_parse_run hnew hrun ht
    have hlt : s.row < lines.length := Nat.lt_of_lt_of_eq hrow hcount
    have hline := List.getElem?_eq_getElem hlt
    have hread := Table.readAs_of_parse ht
    rw [tableLines_joinLines_run hnew hrun, List.forall₂_map_left_iff] at hread
    have hcells : Table.ReadAs d (trim lines[s.row]) (.data cells) := hr' ▸ hread.get hlt hrow
    have hlen := (Table.wellFormed_of_parse ht).rectangular cells (List.mem_of_getElem? hr)
    have hvalue : cells[s.col]? = some (cells.getD s.col []) := by
      have hcol' : s.col < cells.length := Nat.lt_of_lt_of_eq hcol hlen.symm
      rw [List.getD_eq_getElem _ _ hcol', List.getElem?_eq_getElem hcol']
    refine ⟨lines[s.row], hline, Table.cell_eq_ok_iff.2 ⟨hcol, .inr ⟨cells, hr, ?_⟩⟩⟩
    rw [hvalue, trim_textIn hs hr hline (hrun _ (List.getElem_mem hlt)) hcells]

end CellMap

/-- The table around a table line is loaded from its lines, and its cells are those that the
document shows there. -/
theorem exists_shown {doc : List Text} {i : Nat} {l : Text} (hdoc : ∀ l ∈ doc, '\n' ∉ l)
    (hl : doc[i]? = some l) (htable : isTableLine l = true) (d : Dialect) :
    ∃ region lines t, Region.locate doc i = some region ∧ region.linesOf doc = .ok lines ∧
      Table.parse d (joinLines lines) = some t ∧
      (CellMap.inDocument { t with startLine := region.startLine } lines).Shows t lines := by
  obtain ⟨f, hload⟩ := Focus.exists_load_of_tableLine hl htable d
  obtain ⟨pre, rest, -, hb, hdoc', -⟩ := Focus.exists_between_of_load hdoc hload
  obtain ⟨region, lines, t, hregion, hlines, ht, rfl⟩ := Focus.load_eq_ok_some_iff.1 hload
  have hnew : ∀ l ∈ lines, '\n' ∉ l := fun l hl => hdoc l (by simp [hdoc', hl])
  exact ⟨region, lines, t, hregion, hlines, ht,
    CellMap.shows_of_parse hnew hb.run.tableLines ht region.startLine⟩

/-- An indented row that is not closed, a row that is too short and one that is only a bar. -/
theorem exists_shown_unfinished :
    ∃ region lines t, Region.locate ["\t|表| b".toList, "| c".toList, "|".toList] 2 = some region ∧
      region.linesOf ["\t|表| b".toList, "| c".toList, "|".toList] = .ok lines ∧
      Table.parse .org (joinLines lines) = some t ∧
      (CellMap.inDocument { t with startLine := region.startLine } lines).Shows t lines :=
  exists_shown (by decide) rfl (by decide) .org

end PipeTable
