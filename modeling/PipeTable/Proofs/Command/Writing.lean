import PipeTable.Proofs.Command.Focus
import PipeTable.Proofs.Document.Region
import PipeTable.Proofs.Navigation.Moves
import PipeTable.Proofs.Navigation.Written
import PipeTable.Proofs.Table.BlankEdit
import PipeTable.Proofs.Table.RoundTrip

/-! # Writing the table in focus

A command writes a table over the lines in focus. If the table is legible, its written lines are
a run of table lines again, in the same place and behind the same indentation, and from each of
them the next command has the same table in focus. The place where the cursor goes for a cell
lies in this very cell then.
-/

namespace PipeTable

open Text Region

namespace Focus

variable {d : Dialect} {doc pre rest : List Text} {f : Focus} {p : Position} {a : CellAddress}

/-- The table in focus comes back when it is written where it stands. -/
structure Sound (f : Focus) : Prop where
  wellFormed : f.table.WellFormed
  legible : f.table.Legible f.dialect
  rows_ne_nil : f.table.rows ≠ []
  startLine : f.table.startLine = f.region.startLine
  newline : '\n' ∉ f.indent

/-- The lines in focus are the table lines between the lines `pre` and `rest` of a document. -/
structure Between (pre : List Text) (f : Focus) (rest : List Text) : Prop where
  run : IsRun pre f.lines rest
  nonempty : f.lines ≠ []
  region : f.region = ⟨pre.length, pre.length + f.lines.length - 1⟩

theorem Between.withTable (h : f.Between pre rest) (t : Table) : (f.withTable t).Between pre rest :=
  ⟨h.run, h.nonempty, h.region⟩

/-- The lines in focus are a run of the document, one of them is the line that the table was
loaded from, and each of them gives a row at least. -/
theorem exists_run_of_load {line : Nat} (h : load d doc line = .ok (some f)) :
    ∃ pre rest row, f.Between pre rest ∧ doc = pre ++ (f.lines ++ rest) ∧
      f.lines.length ≤ f.table.rowCount ∧ row < f.lines.length ∧
      line = f.region.startLine + row := by
  obtain ⟨region, lines, t, hregion, hlines, ht, rfl⟩ := load_eq_ok_some_iff.1 h
  obtain ⟨pre, run, rest, i, hrun, hi, rfl, rfl, rfl⟩ := exists_run_of_locate hregion
  have hne : run ≠ [] := List.ne_nil_of_length_pos (Nat.zero_lt_of_lt hi)
  obtain rfl := Except.ok.inj ((linesOf_run hne).symm.trans hlines)
  have hcount := Table.length_le_rowCount_of_parse hrun.tableLines ht
  exact ⟨pre, rest, i, ⟨hrun, hne, rfl⟩, rfl, hcount, hi, rfl⟩

theorem exists_between_of_load (hdoc : ∀ l ∈ doc, '\n' ∉ l) {line : Nat}
    (h : load d doc line = .ok (some f)) :
    ∃ pre rest row, f.Between pre rest ∧ doc = pre ++ (f.lines ++ rest) ∧
      f.table.rowCount = f.lines.length ∧ row < f.table.rowCount ∧
      line = f.region.startLine + row := by
  obtain ⟨pre, rest, row, hb, hdoc', -, hrow, hline⟩ := exists_run_of_load h
  obtain ⟨region, lines, t, -, -, ht, rfl⟩ := load_eq_ok_some_iff.1 h
  have hnew : ∀ l ∈ lines, '\n' ∉ l := fun l hl => hdoc l (by simp [hdoc', hl])
  have hcount := Table.rowCount_of_parse_run hnew hb.run.tableLines ht
  exact ⟨pre, rest, row, hb, hdoc', hcount, Nat.lt_of_lt_of_eq hrow hcount.symm, hline⟩

theorem sound_of_load (hdoc : ∀ l ∈ doc, '\n' ∉ l) {line : Nat}
    (h : load d doc line = .ok (some f)) : f.Sound := by
  obtain ⟨hdialect, hwf, hlegible⟩ := legible_of_load h
  obtain ⟨pre, rest, row, -, -, -, hrow, -⟩ := exists_between_of_load hdoc h
  refine ⟨hwf, hdialect.symm ▸ hlegible, ?_, ?_, newline_not_mem_indent hdoc h⟩
  · exact List.ne_nil_of_length_pos (Nat.zero_lt_of_lt hrow)
  · obtain ⟨region, lines, t, -, -, -, rfl⟩ := load_eq_ok_some_iff.1 h
    rfl

theorem Sound.columns_ne_nil (h : f.Sound) : f.table.columns ≠ [] :=
  h.wellFormed.columned h.rows_ne_nil

theorem Sound.blankEdit (h : f.Sound) {u : Table} (hu : f.table.BlankEdit u) :
    (f.withTable u).Sound where
  wellFormed := hu.wellFormed h.wellFormed
  legible := hu.legible h.columns_ne_nil h.legible
  rows_ne_nil := hu.rows_ne_nil h.columns_ne_nil h.rows_ne_nil
  startLine := (hu.startLine_eq h.columns_ne_nil).trans h.startLine
  newline := h.newline

/-- The focus once its table has been written. -/
def written (f : Focus) : Focus :=
  { f with
    region := ⟨f.region.startLine, f.region.startLine + f.table.rowCount - 1⟩
    lines := f.table.renderLines f.dialect f.indent }

/-- Each row of the table in focus is written on one line, whether or not the table comes back. -/
structure Printable (f : Focus) : Prop where
  rows_ne_nil : f.table.rows ≠ []
  newline : '\n' ∉ f.indent
  cells : ∀ r ∈ f.table.rows, ∀ v ∈ r.cells, '\n' ∉ v

theorem Sound.printable (h : f.Sound) : f.Printable :=
  ⟨h.rows_ne_nil, h.newline, Table.newline_not_mem_cells h.legible.cellTexts⟩

theorem Printable.lines_render (h : f.Printable) : Text.lines f.render = f.written.lines :=
  Table.lines_render h.newline h.cells

theorem Sound.lines_render (h : f.Sound) : Text.lines f.render = f.written.lines :=
  h.printable.lines_render

theorem length_lines_written (f : Focus) : f.written.lines.length = f.table.rowCount :=
  List.length_map _

theorem Sound.indent_written (h : f.Sound) : f.written.indent = f.indent :=
  Table.leadingBlanks_headD_renderLines f.blank_indent h.rows_ne_nil

theorem Sound.render_written (h : f.Sound) : f.written.render = f.render := by
  rw [render, h.indent_written]
  rfl

theorem Sound.written (h : f.Sound) : f.written.Sound where
  wellFormed := h.wellFormed
  legible := h.legible
  rows_ne_nil := h.rows_ne_nil
  startLine := h.startLine
  newline := h.indent_written.symm ▸ h.newline

theorem Between.startLine (h : f.Between pre rest) : f.region.startLine = pre.length := by
  rw [h.region]

theorem Between.written (h : f.Between pre rest) (hf : f.Sound) : f.written.Between pre rest where
  run := h.run.replace fun _ hl => Table.isTableLine_of_mem_renderLines f.blank_indent hl
  nonempty := by
    rw [← List.length_pos_iff, length_lines_written]
    exact List.length_pos_iff.2 hf.rows_ne_nil
  region := by
    rw [length_lines_written, ← h.startLine]
    rfl

theorem Between.take_drop (h : f.Between pre rest) :
    (pre ++ (f.lines ++ rest)).take f.region.startLine = pre ∧
      (pre ++ (f.lines ++ rest)).drop (f.region.endLine + 1) = rest := by
  rw [h.region, List.take_left, drop_run h.nonempty]
  exact ⟨rfl, rfl⟩

theorem Between.getElem?_line (h : f.Between pre rest) {lines : List Text} {row : Nat}
    (hrow : row < lines.length) :
    (pre ++ (lines ++ rest))[f.region.startLine + row]? = lines[row]? := by
  rw [h.startLine, List.getElem?_append_right (Nat.le_add_right _ _), Nat.add_sub_cancel_left,
    List.getElem?_append_left hrow]

theorem Between.apply_printable (h : f.Between pre rest) (hf : f.Printable)
    (cursor : Option Position) :
    (f.replace cursor).apply (pre ++ (f.lines ++ rest)) =
      .ok (pre ++ (f.written.lines ++ rest)) := by
  rw [← hf.lines_render]
  exact Replacement.apply_run h.nonempty h.region rest

theorem Between.apply_replace (h : f.Between pre rest) (hf : f.Sound) (cursor : Option Position) :
    (f.replace cursor).apply (pre ++ (f.lines ++ rest)) =
      .ok (pre ++ (f.written.lines ++ rest)) :=
  h.apply_printable hf.printable cursor

theorem Between.load_written (h : f.Between pre rest) (hf : f.Sound) {row : Nat}
    (hrow : row < f.table.rowCount) :
    load f.dialect (pre ++ (f.written.lines ++ rest)) (f.region.startLine + row) =
      .ok (some f.written) := by
  have hw := h.written hf
  have hparse := Table.parse_render_of_legible hf.wellFormed hf.legible hf.rows_ne_nil
    f.blank_indent hf.newline
  have hi : row < f.written.lines.length := by
    rwa [length_lines_written]
  have hlines : f.written.region.linesOf (pre ++ (f.written.lines ++ rest)) = .ok f.written.lines :=
    hw.region ▸ linesOf_run hw.nonempty
  rw [h.startLine]
  refine load_eq_ok_some_iff.2 ⟨_, _, _, hw.run.locate hi, hw.region ▸ hlines, hparse, ?_⟩
  rw [← hw.region]
  simp only [Focus.written, ← hf.startLine]

theorem any_isSeparator_eq_true_iff {r : Option Row} :
    r.any Row.isSeparator = true ↔ r = some .separator := by
  cases r with
  | none => simp
  | some r => cases r <;> simp [Row.isSeparator]

theorem mem_cells_of_stopAt (hstart : f.table.startLine = f.region.startLine) {row : Nat} {s : Stop}
    (hline : p.line = f.region.startLine + row) (hdata : f.table.rows[row]? ≠ some .separator)
    (h : f.liveCells.stopAt p = some s) : s ∈ f.liveCells.cells ∧ s.isAt p = true := by
  obtain ⟨hs, hat⟩ := CellMap.mem_of_stopAt h
  have hrow : s.row = row := by
    have hsline := (CellMap.ordered_inDocument f.table f.lines).line s hs
    have hpline := (Stop.isAt_iff.1 hat).1
    omega
  obtain ⟨r, hr, -⟩ := Stop.exists_row_of_mem hs
  refine ⟨CellMap.mem_cells.2 ⟨hs, ?_⟩, hat⟩
  rw [Stop.isSeparator_eq_of_mem hs hr]
  cases r with
  | data cells => rfl
  | separator => exact absurd (hrow ▸ hr) hdata

/-- A cursor is anchored to a separator row if it is on the line of one, to a cell if it is in
one, and else to a cell beside it. -/
theorem exists_of_anchorAt (hstart : f.table.startLine = f.region.startLine) {anchor : Anchor}
    (h : f.anchorAt p = .ok (some anchor)) :
    (∃ row, anchor = .separator row ∧ p.line = f.region.startLine + row ∧
      f.table.rows[row]? = some .separator) ∨
    (∃ s ∈ f.liveCells.cells, s.isAt p = true ∧ anchor = .inside s.address) ∨
    ∃ s ∈ f.liveCells.cells, anchor = .beside s.address := by
  obtain ⟨row, hrow, h⟩ := Table.bind_eq_ok_iff.1 h
  obtain ⟨hle, rfl⟩ := rowAt_eq_ok_iff.1 hrow
  have hline : p.line = f.region.startLine + (p.line - f.region.startLine) := by omega
  generalize p.line - f.region.startLine = row at h hline
  split at h
  · next hsep =>
    obtain rfl := Option.some.inj (Table.pure_eq_ok_iff.1 h)
    exact .inl ⟨row, rfl, hline, any_isSeparator_eq_true_iff.1 hsep⟩
  · next hdata =>
    rw [any_isSeparator_eq_true_iff] at hdata
    split at h
    · next s hs =>
      obtain rfl := Option.some.inj (Table.pure_eq_ok_iff.1 h)
      obtain ⟨hmem, hat⟩ := mem_cells_of_stopAt hstart hline hdata hs
      exact .inr (.inl ⟨s, hmem, hat, rfl⟩)
    · next hstop =>
      obtain ⟨a, ha, rfl⟩ := Option.map_eq_some_iff.1 (Table.pure_eq_ok_iff.1 h).symm
      rw [CellMap.cellAt, hstop, Option.none_or] at ha
      cases hnear : f.liveCells.nearest p with
      | none => simp [hnear] at ha
      | some s =>
        obtain ⟨hmem, -⟩ := CellMap.mem_cells_of_nearest hnear
        simp only [hnear, (CellMap.mem_cells.1 hmem).2, Bool.false_eq_true, if_false,
          Option.some.injEq] at ha
        exact .inr (.inr ⟨s, hmem, congrArg Anchor.beside ha.symm⟩)

theorem mem_cellAddresses_of_anchorAt (hstart : f.table.startLine = f.region.startLine)
    {anchor : Option Anchor} (h : f.anchorAt p = .ok anchor)
    (ha : anchor.bind Anchor.cell = some a) : a ∈ f.table.cellAddresses := by
  cases anchor with
  | none => cases ha
  | some anchor =>
    rcases exists_of_anchorAt hstart h with ⟨row, rfl, -⟩ | ⟨s, hs, -, rfl⟩ | ⟨s, hs, rfl⟩
    · cases ha
    · obtain rfl := Option.some.inj ha
      exact CellMap.address_mem_of_mem_cells hs
    · obtain rfl := Option.some.inj ha
      exact CellMap.address_mem_of_mem_cells hs

theorem anchorAt_of_isAt (hstart : f.table.startLine = f.region.startLine) {s : Stop}
    (hs : s ∈ f.liveCells.cells) (hat : s.isAt p = true) :
    f.anchorAt p = .ok (some (.inside s.address)) := by
  obtain ⟨hstop, hdata⟩ := CellMap.mem_cells.1 hs
  have hordered := CellMap.ordered_inDocument f.table f.lines
  have hline : p.line = f.region.startLine + s.row := by
    rw [← (Stop.isAt_iff.1 hat).1, hordered.line s hstop, hstart]
  have hrow : f.rowAt p = .ok s.row := rowAt_of_line hline
  obtain ⟨r, hr, -⟩ := Stop.exists_row_of_mem hstop
  have hkind : r.isSeparator = false := by
    rw [← Stop.isSeparator_eq_of_mem hstop hr, hdata]
  have hfound : f.liveCells.stopAt p = some s := hordered.stopAt_eq hstop hat
  rw [anchorAt, hrow]
  simp only [bind, Except.bind, hr, Option.any_some, hkind, Bool.false_eq_true, if_false, hfound]
  rfl

section Written

variable {k : Nat} {s : Stop}

theorem Sound.writtenCells_eq (h : f.Sound) : f.writtenCells = f.written.liveCells := by
  rw [writtenCells, h.lines_render]
  rfl

theorem Sound.ordered_writtenCells (h : f.Sound) : f.writtenCells.Ordered (f.region.startLine + ·) :=
  h.startLine ▸ CellMap.ordered_inDocument f.table _

theorem exists_cell (hk : f.table.cellAddresses[k]? = some a) :
    ∃ s, f.writtenCells.cells[k]? = some s ∧ s.address = a := by
  rw [← CellMap.map_address_cells _ f.table (Text.lines f.render), List.getElem?_map] at hk
  exact Option.map_eq_some_iff.1 hk

theorem Sound.cursorFor_eq (h : f.Sound) (hs : s ∈ f.writtenCells.cells) :
    f.cursorFor s.address = s.position := by
  rw [cursorFor, h.ordered_writtenCells.positionOf_eq hs, Option.getD_some]

theorem Sound.isContentStart_cursorFor (h : f.Sound) (ha : a ∈ f.table.cellAddresses) :
    IsContentStart f.region.startLine (Text.lines f.render) a (f.cursorFor a) := by
  obtain ⟨s, hs, rfl⟩ := CellMap.exists_cell_inDocument ha (Text.lines f.render)
  rw [h.cursorFor_eq hs, h.lines_render, ← h.startLine]
  rw [h.lines_render] at hs
  exact CellMap.isContentStart_of_mem_written h.wellFormed f.blank_indent h.legible.cellTexts hs

theorem Sound.anchorAt_cursorFor (h : f.Sound) (ha : a ∈ f.table.cellAddresses) :
    f.written.anchorAt (f.cursorFor a) = .ok (some (.inside a)) := by
  obtain ⟨s, hs, rfl⟩ := CellMap.exists_cell_inDocument ha (Text.lines f.render)
  rw [h.cursorFor_eq hs]
  apply anchorAt_of_isAt h.written.startLine
  · rwa [← h.writtenCells_eq]
  · exact h.ordered_writtenCells.isAt_position (CellMap.mem_cells.1 hs).1

theorem Sound.line_cursorFor (h : f.Sound) (a : CellAddress) :
    (f.cursorFor a).line = f.region.startLine + a.row := by
  cases hposition : f.writtenCells.positionOf a with
  | none => rw [cursorFor, hposition, Option.getD_none]
  | some q =>
    obtain ⟨s, hs, rfl, rfl⟩ := CellMap.exists_of_positionOf hposition
    rw [cursorFor, hposition]
    exact h.ordered_writtenCells.line s (CellMap.mem_cells.1 hs).1

theorem Between.load_cursorFor (h : f.Between pre rest) (hf : f.Sound)
    (ha : a ∈ f.table.cellAddresses) :
    load f.dialect (pre ++ (f.written.lines ++ rest)) (f.cursorFor a).line =
      .ok (some f.written) := by
  obtain ⟨⟨cells, hr⟩, -⟩ := Table.mem_cellAddresses.1 ha
  rw [hf.line_cursorFor]
  exact h.load_written hf (List.getElem?_eq_some_iff.1 hr).1

theorem cursorFor_congr {g : Focus} (htable : f.table = g.table) (hdialect : f.dialect = g.dialect)
    (hindent : f.indent = g.indent) (hstart : f.region.startLine = g.region.startLine)
    (a : CellAddress) : f.cursorFor a = g.cursorFor a := by
  rw [cursorFor, cursorFor, writtenCells, writtenCells, render, render, htable, hdialect, hindent,
    hstart]

theorem Sound.cursorFor_written (h : f.Sound) (a : CellAddress) :
    f.written.cursorFor a = f.cursorFor a := by
  have hdialect : f.written.dialect = f.dialect := rfl
  have htable : f.written.table = f.table := rfl
  have hstart : f.written.region.startLine = f.region.startLine := rfl
  exact cursorFor_congr htable hdialect h.indent_written hstart a

end Written

end Focus

end PipeTable
