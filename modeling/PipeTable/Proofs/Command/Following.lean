import PipeTable.Proofs.Command.Edited
import PipeTable.Proofs.Table.Reversal

/-! # The cursor follows its cell

A command that starts in a cell puts the cursor into the same cell again wherever this one has
gone, into the new cell that it has made, or next to the place of a deleted one. The place is found
in the text that is still to be written, behind its indentation and in characters, whatever widths
they have. There it stands before the value of the cell.
-/

namespace PipeTable

open Text Region

/-- From table `t`, with the cursor in cell `a`, the command leaves table `u` and the cursor goes to
cell `b`. -/
inductive Follows (t : Table) (a : CellAddress) : Command → Table → CellAddress → Prop
  | format : Follows t a .format t a
  | clearCell {u : Table} (h : t.setCell a.row a.col [] = .ok u) : Follows t a .clearCell u a
  | moveRowUp {u : Table} {target : Nat} (htarget : a.row = target + 1)
      (h : t.swapRows a.row target = .ok u) : Follows t a .moveRowUp u ⟨target, a.col⟩
  | moveRowDown {u : Table} (h : t.swapRows a.row (a.row + 1) = .ok u) :
      Follows t a .moveRowDown u ⟨a.row + 1, a.col⟩
  | moveColumnLeft {u : Table} {target : Nat} (htarget : a.col = target + 1)
      (h : t.swapColumns a.col target = .ok u) : Follows t a .moveColumnLeft u ⟨a.row, target⟩
  | moveColumnRight {u : Table} (h : t.swapColumns a.col (a.col + 1) = .ok u) :
      Follows t a .moveColumnRight u ⟨a.row, a.col + 1⟩
  | insertRowBelow {u : Table} (h : t.insertRow (a.row + 1) .data = .ok u) :
      Follows t a .insertRowBelow u ⟨a.row + 1, a.col⟩
  | insertColumnRight {u : Table} (h : t.insertColumn (a.col + 1) = .ok u) :
      Follows t a .insertColumnRight u ⟨a.row, a.col + 1⟩
  | deleteRow {u : Table} (hrows : 1 < t.rowCount) (h : t.removeRow a.row = .ok u) :
      Follows t a .deleteRow u ⟨min a.row (u.rowCount - 1), a.col⟩
  | deleteColumn {u : Table} (h : t.removeColumn a.col = .ok (some u)) :
      Follows t a .deleteColumn u ⟨a.row, min a.col (u.colCount - 1)⟩

namespace Table

variable {t u : Table} {a : CellAddress} {target : Nat}

theorem mem_cellAddresses_swapRows (ha : a ∈ t.cellAddresses)
    (h : t.swapRows a.row target = .ok u) : ⟨target, a.col⟩ ∈ u.cellAddresses := by
  obtain ⟨⟨cells, hr⟩, hcol⟩ := mem_cellAddresses.1 ha
  obtain ⟨hrow, htarget, rfl⟩ := swapRows_eq_ok_iff.1 h
  rw [mem_cellAddresses, colCount_refit, rows_refit]
  refine ⟨⟨cells, ?_⟩, hcol⟩
  rw [getElem?_exchange hrow htarget, if_pos rfl, hr]

theorem mem_cellAddresses_removeColumn (ha : a ∈ t.cellAddresses)
    (h : t.removeColumn a.col = .ok (some u)) :
    ⟨a.row, min a.col (u.colCount - 1)⟩ ∈ u.cellAddresses := by
  obtain ⟨⟨cells, hr⟩, -⟩ := mem_cellAddresses.1 ha
  obtain ⟨hcol, hone, -, rfl⟩ := removeColumn_eq_ok_some_iff.1 h
  rw [mem_cellAddresses, rows_refit, List.getElem?_map, hr, colCount_refit]
  refine ⟨⟨_, rfl⟩, ?_⟩
  have hcount : (t.columns.eraseIdx a.col).length = t.colCount - 1 :=
    List.length_eraseIdx_of_lt hcol
  simp only [colCount] at hcount hone hcol ⊢
  omega

end Table

namespace Follows

variable {t u : Table} {a b : CellAddress} {command : Command}

theorem edited (h : Follows t a command u b) (ha : a ∈ t.cellAddresses) : Edited t u := by
  cases h with
  | format => exact .blanks .none
  | clearCell h => exact .blanks (.clearCell h)
  | moveRowUp htarget h =>
    rw [htarget] at h
    exact .rows (.moveUp h)
  | moveRowDown h => exact .rows (.moveDown h)
  | moveColumnLeft htarget h =>
    rw [htarget] at h
    exact .columns (.moveLeft h)
  | moveColumnRight h => exact .columns (.moveRight h)
  | insertRowBelow h => exact .blanks (.insertRow h)
  | insertColumnRight h => exact .blanks (.insertColumn (Table.hasData_of_mem_cellAddresses ha) h)
  | deleteRow hrows h => exact .rows (.delete hrows h)
  | deleteColumn h => exact .columns (.delete h)

theorem mem_cellAddresses_or (h : Follows t a command u b) (ha : a ∈ t.cellAddresses)
    (hne : t.columns ≠ []) :
    b ∈ u.cellAddresses ∨ command = .deleteRow ∧ b.col < u.colCount := by
  have hcol := (Table.mem_cellAddresses.1 ha).2
  cases h with
  | format => exact .inl ha
  | clearCell h => exact .inl (Table.mem_cellAddresses_setCell h)
  | moveRowUp _ h => exact .inl (Table.mem_cellAddresses_swapRows ha h)
  | moveRowDown h => exact .inl (Table.mem_cellAddresses_swapRows ha h)
  | moveColumnLeft _ h => exact .inl (Table.mem_cellAddresses_swapColumns ha h)
  | moveColumnRight h => exact .inl (Table.mem_cellAddresses_swapColumns ha h)
  | insertRowBelow h => exact .inl (Table.mem_cellAddresses_insertRow hne h hcol)
  | insertColumnRight h => exact .inl (Table.mem_cellAddresses_insertColumn ha h)
  | deleteRow _ h =>
    obtain ⟨-, rfl⟩ := Table.removeRow_eq_ok_iff.1 h
    exact .inr ⟨rfl, (Table.colCount_refit _).symm ▸ hcol⟩
  | deleteColumn h => exact .inl (Table.mem_cellAddresses_removeColumn ha h)

theorem mem_cellAddresses (h : Follows t a command u b) (ha : a ∈ t.cellAddresses)
    (hne : t.columns ≠ []) (hrow : u.IsDataRow b.row) : b ∈ u.cellAddresses := by
  rcases h.mem_cellAddresses_or ha hne with hb | ⟨-, hcol⟩
  · exact hb
  · exact Table.mem_cellAddresses.2 ⟨hrow, hcol⟩

theorem isDataRow (h : Follows t a command u b) (ha : a ∈ t.cellAddresses) (hne : t.columns ≠ [])
    (hcommand : command ≠ .deleteRow) : u.IsDataRow b.row := by
  rcases h.mem_cellAddresses_or ha hne with hb | ⟨hdelete, -⟩
  · exact (Table.mem_cellAddresses.1 hb).1
  · exact absurd hdelete hcommand

end Follows

/-- Between bar number `col` of the line and the next bar, the text from the second character on is
`content`, and this character has the index `start`. -/
def ContentAt (line : Text) (col start : Nat) (content : Text) : Prop :=
  ∃ opening closing, (Span.bars line)[col]? = some opening ∧
    (Span.bars line)[col + 1]? = some closing ∧ start = opening + 2 ∧
    (line.take closing).drop start = content

theorem Span.take_drop_written {pre content : Text} {ps : List Text} {j : Nat}
    (hp : ps[j]? = some (' ' :: content)) :
    ((pre ++ bar :: closedCells ps).take (barPlace pre ps (j + 1))).drop (barPlace pre ps j + 2) =
      content := by
  obtain ⟨hj, hpj⟩ := List.getElem?_eq_some_iff.1 hp
  have hbehind : (pre ++ bar :: closedCells ps).drop (barPlace pre ps j + 1 + 1) =
      content ++ bar :: closedCells (ps.drop (j + 1)) := by
    rw [← List.drop_drop, drop_written, List.drop_eq_getElem_cons hj, closedCells_cons, hpj]
    rfl
  have hlen : barPlace pre ps (j + 1) - (barPlace pre ps j + 2) = content.length := by
    rw [barPlace_succ pre hp, List.length_cons]
    omega
  rw [List.drop_take, hbehind, hlen, List.take_left]

namespace Focus

variable {d : Dialect} {doc pre rest : List Text} {f : Focus} {p : Position} {a b : CellAddress}
  {anchor : Option Anchor} {command : Command} {options : CommandOptions} {e : Replacement}

/-- The cursor of a cell stands on the line of its row, before the padded value of the cell. -/
theorem Tidy.exists_contentAt (h : f.Tidy) (hb : b ∈ f.table.cellAddresses) :
    ∃ line value column, f.written.lines[b.row]? = some line ∧
      (f.cursorFor b).line = f.region.startLine + b.row ∧
      f.table.cell b.row b.col = .ok value ∧ f.table.columns[b.col]? = some column ∧
      ContentAt line b.col (f.cursorFor b).character (pad column.width value ++ [' ']) := by
  obtain ⟨s, hs, rfl⟩ := CellMap.exists_cell_inDocument hb f.written.lines
  have hordered := CellMap.ordered_inDocument f.table f.written.lines
  have hcursor : f.cursorFor s.address = s.position := by
    rw [cursorFor, writtenCells, h.printable.lines_render, hordered.positionOf_eq hs,
      Option.getD_some]
  obtain ⟨cells, hr, hcol, hspan⟩ :=
    CellMap.span_of_mem_written h.wellFormed f.blank_indent h.cellTexts hs
  have hmem := List.mem_of_getElem? hr
  have hlen := h.wellFormed.rectangular cells hmem
  have hbar : ∀ v ∈ cells, bar ∉ v := fun v hv => (h.cellTexts cells hmem v hv).2.1
  have hvalue := List.getElem?_eq_getElem (hlen.symm ▸ hcol)
  have hcolumn : f.table.columns[s.col]? = some _ := List.getElem?_eq_getElem hcol
  rw [hcursor, Stop.position, hspan]
  refine ⟨f.indent ++ f.table.rowText f.dialect (.data cells), _, _, ?_, ?_,
    Table.cell_eq_ok_iff.2 ⟨hcol, .inr ⟨cells, hr, hvalue⟩⟩, hcolumn,
    f.table.barOffset f.indent cells s.col, f.table.barOffset f.indent cells (s.col + 1),
    Table.bars_rowText_data f.blank_indent hbar hlen (Nat.le_of_lt hcol),
    Table.bars_rowText_data f.blank_indent hbar hlen hcol, rfl, ?_⟩
  · simp only [written, Table.renderLines, List.getElem?_map, Stop.address, hr, Option.map_some]
  · rw [hordered.line s (CellMap.mem_cells.1 hs).1, h.startLine]
    rfl
  · -- the column is as wide as it is written, also where there are separator rows
    have hwidth : f.table.renderWidths[s.col]? = some f.table.columns[s.col].width := by
      rw [Table.renderWidths, List.getElem?_map, hcolumn, Option.map_some, Option.some.injEq,
        h.wellFormed.fitted s.col _ hcolumn]
      exact Nat.max_eq_left (Nat.le_max_right _ _)
    rw [Table.rowText_data]
    apply Span.take_drop_written
    rw [List.getElem?_zipWith, hwidth, hvalue]
    rfl

theorem exists_follows (hcell : anchor.bind Anchor.cell = some a) (hrow : f.rowAt p = .ok a.row)
    (hcommand : command ∉ [Command.nextCell, .previousCell, .nextRow])
    (he : f.perform p anchor command options = .ok (some e)) :
    ∃ u b, Follows f.table a command u b ∧ e = (f.withTable u).replaceAt b := by
  have hcolumn : anchorColumn anchor = a.col := by rw [anchorColumn, hcell]; rfl
  have hcursor (g : Focus) (target : Nat) :
      g.cursorInRow p anchor target = g.cursorFor ⟨target, a.col⟩ := by
    rw [cursorInRow, hcell]
  cases command with
  | nextCell | previousCell | nextRow => simp at hcommand
  | format =>
    obtain rfl := Option.some.inj (Except.ok.inj he)
    rw [hcell]
    exact ⟨_, a, .format, rfl⟩
  | moveRowUp =>
    obtain ⟨row, target, u, hrow', hstep, hu, rfl⟩ := moveRow_eq_ok_some_iff.1 he
    obtain rfl := Except.ok.inj (hrow.symm.trans hrow')
    rw [hcursor]
    exact ⟨u, _, .moveRowUp (Direction.step_back_eq_some hstep) hu, rfl⟩
  | moveRowDown =>
    obtain ⟨row, target, u, hrow', hstep, hu, rfl⟩ := moveRow_eq_ok_some_iff.1 he
    obtain rfl := Except.ok.inj (hrow.symm.trans hrow')
    obtain rfl := Direction.step_forward_eq_some hstep
    rw [hcursor]
    exact ⟨u, _, .moveRowDown hu, rfl⟩
  | moveColumnLeft =>
    obtain ⟨cell, target, u, hcell', hstep, hu, rfl⟩ := moveColumn_eq_ok_some_iff.1 he
    obtain rfl := Option.some.inj (hcell.symm.trans hcell')
    exact ⟨u, _, .moveColumnLeft (Direction.step_back_eq_some hstep) hu, rfl⟩
  | moveColumnRight =>
    obtain ⟨cell, target, u, hcell', hstep, hu, rfl⟩ := moveColumn_eq_ok_some_iff.1 he
    obtain rfl := Option.some.inj (hcell.symm.trans hcell')
    obtain rfl := Direction.step_forward_eq_some hstep
    exact ⟨u, _, .moveColumnRight hu, rfl⟩
  | clearCell =>
    obtain ⟨cell, u, hcell', hu, rfl⟩ := clearCell_eq_ok_some_iff.1 he
    obtain rfl := Option.some.inj (hcell.symm.trans hcell')
    exact ⟨u, _, .clearCell hu, rfl⟩
  | insertRowBelow =>
    obtain ⟨row, u, hrow', hu, rfl⟩ := insertRowBelow_eq_ok_some_iff.1 he
    obtain rfl := Except.ok.inj (hrow.symm.trans hrow')
    rw [hcolumn]
    exact ⟨u, _, .insertRowBelow hu, rfl⟩
  | deleteRow =>
    obtain ⟨hone, row, u, hrow', hu, rfl⟩ := deleteRow_eq_ok_some_iff.1 he
    obtain rfl := Except.ok.inj (hrow.symm.trans hrow')
    rw [hcolumn]
    exact ⟨u, _, .deleteRow hone hu, rfl⟩
  | insertColumnRight =>
    obtain ⟨cell, u, hcell', hu, rfl⟩ := insertColumnRight_eq_ok_some_iff.1 he
    obtain rfl := Option.some.inj (hcell.symm.trans hcell')
    exact ⟨u, _, .insertColumnRight hu, rfl⟩
  | deleteColumn =>
    obtain ⟨cell, u, hcell', hu, rfl⟩ := deleteColumn_eq_ok_some_iff.1 he
    obtain rfl := Option.some.inj (hcell.symm.trans hcell')
    exact ⟨u, _, .deleteColumn hu, rfl⟩

/-- In the table that a command writes the cursor stands before the value of the cell that it
follows. -/
theorem exists_contentAt_of_perform (hdoc : ∀ l ∈ doc, '\n' ∉ l)
    (hload : load d doc p.line = .ok (some f)) (ha : a ∈ f.table.cellAddresses)
    {u : Table} (hfollows : Follows f.table a command u b) (hrow : u.IsDataRow b.row) :
    ∃ q doc' line value column, ((f.withTable u).replaceAt b).cursor = some q ∧
      ((f.withTable u).replaceAt b).apply doc = .ok doc' ∧ doc'[q.line]? = some line ∧
      q.line = f.region.startLine + b.row ∧ u.cell b.row b.col = .ok value ∧
      u.columns[b.col]? = some column ∧
      ContentAt line b.col q.character (pad column.width value ++ [' ']) := by
  have hsound := sound_of_load hdoc hload
  obtain ⟨pre, rest, row, hb, rfl, -⟩ := exists_between_of_load hdoc hload
  have hu := hsound.edited (hfollows.edited ha)
  have hmem := hfollows.mem_cellAddresses ha hsound.columns_ne_nil hrow
  obtain ⟨line, value, column, hline, hcursor, hvalue, hcolumn, hcontent⟩ :=
    hu.exists_contentAt hmem
  refine ⟨_, _, line, value, column, rfl, (hb.withTable u).apply_printable hu.printable _, ?_,
    hcursor, hvalue, hcolumn, hcontent⟩
  rw [hcursor, (hb.withTable u).getElem?_line (List.getElem?_eq_some_iff.1 hline).1, hline]

end Focus

/-- After a command on a cell the cursor is on the line of the row where this cell has gone, or
where a new or a neighbouring one is, two characters behind the bar that opens the cell. From
there to the next bar stands the value of the cell, padded to the width of its column, and one
space. Only a deleted row may leave the cursor on a separator instead. -/
theorem cursor_follows_cell {d : Dialect} {doc : List Text} {p : Position} {f : Focus}
    {a : CellAddress} {command : Command} {options : CommandOptions} {e : Replacement}
    (hdoc : ∀ l ∈ doc, '\n' ∉ l) (hload : Focus.load d doc p.line = .ok (some f))
    (ha : f.liveCells.cellAt p = some a)
    (hcommand : command ∉ [Command.nextCell, .previousCell, .nextRow])
    (h : command.run options d doc p = .ok (some e)) :
    ∃ u b, Follows f.table a command u b ∧ (command ≠ .deleteRow → u.IsDataRow b.row) ∧
      (u.IsDataRow b.row → ∃ q doc' line value column, e.cursor = some q ∧
        e.apply doc = .ok doc' ∧ doc'[q.line]? = some line ∧
        q.line = e.region.startLine + b.row ∧ u.cell b.row b.col = .ok value ∧
        u.columns[b.col]? = some column ∧
        ContentAt line b.col q.character (pad column.width value ++ [' '])) := by
  have hregular := Focus.regular_of_load hload
  obtain ⟨pre, rest, row, -, -, -, hrow, hline⟩ := Focus.exists_between_of_load hdoc hload
  obtain ⟨hmem, rfl⟩ := hregular.of_cellAt hline hrow ha
  obtain ⟨g, anchor, hg, hanchor, hperform⟩ := Command.run_eq_ok_some_iff.1 h
  obtain rfl := Option.some.inj (Except.ok.inj (hload.symm.trans hg))
  obtain ⟨there, hthere, hcell⟩ := hregular.exists_anchor hline hrow
  obtain rfl := Except.ok.inj (hthere.symm.trans hanchor)
  have hbind : (some there).bind Anchor.cell = some a := hcell.trans ha
  obtain ⟨u, b, hfollows, rfl⟩ :=
    Focus.exists_follows hbind (Focus.rowAt_of_line hline) hcommand hperform
  refine ⟨u, b, hfollows, ?_, ?_⟩
  · exact hfollows.isDataRow hmem hregular.columns_ne_nil
  · exact Focus.exists_contentAt_of_perform hdoc hload hmem hfollows

/-- A row with a wide character changes places with an unfinished separator. -/
theorem cursor_follows_cell_wide :
    ∃ e doc' line, Command.run .moveRowDown {} .markdown ["\t|表|b".toList, "|-".toList] ⟨0, 2⟩ =
        .ok (some e) ∧
      e.cursor = some ⟨1, 3⟩ ∧ e.apply ["\t|表|b".toList, "|-".toList] = .ok doc' ∧
      doc'[1]? = some line ∧ ContentAt line 0 3 "表  ".toList := by
  have hdoc : ∀ l ∈ ["\t|表|b".toList, "|-".toList], '\n' ∉ l := by decide
  have he : Command.run .moveRowDown {} .markdown ["\t|表|b".toList, "|-".toList] ⟨0, 2⟩ =
      .ok (some ⟨⟨0, 1⟩, "\t| --- | --- |\n\t| 表  | b   |".toList, some ⟨1, 3⟩⟩) := by
    decide +kernel
  obtain ⟨u, b, hfollows, hdata, hcontent⟩ :=
    cursor_follows_cell hdoc (a := ⟨0, 0⟩) rfl (by decide +kernel) (by decide) he
  cases hfollows with
  | moveRowDown hu =>
    obtain rfl := Except.ok.inj hu
    obtain ⟨q, doc', line, value, column, hq, happly, hline, -, hvalue, hcolumn, hat⟩ :=
      hcontent (hdata (by decide))
    obtain rfl := Option.some.inj hq
    obtain rfl := Except.ok.inj hvalue
    obtain rfl := Option.some.inj hcolumn
    exact ⟨_, doc', line, he, rfl, happly, hline, hat⟩

end PipeTable
