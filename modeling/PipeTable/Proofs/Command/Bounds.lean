import PipeTable.Proofs.Command.Following
import PipeTable.Proofs.Command.Formatted
import PipeTable.Proofs.Command.Totality

/-! # The cursor stays in the document

The line that a command sends the cursor to is one of the document that the command leaves, and
as far as the place on the line is taken from the written table, it is on the line: before the
content of a cell, or at the start of a separator. Only where a separator changes places with
another row the cursor goes as far right as it was. The written separator may be shorter than
the line that it comes from, and then the cursor is behind its end.
-/

namespace PipeTable

open Text

variable {doc pre rest : List Text} {f : Focus} {p q : Position} {row : Nat}
  {anchor : Option Anchor} {command : Command} {options : CommandOptions} {e : Replacement}

/-- The position is on a line of the document, behind its last character at most. -/
def Position.Within (q : Position) (doc : List Text) : Prop :=
  ∃ line, doc[q.line]? = some line ∧ q.character ≤ line.length

theorem Position.within_iff {line : Text} (h : doc[q.line]? = some line) :
    q.Within doc ↔ q.character ≤ line.length := by
  simp [Within, h]

/-- The command exchanges the separator `line` with a neighbouring row. -/
def Command.MovesRule (command : Command) (d : Dialect) (line : Text) : Prop :=
  command ∈ [moveRowUp, moveRowDown] ∧ d.isSeparator (trim line) = true

theorem ContentAt.start_lt {line content : Text} {col start : Nat}
    (h : ContentAt line col start content) (hne : content ≠ []) : start < line.length := by
  obtain ⟨opening, closing, -, -, -, rfl⟩ := h
  rw [ne_eq, List.drop_eq_nil_iff, List.length_take] at hne
  omega

namespace Focus

theorem cursorTarget_cursorFor {a : CellAddress} (hrow : a.row < f.table.rowCount)
    (hcol : a.col < f.table.colCount) : f.CursorTarget (some (f.cursorFor a)) := by
  have hr := List.getElem?_eq_getElem hrow
  cases hcells : f.table.rows[a.row] with
  | data cells =>
    exact .cell (Table.mem_cellAddresses.2 ⟨⟨cells, hcells ▸ hr⟩, hcol⟩)
  | separator =>
    have hnone : f.writtenCells.positionOf a = none := by
      rw [Option.eq_none_iff_forall_ne_some]
      intro q hq
      obtain ⟨s, hs, rfl, -⟩ := CellMap.exists_of_positionOf hq
      obtain ⟨cells, hdata, -⟩ := CellMap.exists_data_of_mem_cells hs
      cases hdata.symm.trans (hr.trans (congrArg some hcells))
    rw [cursorFor, hnone, Option.getD_none]
    exact .separator (hcells ▸ hr)

theorem Tidy.within_of_cursorTarget (h : f.Tidy) (hb : f.Between pre rest)
    (hq : f.CursorTarget (some q)) : q.Within (pre ++ (f.written.lines ++ rest)) := by
  cases hq with
  | @cell a ha =>
    obtain ⟨line, value, column, hline, hrow, -, -, hcontent⟩ := h.exists_contentAt ha
    have hlt := (List.getElem?_eq_some_iff.1 hline).1
    refine ⟨line, ?_, Nat.le_of_lt (hcontent.start_lt (by simp))⟩
    rw [hrow, hb.getElem?_line hlt, hline]
  | @separator row hrow =>
    have hlt : row < f.written.lines.length := by
      rw [length_lines_written]
      exact (List.getElem?_eq_some_iff.1 hrow).1
    refine ⟨f.written.lines[row], ?_, Nat.zero_le _⟩
    rw [hb.getElem?_line hlt, List.getElem?_eq_getElem hlt]

/-- The replacement writes an edited table and leaves the cursor at a place of it. -/
def WritesEdited (f : Focus) (e : Replacement) : Prop :=
  ∃ u cursor, Edited f.table u ∧ (f.withTable u).CursorTarget cursor ∧
    e = (f.withTable u).replace cursor

theorem WritesBlanks.writesEdited (h : f.WritesBlanks e) : f.WritesEdited e := by
  obtain ⟨u, cursor, hu, hcursor, rfl⟩ := h
  exact ⟨u, cursor, .blanks hu, hcursor, rfl⟩

theorem writesEdited_moveRow {direction : Direction} {a : CellAddress}
    (ha : a ∈ f.table.cellAddresses) (hcell : anchor.bind Anchor.cell = some a)
    (hrow : f.rowAt p = .ok a.row) (he : f.moveRow p anchor direction = .ok (some e)) :
    f.WritesEdited e := by
  obtain ⟨row, target, u, hrow', hstep, hu, rfl⟩ := moveRow_eq_ok_some_iff.1 he
  obtain rfl := Except.ok.inj (hrow.symm.trans hrow')
  obtain ⟨_, hedit⟩ := RowEdit.exists_of_step hstep hu
  rw [cursorInRow, hcell]
  exact ⟨u, _, .rows hedit, .cell (Table.mem_cellAddresses_swapRows ha hu), rfl⟩

theorem writesEdited_moveColumn {direction : Direction} {a : CellAddress}
    (ha : a ∈ f.table.cellAddresses) (hcell : anchor.bind Anchor.cell = some a)
    (he : f.moveColumn anchor direction = .ok (some e)) : f.WritesEdited e := by
  obtain ⟨cell, target, u, hcell', hstep, hu, rfl⟩ := moveColumn_eq_ok_some_iff.1 he
  obtain rfl := Option.some.inj (hcell.symm.trans hcell')
  obtain ⟨_, hedit⟩ := ColumnEdit.exists_of_step hstep hu
  exact ⟨u, _, .columns hedit, .cell (Table.mem_cellAddresses_swapColumns ha hu), rfl⟩

theorem Sound.writesEdited_deleteRow (h : f.Sound) (hanchor : f.anchorAt p = .ok anchor)
    (he : f.deleteRow p anchor = .ok (some e)) : f.WritesEdited e := by
  obtain ⟨hone, row, u, -, hu, rfl⟩ := deleteRow_eq_ok_some_iff.1 he
  have hedit := RowEdit.delete hone hu
  have hcols : u.colCount = f.table.colCount := by
    obtain ⟨-, rfl⟩ := Table.removeRow_eq_ok_iff.1 hu
    rw [Table.colCount_refit]
    rfl
  have hpos : 0 < u.rowCount := List.length_pos_iff.2 hedit.rows_ne_nil
  refine ⟨u, _, .rows hedit, cursorTarget_cursorFor ?_ ?_, rfl⟩
  · change min row (u.rowCount - 1) < u.rowCount
    omega
  · exact Nat.lt_of_lt_of_eq (h.anchorColumn_lt hanchor) hcols.symm

theorem Sound.writesEdited_perform (h : f.Sound) (hline : p.line = f.region.startLine + row)
    (hrow : row < f.table.rowCount) (hanchor : f.anchorAt p = .ok anchor)
    (hmove : command ∈ [Command.moveRowUp, .moveRowDown] →
      f.table.rows[row]? ≠ some .separator)
    (he : f.perform p anchor command options = .ok (some e)) : f.WritesEdited e := by
  -- away from separators the cursor belongs to a cell of its row
  have hcell (hdata : f.table.rows[row]? ≠ some .separator) :
      ∃ a ∈ f.table.cellAddresses, anchor.bind Anchor.cell = some a ∧
        f.rowAt p = .ok a.row := by
    obtain ⟨there, hthere, hcell⟩ := h.regular.exists_anchor hline hrow
    obtain rfl := Except.ok.inj (hthere.symm.trans hanchor)
    rw [ne_eq, ← h.regular.cellAt_eq_none_iff hline hrow] at hdata
    obtain ⟨a, ha⟩ := Option.ne_none_iff_exists'.1 hdata
    obtain ⟨hmem, rfl⟩ := h.regular.of_cellAt hline hrow ha
    exact ⟨a, hmem, hcell.trans ha, rowAt_of_line hline⟩
  cases command with
  | moveRowUp =>
    obtain ⟨a, ha, hbind, hrowAt⟩ := hcell (hmove (by simp))
    exact writesEdited_moveRow ha hbind hrowAt he
  | moveRowDown =>
    obtain ⟨a, ha, hbind, hrowAt⟩ := hcell (hmove (by simp))
    exact writesEdited_moveRow ha hbind hrowAt he
  | moveColumnLeft =>
    obtain ⟨a, _, _, hbind, -⟩ := moveColumn_eq_ok_some_iff.1 he
    have ha := mem_cellAddresses_of_anchorAt h.startLine hanchor hbind
    exact writesEdited_moveColumn ha hbind he
  | moveColumnRight =>
    obtain ⟨a, _, _, hbind, -⟩ := moveColumn_eq_ok_some_iff.1 he
    have ha := mem_cellAddresses_of_anchorAt h.startLine hanchor hbind
    exact writesEdited_moveColumn ha hbind he
  | deleteRow => exact h.writesEdited_deleteRow hanchor he
  | deleteColumn =>
    obtain ⟨a, u, hbind, hu, rfl⟩ := deleteColumn_eq_ok_some_iff.1 he
    have ha := mem_cellAddresses_of_anchorAt h.startLine hanchor hbind
    exact ⟨u, _, .columns (.delete hu), .cell (Table.mem_cellAddresses_removeColumn ha hu), rfl⟩
  | format | nextCell | previousCell | nextRow | clearCell | insertRowBelow
  | insertColumnRight => exact (h.writesBlanks_perform hanchor (by simp) he).writesEdited

theorem Regular.exists_rule (h : f.Regular) (hb : f.Between pre rest)
    (hr : f.table.rows[row]? = some .separator) :
    ∃ line, (pre ++ (f.written.lines ++ rest))[f.region.startLine + row]? = some line ∧
      f.dialect.isSeparator (trim line) = true := by
  have hlt : row < f.written.lines.length := by
    rw [length_lines_written]
    exact (List.getElem?_eq_some_iff.1 hr).1
  refine ⟨f.indent ++ f.table.rowText f.dialect .separator, ?_, ?_⟩
  · rw [hb.getElem?_line hlt]
    simp [written, Table.renderLines, hr]
  · rw [Table.trim_indented_rowText f.blank_indent]
    exact Table.isSeparator_rowText_separator h.columns_ne_nil (List.mem_of_getElem? hr)

theorem Regular.exists_of_moveRow_separator (h : f.Regular)
    (hline : p.line = f.region.startLine + row) (hanchor : f.anchorAt p = .ok anchor)
    (hr : f.table.rows[row]? = some .separator) {direction : Direction}
    (he : f.moveRow p anchor direction = .ok (some e)) :
    ∃ u target, Edited f.table u ∧ u.rows[target]? = some .separator ∧
      e = (f.withTable u).replace (some ⟨f.region.startLine + target, p.character⟩) := by
  have hrow := (List.getElem?_eq_some_iff.1 hr).1
  have hnone : anchor.bind Anchor.cell = none := by
    obtain ⟨there, hthere, hcell⟩ := h.exists_anchor hline hrow
    obtain rfl := Except.ok.inj (hthere.symm.trans hanchor)
    exact hcell.trans ((h.cellAt_eq_none_iff hline hrow).2 hr)
  obtain ⟨row', target, u, hrow', hstep, hu, rfl⟩ := moveRow_eq_ok_some_iff.1 he
  obtain rfl := Except.ok.inj ((rowAt_of_line hline).symm.trans hrow')
  obtain ⟨_, hedit⟩ := RowEdit.exists_of_step hstep hu
  refine ⟨u, target, .rows hedit, ?_, ?_⟩
  · obtain ⟨-, htarget, rfl⟩ := Table.swapRows_eq_ok_iff.1 hu
    rw [Table.rows_refit, getElem?_exchange hrow htarget, if_pos rfl, hr]
  · rw [cursorInRow, hnone]
    rfl

theorem Regular.exists_of_perform_separator (h : f.Regular)
    (hline : p.line = f.region.startLine + row) (hanchor : f.anchorAt p = .ok anchor)
    (hr : f.table.rows[row]? = some .separator)
    (hcommand : command ∈ [Command.moveRowUp, .moveRowDown])
    (he : f.perform p anchor command options = .ok (some e)) :
    ∃ u target, Edited f.table u ∧ u.rows[target]? = some .separator ∧
      e = (f.withTable u).replace (some ⟨f.region.startLine + target, p.character⟩) := by
  cases command with
  | moveRowUp => exact h.exists_of_moveRow_separator hline hanchor hr he
  | moveRowDown => exact h.exists_of_moveRow_separator hline hanchor hr he
  | format | nextCell | previousCell | nextRow | moveColumnLeft | moveColumnRight | clearCell
  | insertRowBelow | deleteRow | insertColumnRight | deleteColumn => simp at hcommand

end Focus

/-- The edit of a command can be applied, and the line of its cursor is one of the document then.
The cursor is on this line unless the command moves a separator: then it keeps its character, and
is on the line only as far as the written separator goes. -/
theorem cursor_within_of_run {d : Dialect} (hdoc : ∀ l ∈ doc, '\n' ∉ l)
    (h : command.run options d doc p = .ok (some e)) (hq : e.cursor = some q) :
    ∃ l doc' line, doc[p.line]? = some l ∧ e.apply doc = .ok doc' ∧
      doc'[q.line]? = some line ∧
      (command.MovesRule d l → q.character = p.character ∧ d.isSeparator (trim line) = true) ∧
      (q.Within doc' ↔ (command.MovesRule d l → p.character ≤ line.length)) := by
  obtain ⟨f, anchor, hload, hanchor, hperform⟩ := Command.run_eq_ok_some_iff.1 h
  obtain ⟨rfl, -⟩ := Focus.legible_of_load hload
  have hf := Focus.sound_of_load hdoc hload
  obtain ⟨pre, rest, row, hb, hdoc', hcount, hrow, hline⟩ :=
    Focus.exists_between_of_load hdoc hload
  have hlt : row < f.lines.length := Nat.lt_of_lt_of_eq hrow hcount
  have hrowline := List.getElem?_eq_getElem hlt
  have hsep := Focus.rows_eq_separator_iff hdoc hload hrowline
  subst hdoc'
  have hl : (pre ++ (f.lines ++ rest))[p.line]? = some f.lines[row] := by
    rw [hline, hb.getElem?_line hlt, hrowline]
  by_cases hmoves : command.MovesRule f.dialect f.lines[row]
  · obtain ⟨u, target, hu, htarget, rfl⟩ := hf.regular.exists_of_perform_separator hline hanchor
      (hsep.2 hmoves.2) hmoves.1 hperform
    have htidy := hf.edited hu
    obtain ⟨line, hthere, hrule⟩ := htidy.exists_rule (hb.withTable u) htarget
    obtain rfl := Option.some.inj hq
    refine ⟨_, _, line, hl, (hb.withTable u).apply_printable htidy.printable _, hthere,
      fun _ => ⟨rfl, hrule⟩, ?_⟩
    rw [Position.within_iff hthere]
    exact ⟨fun hle _ => hle, fun hle => hle hmoves⟩
  · have hmove : command ∈ [Command.moveRowUp, .moveRowDown] →
        f.table.rows[row]? ≠ some .separator :=
      fun hcommand hr => hmoves ⟨hcommand, hsep.1 hr⟩
    obtain ⟨u, cursor, hu, htarget, rfl⟩ :=
      hf.writesEdited_perform hline hrow hanchor hmove hperform
    obtain rfl : cursor = some q := hq
    have htidy := hf.edited hu
    obtain ⟨line, hthere, hle⟩ := htidy.within_of_cursorTarget (hb.withTable u) htarget
    exact ⟨_, _, line, hl, (hb.withTable u).apply_printable htidy.printable _, hthere,
      fun h => absurd h hmoves, iff_of_true ⟨line, hthere, hle⟩ fun h => absurd h hmoves⟩

/-- From the end of a long separator the cursor goes past the end of the short one written. -/
theorem cursor_within_of_run_separator :
    ∃ e doc', Command.run .moveRowDown {} .markdown ["|-------|".toList, "|a|".toList] ⟨0, 9⟩ =
        .ok (some e) ∧
      e.cursor = some ⟨1, 9⟩ ∧ e.apply ["|-------|".toList, "|a|".toList] = .ok doc' ∧
      doc' = ["| a   |".toList, "| --- |".toList] ∧ ¬ Position.Within ⟨1, 9⟩ doc' := by
  have he : Command.run .moveRowDown {} .markdown ["|-------|".toList, "|a|".toList] ⟨0, 9⟩ =
      .ok (some ⟨⟨0, 1⟩, "| a   |\n| --- |".toList, some ⟨1, 9⟩⟩) := rfl
  obtain ⟨l, doc', line, hl, happly, hline, -, hwithin⟩ :=
    cursor_within_of_run (q := ⟨1, 9⟩) (by decide) he rfl
  obtain rfl := Option.some.inj hl
  obtain rfl : _ = doc' := Except.ok.inj happly
  obtain rfl := Option.some.inj hline
  refine ⟨_, _, he, rfl, rfl, rfl, fun h => ?_⟩
  exact absurd (hwithin.1 h ⟨by decide, by decide⟩) (by decide)

end PipeTable
