import PipeTable.Proofs.Command.Edited

/-! # What a command leaves alone

Whatever a command does to the table under the cursor, it writes one table line for each row,
indented as the first line of the region was. So the lines around the region stay, they still do
not continue the run of table lines, and every other table of the document is found as before,
further up or down if there are more or fewer rows now.
-/

namespace PipeTable

open Text Region

/-- How many rows a command may leave of `old` ones. -/
def Command.RowsLeft (command : Command) (old new : Nat) : Prop :=
  match command with
  | insertRowBelow => new = old + 1
  | deleteRow => new + 1 = old
  | nextCell | nextRow => new = old ∨ new = old + 1
  | format | previousCell | moveRowUp | moveRowDown | moveColumnLeft | moveColumnRight | clearCell
  | insertColumnRight | deleteColumn => new = old

namespace Focus

variable {f : Focus} {p : Position} {anchor : Option Anchor} {command : Command}
  {options : CommandOptions} {e : Replacement} {u : Table}

/-- The replacement writes table `u`, which has as many rows as the command may leave. -/
structure Rewrites (f : Focus) (command : Command) (e : Replacement) (u : Table) : Prop where
  printable : (f.withTable u).Printable
  replace : ∃ cursor, e = (f.withTable u).replace cursor
  rowsLeft : command.RowsLeft f.table.rowCount u.rowCount

/-- The replacement writes an edited table, which has as many rows as the command may leave. -/
structure Writes (f : Focus) (command : Command) (e : Replacement) (u : Table) : Prop where
  edited : Edited f.table u
  replace : ∃ cursor, e = (f.withTable u).replace cursor
  rowsLeft : command.RowsLeft f.table.rowCount u.rowCount

theorem writes_kept (f : Focus) (cursor : Option Position)
    (hrows : command.RowsLeft f.table.rowCount f.table.rowCount) :
    f.Writes command (f.replace cursor) f.table :=
  ⟨.blanks .none, ⟨cursor, rfl⟩, hrows⟩

theorem Regular.writes_appended (h : f.Regular) (col : Nat)
    (hrows : command.RowsLeft f.table.rowCount (f.table.rowCount + 1)) :
    f.Writes command (f.appendRow col) (f.table.addRow .data []) := by
  have hcount : (f.table.addRow .data []).rowCount = f.table.rowCount + 1 := by
    rw [Table.addRow_blank h.columns_ne_nil]
    exact List.length_append
  exact ⟨.blanks .appendRow, ⟨_, rfl⟩, hcount ▸ hrows⟩

theorem exists_writes_moveRow {direction : Direction}
    (he : f.moveRow p anchor direction = .ok (some e))
    (hrows : command.RowsLeft f.table.rowCount f.table.rowCount) :
    ∃ u, f.Writes command e u := by
  obtain ⟨row, target, u, -, hstep, hu, rfl⟩ := moveRow_eq_ok_some_iff.1 he
  obtain ⟨_, hedit⟩ := RowEdit.exists_of_step hstep hu
  exact ⟨u, .rows hedit, ⟨_, rfl⟩, (Table.rowCount_swapRows hu).symm ▸ hrows⟩

theorem exists_writes_moveColumn {direction : Direction}
    (he : f.moveColumn anchor direction = .ok (some e))
    (hrows : command.RowsLeft f.table.rowCount f.table.rowCount) :
    ∃ u, f.Writes command e u := by
  obtain ⟨cell, target, u, -, hstep, hu, rfl⟩ := moveColumn_eq_ok_some_iff.1 he
  obtain ⟨_, hedit⟩ := ColumnEdit.exists_of_step hstep hu
  exact ⟨u, .columns hedit, ⟨_, rfl⟩, (Table.rowCount_swapColumns hu).symm ▸ hrows⟩

theorem Regular.exists_writes (h : f.Regular) (hanchor : f.anchorAt p = .ok anchor)
    (he : f.perform p anchor command options = .ok (some e)) : ∃ u, f.Writes command e u := by
  cases command with
  | format =>
    obtain ⟨cursor, rfl⟩ := exists_of_format (Except.ok.inj he)
    exact ⟨_, f.writes_kept cursor rfl⟩
  | previousCell =>
    obtain ⟨cursor, rfl⟩ := exists_of_previousCell (Except.ok.inj he)
    exact ⟨_, f.writes_kept cursor rfl⟩
  | nextCell =>
    rcases exists_of_nextCell (Except.ok.inj he) with ⟨cursor, rfl⟩ | ⟨col, rfl⟩
    · exact ⟨_, f.writes_kept cursor (.inl rfl)⟩
    · exact ⟨_, h.writes_appended col (.inr rfl)⟩
  | nextRow =>
    rcases exists_of_nextRow (Except.ok.inj he) with ⟨cursor, rfl⟩ | ⟨col, rfl⟩
    · exact ⟨_, f.writes_kept cursor (.inl rfl)⟩
    · exact ⟨_, h.writes_appended col (.inr rfl)⟩
  | moveRowUp => exact exists_writes_moveRow he rfl
  | moveRowDown => exact exists_writes_moveRow he rfl
  | moveColumnLeft => exact exists_writes_moveColumn he rfl
  | moveColumnRight => exact exists_writes_moveColumn he rfl
  | clearCell =>
    obtain ⟨cell, u, -, hu, rfl⟩ := clearCell_eq_ok_some_iff.1 he
    exact ⟨u, .blanks (.clearCell hu), ⟨_, rfl⟩, Table.rowCount_setCell hu⟩
  | insertRowBelow =>
    obtain ⟨row, u, -, hu, rfl⟩ := insertRowBelow_eq_ok_some_iff.1 he
    exact ⟨u, .blanks (.insertRow hu), ⟨_, rfl⟩, Table.rowCount_insertRow hu⟩
  | deleteRow =>
    obtain ⟨hone, row, u, -, hu, rfl⟩ := deleteRow_eq_ok_some_iff.1 he
    exact ⟨u, .rows (.delete hone hu), ⟨_, rfl⟩, Table.rowCount_removeRow hu⟩
  | insertColumnRight =>
    obtain ⟨a, u, hcell, hu, rfl⟩ := insertColumnRight_eq_ok_some_iff.1 he
    have hdata := Table.hasData_of_mem_cellAddresses
      (mem_cellAddresses_of_anchorAt h.startLine hanchor hcell)
    exact ⟨u, .blanks (.insertColumn hdata hu), ⟨_, rfl⟩, Table.rowCount_insertColumn hu⟩
  | deleteColumn =>
    obtain ⟨a, u, -, hu, rfl⟩ := deleteColumn_eq_ok_some_iff.1 he
    exact ⟨u, .columns (.delete hu), ⟨_, rfl⟩, Table.rowCount_removeColumn hu⟩

theorem Sound.exists_rewrites (h : f.Sound) (hanchor : f.anchorAt p = .ok anchor)
    (he : f.perform p anchor command options = .ok (some e)) : ∃ u, f.Rewrites command e u := by
  obtain ⟨u, hu⟩ := h.regular.exists_writes hanchor he
  exact ⟨u, (h.edited hu.edited).printable, hu.replace, hu.rowsLeft⟩

end Focus

/-- A command replaces the table around the cursor, which is a maximal run of table lines, by
table lines with the same indentation, as many as it may leave rows. All other tables are found
again where they were, moved by the number of lines that came in or went away above them. -/
theorem frame_of_run {d : Dialect} {doc : List Text} {p : Position} {command : Command}
    {options : CommandOptions} {e : Replacement} (hdoc : ∀ l ∈ doc, '\n' ∉ l)
    (h : command.run options d doc p = .ok (some e)) :
    ∃ first lines before after doc', e.region.contains p.line = true ∧ e.region.Maximal doc ∧
      doc[e.region.startLine]? = some first ∧
      command.RowsLeft e.region.lineCount lines.length ∧
      (∀ l ∈ lines, ∃ body, l = leadingBlanks first ++ body ∧ body.head? = some bar ∧
        body.getLast? = some bar) ∧
      e.apply doc = .ok doc' ∧
      doc' = doc.take e.region.startLine ++ (lines ++ doc.drop (e.region.endLine + 1)) ∧
      findAll doc = before ++ e.region :: after ∧
      findAll doc' = before ++ e.region.resize lines.length ::
        after.map (shift e.region.lineCount lines.length) := by
  obtain ⟨f, anchor, hload, hanchor, hperform⟩ := Command.run_eq_ok_some_iff.1 h
  have hsound := Focus.sound_of_load hdoc hload
  obtain ⟨pre, rest, row, hb, rfl, hcount, hrow, hline⟩ := Focus.exists_between_of_load hdoc hload
  obtain ⟨u, hprintable, ⟨cursor, rfl⟩, hrows⟩ := hsound.exists_rewrites hanchor hperform
  have happly := (hb.withTable u).apply_printable hprintable cursor
  obtain ⟨first, ls, hfirst⟩ := List.exists_cons_of_ne_nil hb.nonempty
  have hindent : f.indent = leadingBlanks first := by
    rw [Focus.indent, hfirst]
    rfl
  let lines := u.renderLines f.dialect f.indent
  have hlength : lines.length = u.rowCount := List.length_map _
  have hne : lines ≠ [] := by
    rw [← List.length_pos_iff, hlength]
    exact List.length_pos_iff.2 hprintable.rows_ne_nil
  have hregion : ((f.withTable u).replace cursor).region =
      ⟨pre.length, pre.length + f.lines.length - 1⟩ := hb.region
  obtain ⟨before, after, hold, hnew⟩ := hb.run.findAll_replace hb.nonempty
    (fun _ => Table.isTableLine_of_mem_renderLines f.blank_indent) hne hregion
  have hlineCount : ((f.withTable u).replace cursor).region.lineCount = f.lines.length :=
    hregion ▸ lineCount_run hb.nonempty
  rw [hlineCount]
  refine ⟨first, lines, before, after, pre ++ (lines ++ rest), ?_,
    hregion ▸ hb.run.maximal hb.nonempty, ?_, ?_, fun l hl => ?_, happly, ?_, hold, hnew⟩
  · rw [hb.startLine] at hline
    simp only [hregion, contains, Bool.and_eq_true, decide_eq_true_eq]
    omega
  · simp [hregion, hfirst]
  · rwa [hlength, ← hcount]
  · obtain ⟨r, -, rfl⟩ := List.mem_map.1 hl
    exact ⟨_, congrArg (· ++ _) hindent, Table.head_rowText u _ r, Table.getLast_rowText u _ r⟩
  · rw [hregion, List.take_left, drop_run hb.nonempty]

/-- A row that is inserted below a separator row moves the next table down. -/
theorem frame_of_run_inserted :
    ∃ e lines doc', Command.run .insertRowBelow {} .org
        ["  |a".toList, "|-".toList, "b".toList, "|c".toList] ⟨1, 0⟩ = .ok (some e) ∧
      e.apply ["  |a".toList, "|-".toList, "b".toList, "|c".toList] = .ok doc' ∧
      lines.length = 3 ∧ (∀ l ∈ lines, "  |".toList <+: l) ∧
      doc' = lines ++ ["b".toList, "|c".toList] ∧ findAll doc' = [⟨0, 2⟩, ⟨4, 4⟩] := by
  have he : Command.run .insertRowBelow {} .org
      ["  |a".toList, "|-".toList, "b".toList, "|c".toList] ⟨1, 0⟩ =
        .ok (some ⟨⟨0, 1⟩, "  | a   |\n  |-----|\n  |     |".toList, some ⟨2, 4⟩⟩) := rfl
  obtain ⟨first, lines, before, after, doc', -, -, hfirst, hlength, hlines, happly, hdoc', hold,
    hnew⟩ := frame_of_run (by decide) he
  obtain rfl : _ = first := Option.some.inj hfirst
  have hold' : [⟨0, 1⟩, ⟨3, 3⟩] = before ++ ⟨0, 1⟩ :: after := hold
  obtain ⟨rfl, rfl⟩ : before = [] ∧ after = [⟨3, 3⟩] := by
    cases before with
    | nil => exact ⟨rfl, (List.cons.inj hold').2.symm⟩
    | cons r rs => cases rs <;> simp at hold'
  refine ⟨_, lines, doc', he, happly, hlength, fun l hl => ?_, hdoc', ?_⟩
  · obtain ⟨body, rfl, hhead, -⟩ := hlines l hl
    obtain ⟨rest, rfl⟩ := List.head?_eq_some_iff.1 hhead
    exact ⟨rest, rfl⟩
  · rw [hnew, hlength]
    rfl

end PipeTable
