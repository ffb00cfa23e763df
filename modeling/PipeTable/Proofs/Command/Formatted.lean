import PipeTable.Proofs.Command.Outcome
import PipeTable.Proofs.Command.Writing

/-! # What is written is formatted

Formatting, moving from cell to cell, clearing a cell and inserting rows or columns write the
table that was read with blanks in it, so the text that they write is read as this very table
again. Formatting it once more changes nothing, and a cursor that was put into a cell stays
where it is.
-/

namespace PipeTable

variable {d : Dialect} {doc : List Text} {f : Focus} {p : Position} {anchor : Option Anchor}
  {options : CommandOptions} {e : Replacement}

namespace Focus

/-- Where commands leave the cursor: nowhere, in a cell of the table or at the start of the line
of a separator row. -/
inductive CursorTarget (f : Focus) : Option Position → Prop
  | none : CursorTarget f none
  | cell {a : CellAddress} (ha : a ∈ f.table.cellAddresses) : CursorTarget f (some (f.cursorFor a))
  | separator {row : Nat} (hrow : f.table.rows[row]? = some .separator) :
      CursorTarget f (some ⟨f.region.startLine + row, 0⟩)

/-- The replacement writes the table with blanks in it. -/
def WritesBlanks (f : Focus) (e : Replacement) : Prop :=
  ∃ u cursor, f.table.BlankEdit u ∧ (f.withTable u).CursorTarget cursor ∧
    e = (f.withTable u).replace cursor

theorem CursorTarget.writesBlanks {cursor : Option Position} (h : f.CursorTarget cursor) :
    f.WritesBlanks (f.replace cursor) :=
  ⟨f.table, cursor, .none, h, rfl⟩

theorem Sound.cursorTarget (h : f.Sound) {cursor : Option Position}
    (hcells : ∀ q, cursor = some q → ∃ s ∈ f.writtenCells.cells, q = s.position) :
    f.CursorTarget cursor := by
  cases cursor with
  | none => exact .none
  | some q =>
    obtain ⟨s, hs, rfl⟩ := hcells q rfl
    rw [← h.cursorFor_eq hs]
    exact .cell (CellMap.address_mem_of_mem_cells hs)

theorem Sound.writesBlanks_move (h : f.Sound) {a : CellAddress} {current : Position}
    (hcurrent : f.writtenCells.positionOf a = some current) {target : Option Position}
    (htarget : ∀ q, target = some q → ∃ s ∈ f.writtenCells.cells, q = s.position) :
    f.WritesBlanks (f.replace (target.or (some current))) := by
  refine (h.cursorTarget fun q hq => ?_).writesBlanks
  rcases Option.or_eq_some_iff.1 hq with hq | ⟨-, hq⟩
  · exact htarget q hq
  · obtain rfl := Option.some.inj hq
    obtain ⟨s, hs, -, hposition⟩ := CellMap.exists_of_positionOf hcurrent
    exact ⟨s, hs, hposition⟩

theorem Sound.writesBlanks_positionOf (h : f.Sound) (a : CellAddress) :
    f.WritesBlanks (f.replace (f.writtenCells.positionOf a)) := by
  refine (h.cursorTarget fun q hq => ?_).writesBlanks
  obtain ⟨s, hs, -, hposition⟩ := CellMap.exists_of_positionOf hq
  exact ⟨s, hs, hposition⟩

theorem Sound.writesBlanks_appendRow (h : f.Sound) {col : Nat} (hcol : col < f.table.colCount) :
    f.WritesBlanks (f.appendRow col) := by
  have ha := Table.getElem?_cellAddresses_addRow_blank h.columns_ne_nil hcol
  exact ⟨_, _, .appendRow, .cell (List.mem_of_getElem? ha), rfl⟩

theorem Sound.writesBlanks_format (h : f.Sound) (hanchor : f.anchorAt p = .ok anchor)
    (he : f.format anchor = some e) : f.WritesBlanks e := by
  obtain rfl := Option.some.inj he
  apply CursorTarget.writesBlanks
  cases hcell : anchor.bind Anchor.cell with
  | none => exact .none
  | some a => exact .cell (mem_cellAddresses_of_anchorAt h.startLine hanchor hcell)

theorem Sound.writesBlanks_nextCell (h : f.Sound) (he : f.nextCell anchor options = some e) :
    f.WritesBlanks e := by
  cases anchor with
  | none => cases he
  | some anchor =>
    cases anchor with
    | beside a => exact Option.some.inj he ▸ h.writesBlanks_positionOf a
    | separator row =>
      obtain rfl := Option.some.inj he
      exact (h.cursorTarget fun q hq => CellMap.exists_of_nextCell hq).writesBlanks
    | inside a =>
      obtain ⟨current, hcurrent, rfl⟩ := Option.map_eq_some_iff.1 he
      split
      · exact h.writesBlanks_appendRow (List.length_pos_iff.2 h.columns_ne_nil)
      · exact h.writesBlanks_move hcurrent fun q hq => CellMap.exists_of_nextCell hq

theorem Sound.writesBlanks_previousCell (h : f.Sound) (he : f.previousCell anchor = some e) :
    f.WritesBlanks e := by
  cases anchor with
  | none => cases he
  | some anchor =>
    cases anchor with
    | beside a => exact Option.some.inj he ▸ h.writesBlanks_positionOf a
    | separator row =>
      obtain rfl := Option.some.inj he
      exact (h.cursorTarget fun q hq => CellMap.exists_of_previousCell hq).writesBlanks
    | inside a =>
      obtain ⟨current, hcurrent, rfl⟩ := Option.map_eq_some_iff.1 he
      exact h.writesBlanks_move hcurrent fun q hq => CellMap.exists_of_previousCell hq

theorem Sound.cursorTarget_rowMoveStart (h : f.Sound) {anchor : Anchor}
    (hanchor : f.anchorAt p = .ok (some anchor)) {current : Position} {col : Nat}
    (hstart : f.rowMoveStart p anchor = some (current, col)) :
    f.CursorTarget (some current) ∧ col < f.table.colCount := by
  cases hcell : anchor.cell with
  | none =>
    rcases exists_of_anchorAt h.startLine hanchor with ⟨row, -, hline, hr⟩ | ⟨s, -, -, rfl⟩ |
      ⟨s, -, rfl⟩
    · rw [rowMoveStart, hcell] at hstart
      obtain ⟨rfl, rfl⟩ := Prod.mk.inj (Option.some.inj hstart)
      exact ⟨hline ▸ .separator hr, List.length_pos_iff.2 h.columns_ne_nil⟩
    · cases hcell
    · cases hcell
  | some a =>
    have ha := mem_cellAddresses_of_anchorAt h.startLine hanchor hcell
    rw [rowMoveStart, hcell] at hstart
    obtain ⟨q, hq, heq⟩ := Option.map_eq_some_iff.1 hstart
    obtain ⟨rfl, rfl⟩ := Prod.mk.inj heq
    refine ⟨h.cursorTarget fun q' hq' => ?_, (Table.mem_cellAddresses.1 ha).2⟩
    obtain ⟨s, hs, -, rfl⟩ := CellMap.exists_of_positionOf hq
    exact ⟨s, hs, (Option.some.inj hq').symm⟩

theorem Sound.writesBlanks_nextRow (h : f.Sound) (hanchor : f.anchorAt p = .ok anchor)
    (he : f.nextRow p anchor options = some e) : f.WritesBlanks e := by
  obtain ⟨⟨current, col⟩, hstart, rfl⟩ := Option.map_eq_some_iff.1 he
  obtain ⟨anchor, rfl, hstart⟩ := Option.bind_eq_some_iff.1 hstart
  obtain ⟨htarget, hcol⟩ := h.cursorTarget_rowMoveStart hanchor hstart
  dsimp only
  split
  · next q hq =>
    refine (h.cursorTarget fun q' hq' => ?_).writesBlanks
    obtain rfl := Option.some.inj hq'
    exact h.ordered_writtenCells.exists_of_nextRowFrom (fun _ => id) hq
  · split
    · exact h.writesBlanks_appendRow hcol
    · exact htarget.writesBlanks

theorem writesBlanks_clearCell (he : f.clearCell anchor = .ok (some e)) :
    f.WritesBlanks e := by
  obtain ⟨a, u, -, hu, rfl⟩ := clearCell_eq_ok_some_iff.1 he
  exact ⟨u, _, .clearCell hu, .cell (Table.mem_cellAddresses_setCell hu), rfl⟩

theorem Sound.anchorColumn_lt (h : f.Sound) (hanchor : f.anchorAt p = .ok anchor) :
    anchorColumn anchor < f.table.colCount := by
  unfold anchorColumn
  cases hcell : anchor.bind Anchor.cell with
  | none => exact List.length_pos_iff.2 h.columns_ne_nil
  | some a =>
    have ha := mem_cellAddresses_of_anchorAt h.startLine hanchor hcell
    exact (Table.mem_cellAddresses.1 ha).2

theorem Sound.writesBlanks_insertRowBelow (h : f.Sound) (hanchor : f.anchorAt p = .ok anchor)
    (he : f.insertRowBelow p anchor = .ok (some e)) : f.WritesBlanks e := by
  obtain ⟨row, u, -, hu, rfl⟩ := insertRowBelow_eq_ok_some_iff.1 he
  have ha := Table.mem_cellAddresses_insertRow h.columns_ne_nil hu (h.anchorColumn_lt hanchor)
  exact ⟨u, _, .insertRow hu, .cell ha, rfl⟩

theorem Sound.writesBlanks_insertColumnRight (h : f.Sound) (hanchor : f.anchorAt p = .ok anchor)
    (he : f.insertColumnRight anchor = .ok (some e)) : f.WritesBlanks e := by
  obtain ⟨a, u, hcell, hu, rfl⟩ := insertColumnRight_eq_ok_some_iff.1 he
  have ha := mem_cellAddresses_of_anchorAt h.startLine hanchor hcell
  have hdata := Table.hasData_of_mem_cellAddresses ha
  exact ⟨u, _, .insertColumn hdata hu, .cell (Table.mem_cellAddresses_insertColumn ha hu), rfl⟩

theorem Sound.writesBlanks_perform (h : f.Sound) (hanchor : f.anchorAt p = .ok anchor)
    {command : Command}
    (hcommand : command ∈ [Command.format, .nextCell, .previousCell, .nextRow, .clearCell,
      .insertRowBelow, .insertColumnRight])
    (he : f.perform p anchor command options = .ok (some e)) : f.WritesBlanks e := by
  cases command with
  | format => exact h.writesBlanks_format hanchor (Except.ok.inj he)
  | nextCell => exact h.writesBlanks_nextCell (Except.ok.inj he)
  | previousCell => exact h.writesBlanks_previousCell (Except.ok.inj he)
  | nextRow => exact h.writesBlanks_nextRow hanchor (Except.ok.inj he)
  | clearCell => exact writesBlanks_clearCell he
  | insertRowBelow => exact h.writesBlanks_insertRowBelow hanchor he
  | insertColumnRight => exact h.writesBlanks_insertColumnRight hanchor he
  | moveRowUp | moveRowDown | moveColumnLeft | moveColumnRight | deleteRow | deleteColumn =>
    simp at hcommand

variable {pre rest : List Text} {q : Position}

theorem Between.exists_format_written (h : f.Between pre rest) (hf : f.Sound) {row : Nat}
    (hrow : row < f.table.rowCount) (hq : q.line = f.region.startLine + row)
    (options : CommandOptions) :
    ∃ e, Command.run .format options f.dialect (pre ++ (f.written.lines ++ rest)) q =
        .ok (some e) ∧
      e.region.startLine = f.region.startLine ∧ e.text = f.render := by
  have hload := h.load_written hf hrow
  rw [← hq] at hload
  have hbelow : f.written.region.startLine ≤ q.line := hq ▸ Nat.le_add_right _ row
  obtain ⟨anchor, hanchor⟩ := exists_anchorAt hbelow
  exact ⟨_, Command.run_eq_ok_some_iff.2 ⟨_, anchor, hload, hanchor, rfl⟩, rfl, hf.render_written⟩

theorem Between.exists_format_cursorFor (h : f.Between pre rest) (hf : f.Sound) {a : CellAddress}
    (ha : a ∈ f.table.cellAddresses) (options : CommandOptions) :
    ∃ e, Command.run .format options f.dialect (pre ++ (f.written.lines ++ rest))
        (f.cursorFor a) = .ok (some e) ∧ e.cursor = some (f.cursorFor a) := by
  have hload := h.load_cursorFor hf ha
  refine ⟨_, Command.run_eq_ok_some_iff.2 ⟨_, _, hload, hf.anchorAt_cursorFor ha, rfl⟩, ?_⟩
  exact congrArg some (hf.cursorFor_written a)

end Focus

/-- The edit of one of these commands can be applied, and what it writes is already formatted:
formatting it from its first line gives the same text in the same place, and formatting at the
cursor keeps a cursor that is on a data row. -/
theorem formatted_of_run {command : Command}
    (hcommand : command ∈ [Command.format, .nextCell, .previousCell, .nextRow, .clearCell,
      .insertRowBelow, .insertColumnRight])
    (hdoc : ∀ l ∈ doc, '\n' ∉ l) (h : command.run options d doc p = .ok (some e)) :
    ∃ doc', e.apply doc = .ok doc' ∧
      (∀ character options', ∃ e',
        Command.run .format options' d doc' ⟨e.region.startLine, character⟩ = .ok (some e') ∧
        e'.region.startLine = e.region.startLine ∧ e'.text = e.text) ∧
      ∀ q g cells options', e.cursor = some q → Focus.load d doc' q.line = .ok (some g) →
        g.table.rows[q.line - g.region.startLine]? = some (.data cells) →
        ∃ e', Command.run .format options' d doc' q = .ok (some e') ∧ e'.cursor = some q := by
  obtain ⟨f, anchor, hload, hanchor, hperform⟩ := Command.run_eq_ok_some_iff.1 h
  obtain ⟨rfl, -⟩ := Focus.legible_of_load hload
  have hsound := Focus.sound_of_load hdoc hload
  obtain ⟨pre, rest, _, hold, rfl, -⟩ := Focus.exists_between_of_load hdoc hload
  obtain ⟨u, cursor, hedit, htarget, rfl⟩ := hsound.writesBlanks_perform hanchor hcommand hperform
  have hu := hsound.blankEdit hedit
  have hnew := hold.withTable u
  refine ⟨_, hnew.apply_replace hu cursor, fun character options' => ?_, ?_⟩
  · have hpos : 0 < u.rowCount := List.length_pos_iff.2 hu.rows_ne_nil
    exact hnew.exists_format_written hu hpos rfl options'
  · rintro q g cells options' rfl hg hdata
    cases htarget with
    | cell ha => exact hnew.exists_format_cursorFor hu ha options'
    | @separator row hrow =>
      have hlt : row < u.rowCount := (List.getElem?_eq_some_iff.1 hrow).1
      obtain rfl := Option.some.inj (Except.ok.inj ((hnew.load_written hu hlt).symm.trans hg))
      have hsub : f.region.startLine + row - f.region.startLine = row := by omega
      exact absurd (hdata.symm.trans (hsub.symm ▸ hrow)) (by simp)

/-- Clearing the widest cell of a column makes the column narrower at once, so formatting the
table afterwards leaves text and cursor alone. -/
theorem formatted_of_run_cleared :
    ∃ e e', Command.run .clearCell {} .markdown ["|long|b|".toList, "|:-:|--:|".toList] ⟨0, 2⟩ =
        .ok (some e) ∧
      Command.run .format {} .markdown ["|     | b   |".toList, "| :-: | --: |".toList] ⟨0, 2⟩ =
        .ok (some e') ∧
      e'.cursor = e.cursor := by
  have he : Command.run .clearCell {} .markdown ["|long|b|".toList, "|:-:|--:|".toList] ⟨0, 2⟩ =
      .ok (some ⟨⟨0, 1⟩, "|     | b   |\n| :-: | --: |".toList, some ⟨0, 2⟩⟩) := rfl
  obtain ⟨doc', hdoc', -, hcursor⟩ := formatted_of_run (by decide) (by decide) he
  obtain rfl : _ = doc' := Except.ok.inj hdoc'
  obtain ⟨e', he', hsame⟩ := hcursor ⟨0, 2⟩ _ _ {} rfl rfl rfl
  exact ⟨_, e', he, he', hsame⟩

end PipeTable
