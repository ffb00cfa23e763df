import PipeTable.Proofs.Command.Writing
import PipeTable.Proofs.Navigation.RowWalk

/-! # The column in the next row

A move to the next row starts where the content of the cell under the cursor starts, and ends in
the last cell of the next data row whose opening bar stands before this character. Columns are
aligned by display width but places in a line are counted in characters. So the move keeps the
column if the two rows have no wide characters, and may end in another column if they do.
-/

namespace PipeTable

open Text

/-- Cell `col` is the last one of the first `cols` cells of a line whose opening bar stands
before a character. -/
def IsLastBefore (line : Text) (cols character col : Nat) : Prop :=
  col < cols ∧ (∃ opening, (Span.bars line)[col]? = some opening ∧ opening < character) ∧
    ∀ j b, col < j → j < cols → (Span.bars line)[j]? = some b → character ≤ b

theorem IsLastBefore.le {line : Text} {cols character i j : Nat}
    (hi : IsLastBefore line cols character i) (hj : IsLastBefore line cols character j) :
    j ≤ i := by
  obtain ⟨hlt, ⟨b, hb, hbefore⟩, -⟩ := hj
  by_contra h
  exact absurd (hi.2.2 j b (Nat.not_le.1 h) hlt hb) (Nat.not_le.2 hbefore)

theorem IsLastBefore.unique {line : Text} {cols character i j : Nat}
    (hi : IsLastBefore line cols character i) (hj : IsLastBefore line cols character j) : i = j :=
  Nat.le_antisymm (hj.le hi) (hi.le hj)

namespace Focus

variable {f : Focus} {s : Stop} {a : CellAddress} {row : Nat} {cells : List Text}

theorem Sound.bars_row (h : f.Sound) (hr : f.table.rows[row]? = some (.data cells)) {j : Nat}
    (hj : j ≤ f.table.colCount) :
    (Span.bars (f.indent ++ f.table.rowText f.dialect (.data cells)))[j]? =
      some (f.table.barOffset f.indent cells j) := by
  have hmem := List.mem_of_getElem? hr
  exact Table.bars_rowText_data f.blank_indent
    (fun v hv => (h.legible.cellTexts cells hmem v hv).2.1) (h.wellFormed.rectangular cells hmem) hj

theorem Sound.bars_eq (h : f.Sound) {row' : Nat} {others : List Text}
    (hr : f.table.rows[row]? = some (.data cells)) (hr' : f.table.rows[row']? = some (.data others))
    (hnarrow : Narrow cells) (hnarrow' : Narrow others) :
    Span.bars (f.indent ++ f.table.rowText f.dialect (.data cells)) =
      Span.bars (f.indent ++ f.table.rowText f.dialect (.data others)) := by
  have hmem := List.mem_of_getElem? hr
  have hmem' := List.mem_of_getElem? hr'
  have hbar : ∀ v ∈ cells ++ others, bar ∉ v := List.forall_mem_append.2
    ⟨fun v hv => (h.legible.cellTexts cells hmem v hv).2.1,
      fun v hv => (h.legible.cellTexts others hmem' v hv).2.1⟩
  exact h.wellFormed.bars_rowText_eq f.blank_indent hmem hmem' hbar hnarrow hnarrow'

theorem Sound.span_eq (h : f.Sound) (hs : s ∈ f.writtenCells.cells)
    (hr : f.table.rows[s.row]? = some (.data cells)) :
    s.span = ⟨f.table.barOffset f.indent cells s.col + 1,
      f.table.barOffset f.indent cells s.col + 2,
      f.table.barOffset f.indent cells (s.col + 1)⟩ := by
  rw [writtenCells, h.lines_render] at hs
  obtain ⟨others, hr', -, hspan⟩ :=
    CellMap.span_of_mem_written h.wellFormed f.blank_indent h.legible.cellTexts hs
  obtain rfl := Row.data.inj (Option.some.inj (hr.symm.trans hr'))
  exact hspan

theorem Sound.isLastBefore (h : f.Sound) (hr : f.table.rows[row]? = some (.data cells))
    {character : Nat} (hfirst : f.indent.length < character)
    (hlast : CellMap.LastFrom (f.writtenCells.cells.filter fun u => u.row == row) character s) :
    IsLastBefore (f.indent ++ f.table.rowText f.dialect (.data cells)) f.table.colCount character
      s.col := by
  have hcell {j : Nat} (hj : j < f.table.colCount) : ∃ u ∈ f.writtenCells.cells,
      u.address = ⟨row, j⟩ ∧ u.span.cellStart = f.table.barOffset f.indent cells j + 1 := by
    have hmem : ⟨row, j⟩ ∈ f.table.cellAddresses := Table.mem_cellAddresses.2 ⟨⟨cells, hr⟩, hj⟩
    obtain ⟨u, hu, hua⟩ := CellMap.exists_cell_inDocument hmem (Text.lines f.render)
    obtain ⟨rfl, rfl⟩ := CellAddress.mk.inj hua
    exact ⟨u, hu, rfl, congrArg Span.cellStart (h.span_eq hu hr)⟩
  have hin {u : Stop} {j : Nat} (hu : u ∈ f.writtenCells.cells) (hua : u.address = ⟨row, j⟩) :
      u ∈ f.writtenCells.cells.filter fun u => u.row == row :=
    List.mem_filter.2 ⟨hu, beq_iff_eq.2 (congrArg CellAddress.row hua)⟩
  obtain ⟨hs, hsrow⟩ := List.mem_filter.1 hlast.mem
  obtain rfl : s.row = row := beq_iff_eq.1 hsrow
  obtain ⟨-, -, hcol⟩ := CellMap.exists_data_of_mem_cells hs
  have hstart := congrArg Span.cellStart (h.span_eq hs hr)
  refine ⟨hcol, ⟨_, h.bars_row hr (Nat.le_of_lt hcol), ?_⟩, fun j b hlt hj hb => ?_⟩
  · obtain ⟨u, hu, hua, hustart⟩ := hcell (Nat.zero_lt_of_lt hcol)
    have hzero : f.table.barOffset f.indent cells 0 = f.indent.length := rfl
    have hle := (hlast.last u (hin hu hua) (by omega)).1
    dsimp only at hstart
    omega
  · obtain rfl := Option.some.inj ((h.bars_row hr (Nat.le_of_lt hj)).symm.trans hb)
    obtain ⟨u, hu, hua, hustart⟩ := hcell hj
    obtain ⟨hurow, hucol⟩ := CellAddress.mk.inj hua
    by_contra hbefore
    rcases (hlast.last u (hin hu hua) (by omega)).2 with rfl | hlt' | ⟨-, hlt', -⟩ <;> omega

/-- The next data row is the first one below, and its cell the last one that starts at or before
the cursor. -/
theorem Sound.exists_nextRow (h : f.Sound) (hrow : a.row < row)
    (hskip : ∀ i, a.row < i → i < row → f.table.rows[i]? = some .separator)
    (hr : f.table.rows[row]? = some (.data cells)) :
    ∃ s, f.writtenCells.nextRowInDocument (f.cursorFor a) = some s.position ∧
      CellMap.LastFrom (f.writtenCells.cells.filter fun u => u.row == row)
        (f.cursorFor a).character s := by
  have hbelow : (f.cursorFor a).line + 1 = f.region.startLine + (a.row + 1) := by
    rw [h.line_cursorFor, Nat.add_assoc]
  obtain ⟨s, hs, hlast⟩ := h.ordered_writtenCells.exists_nextRowFrom (f.cursorFor a).character
    (CellMap.numbering_add f.region.startLine (row + 1)) (CellMap.hasLeft_stops _ _ _ _) hrow
    (fun i hi hlt => Stop.exists_of_separator (hskip i hi hlt) _ _)
    (CellMap.exists_cell_of_isDataRow h.wellFormed.toShaped ⟨cells, hr⟩ _ _)
  exact ⟨s, (congrArg _ hbelow).trans hs, hlast⟩

theorem Sound.positionOf_eq (h : f.Sound) (ha : a ∈ f.table.cellAddresses) :
    f.writtenCells.positionOf a = some (f.cursorFor a) := by
  obtain ⟨s, hs, rfl⟩ := CellMap.exists_cell_inDocument ha (Text.lines f.render)
  rw [h.cursorFor_eq hs]
  exact h.ordered_writtenCells.positionOf_eq hs

theorem Sound.nextRow_eq (h : f.Sound) {anchor : Option Anchor} {p q : Position}
    (hcell : anchor.bind Anchor.cell = some a) (ha : a ∈ f.table.cellAddresses)
    (hnext : f.writtenCells.nextRowInDocument (f.cursorFor a) = some q) (options : CommandOptions) :
    f.nextRow p anchor options = some (f.replace (some q)) := by
  obtain ⟨cell, rfl, ha'⟩ := Option.bind_eq_some_iff.1 hcell
  have hstart : f.rowMoveStart p cell = some (f.cursorFor a, a.col) := by
    rw [rowMoveStart, ha']
    exact congrArg (Option.map fun q => (q, a.col)) (h.positionOf_eq ha)
  rw [nextRow, Option.bind_some, hstart, Option.map_some]
  simp only [hnext]

/-- The content of a cell starts behind the opening bar of its row, and the cell is the last one
of its row that begins before. -/
theorem Sound.isLastBefore_self (h : f.Sound) (ha : a ∈ f.table.cellAddresses)
    (hr : f.table.rows[a.row]? = some (.data cells)) :
    f.indent.length < (f.cursorFor a).character ∧
      IsLastBefore (f.indent ++ f.table.rowText f.dialect (.data cells)) f.table.colCount
        (f.cursorFor a).character a.col := by
  obtain ⟨s, hs, rfl⟩ := CellMap.exists_cell_inDocument ha (Text.lines f.render)
  have hstart := congrArg Span.start (h.span_eq hs hr)
  have hoffset : f.indent.length ≤ f.table.barOffset f.indent cells s.col := Nat.le_add_right _ _
  have hfirst : f.indent.length < s.span.start := by
    dsimp only at hstart
    omega
  rw [h.cursorFor_eq hs]
  exact ⟨hfirst, h.isLastBefore hr hfirst (h.ordered_writtenCells.lastFrom_self hs)⟩

end Focus

/-- From a cell with a data row below, the cursor goes to the first such row, and there into the
last cell whose opening bar stands before the character where the content of the old cell starts
in the written table. If both rows have no wide characters, this cell is in the same column. -/
theorem nextRow_column {d : Dialect} {doc : List Text} {p : Position} {f : Focus}
    {anchor : Option Anchor} {a : CellAddress} {row : Nat} {below : List Text}
    (hdoc : ∀ l ∈ doc, '\n' ∉ l) (hload : Focus.load d doc p.line = .ok (some f))
    (hanchor : f.anchorAt p = .ok anchor) (hcell : anchor.bind Anchor.cell = some a)
    (hrow : a.row < row)
    (hskip : ∀ i, a.row < i → i < row → f.table.rows[i]? = some .separator)
    (hbelow : f.table.rows[row]? = some (.data below)) (options : CommandOptions) :
    ∃ e q x line col, Command.run .nextRow options d doc p = .ok (some e) ∧
      e.region = f.region ∧ e.text = f.table.render d f.indent ∧ e.cursor = some q ∧
      IsContentStart f.region.startLine (lines e.text) a ⟨f.region.startLine + a.row, x⟩ ∧
      IsContentStart f.region.startLine (lines e.text) ⟨row, col⟩ q ∧
      (lines e.text)[row]? = some line ∧
      (∀ j, IsLastBefore line f.table.colCount x j ↔ j = col) ∧
      (∀ cells, f.table.rows[a.row]? = some (.data cells) → Narrow cells → Narrow below →
        col = a.col) := by
  obtain ⟨rfl, -⟩ := Focus.legible_of_load hload
  have hf := Focus.sound_of_load hdoc hload
  have ha := Focus.mem_cellAddresses_of_anchorAt hf.startLine hanchor hcell
  obtain ⟨⟨own, hown⟩, -⟩ := Table.mem_cellAddresses.1 ha
  obtain ⟨s, hnext, hlast⟩ := hf.exists_nextRow hrow hskip hbelow
  obtain ⟨hs, hsrow⟩ := List.mem_filter.1 hlast.mem
  obtain rfl : s.row = row := beq_iff_eq.1 hsrow
  have hperform : f.perform p anchor .nextRow options = .ok (some (f.replace (some s.position))) :=
    congrArg Except.ok (hf.nextRow_eq hcell ha hnext options)
  have hrun := Command.run_eq_ok_some_iff.2 ⟨f, anchor, hload, hanchor, hperform⟩
  obtain ⟨hfirst, hself⟩ := hf.isLastBefore_self ha hown
  have hsame := hf.isLastBefore hbelow hfirst hlast
  have hposition : f.cursorFor a = ⟨f.region.startLine + a.row, (f.cursorFor a).character⟩ := by
    rw [← hf.line_cursorFor]
  have hline : (lines f.render)[s.row]? =
      some (f.indent ++ f.table.rowText f.dialect (.data below)) := by
    rw [hf.lines_render, Focus.written, Table.renderLines, List.getElem?_map, hbelow]
    rfl
  refine ⟨_, s.position, (f.cursorFor a).character, _, s.col, hrun, rfl, rfl, rfl, ?_, ?_,
    hline,
    fun j => ⟨fun hj => hj.unique hsame, fun hj => hj ▸ hsame⟩, ?_⟩
  · exact hposition ▸ hf.isContentStart_cursorFor ha
  · rw [← hf.cursorFor_eq hs]
    exact hf.isContentStart_cursorFor (CellMap.address_mem_of_mem_cells hs)
  · intro cells hcells hnarrow hnarrow'
    obtain rfl := Row.data.inj (Option.some.inj (hown.symm.trans hcells))
    rw [IsLastBefore, hf.bars_eq hown hbelow hnarrow hnarrow'] at hself
    exact hsame.unique hself

/-- Below two wide characters a narrow cell reaches so far to the right that the move to the next
row ends in it, and not in the second column where it came from. -/
theorem nextRow_column_wide :
    ∃ e, Command.run .nextRow {} .markdown ["| 日本 | x |".toList, "| abcd | y |".toList] ⟨0, 7⟩ =
        .ok (some e) ∧
      e.text = "| 日本 | x |\n| abcd | y |".toList ∧ e.cursor = some ⟨1, 2⟩ ∧
      IsContentStart 0 (lines e.text) ⟨1, 1⟩ ⟨1, 9⟩ := by
  obtain ⟨f, hload⟩ : ∃ f, Focus.load .markdown
      ["| 日本 | x |".toList, "| abcd | y |".toList] 0 = .ok (some f) := ⟨_, rfl⟩
  obtain rfl := Option.some.inj (Except.ok.inj hload)
  obtain ⟨e, q, x, line, col, hrun, -, htext, hcursor, hown, hnext, hline, hcol, -⟩ :=
    nextRow_column (p := ⟨0, 7⟩) (a := ⟨0, 1⟩) (by decide) hload rfl rfl (Nat.lt_succ_self 0)
      (fun i hi hlt => absurd hlt (by omega)) rfl {}
  have hlines : lines e.text = ["| 日本 | x |".toList, "| abcd | y |".toList] :=
    congrArg lines htext
  rw [hlines] at hown hnext hline
  obtain ⟨_, _, hfirst, hopening, hx⟩ := hown
  obtain rfl := Option.some.inj hfirst
  obtain rfl := Option.some.inj hopening
  obtain rfl := (Position.mk.inj hx).2
  obtain rfl := Option.some.inj hline
  have hzero : IsLastBefore "| abcd | y |".toList 2 7 0 := by
    refine ⟨by decide, ⟨0, rfl, by decide⟩, fun j b hj hlt hb => ?_⟩
    obtain rfl : j = 1 := by omega
    exact Nat.le_of_eq (Option.some.inj hb)
  obtain rfl := (hcol 0).1 hzero
  obtain ⟨_, _, hsecond, hopening, rfl⟩ := hnext
  obtain rfl := Option.some.inj hsecond
  obtain rfl := Option.some.inj hopening
  refine ⟨e, hrun, htext, hcursor, ?_⟩
  rw [hlines]
  exact ⟨_, _, rfl, rfl, rfl⟩

end PipeTable
