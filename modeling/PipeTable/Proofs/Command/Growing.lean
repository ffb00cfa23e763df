import PipeTable.Proofs.Command.CellWalk
import PipeTable.Proofs.Command.NextRow
import PipeTable.Proofs.Command.Totality
import PipeTable.Proofs.Navigation.RowWalk
import PipeTable.Proofs.Text.Documents

/-! # Moves that grow the table

Moves write what formatting writes. They are decided on the table as it will be written, while
the cursor stands in the lines as they are, but both have the same cells in the same order and
the same rows. So the lines as they are tell whether a table grows: the next cell appends an
empty row if the cursor is in the last cell, and the next row does if no data row is left below
the cursor.
-/

namespace PipeTable

open Text

variable {doc : List Text} {f : Focus} {p : Position}

/-- The text before gets one more line exactly if it is to grow. -/
def GrownBy (grows : Prop) (line before after : Text) : Prop :=
  (grows → after = before ++ '\n' :: line) ∧ (¬ grows → after = before)

theorem grownBy_of_not {grows : Prop} (h : ¬ grows) (line before : Text) :
    GrownBy grows line before before :=
  ⟨fun hgrows => absurd hgrows h, fun _ => rfl⟩

theorem grownBy_of {grows : Prop} (h : grows) (line before : Text) :
    GrownBy grows line before (before ++ '\n' :: line) :=
  ⟨fun _ => rfl, fun hnot => absurd h hnot⟩

namespace Focus

/-- The line that an empty data row is written as. -/
def blankLine (f : Focus) : Text :=
  f.indent ++ f.table.rowText f.dialect (Table.blankRow f.table.colCount .data)

theorem Sound.newline_not_mem_blankLine (h : f.Sound) : '\n' ∉ f.blankLine := by
  have hrow : '\n' ∉ f.table.rowText f.dialect (Table.blankRow f.table.colCount .data) := by
    apply Table.newline_not_mem_rowText
    intro v hv
    rw [List.eq_of_mem_replicate hv]
    exact List.not_mem_nil
  unfold blankLine
  simp [h.newline, hrow]

theorem Sound.text_appendRow (h : f.Sound) (col : Nat) :
    (f.appendRow col).text = f.render ++ '\n' :: f.blankLine := by
  have hlines : (f.table.addRow .data []).renderLines f.dialect f.indent =
      f.table.renderLines f.dialect f.indent ++ [f.blankLine] :=
    Table.renderLines_addRows_blank h.columns_ne_nil 1 f.dialect f.indent
  have hne : f.table.renderLines f.dialect f.indent ≠ [] := by
    simpa [Table.renderLines] using h.rows_ne_nil
  calc (f.appendRow col).text
      = joinLines ((f.table.addRow .data []).renderLines f.dialect f.indent) := rfl
    _ = f.render ++ '\n' :: f.blankLine := by
      rw [hlines, joinLines_concat hne]
      rfl

/-- The cursor is in the last data cell of the table in the document. -/
def InLastCell (f : Focus) (p : Position) : Prop :=
  ∃ s, f.liveCells.cells.getLast? = some s ∧ s.isAt p = true

theorem Sound.exists_inside_of_inLastCell (h : f.Sound) (hlast : f.InLastCell p) :
    ∃ a, f.anchorAt p = .ok (some (.inside a)) := by
  obtain ⟨s, hs, hat⟩ := hlast
  exact ⟨s.address, anchorAt_of_isAt h.startLine (List.mem_of_getLast? hs) hat⟩

theorem inLastCell_iff {k : Nat} {s : Stop} (hk : f.liveCells.cells[k]? = some s)
    (hat : s.isAt p = true) :
    f.InLastCell p ↔ k + 1 = f.liveCells.cells.length := by
  have hordered := CellMap.ordered_inDocument f.table f.lines
  have hlt := (List.getElem?_eq_some_iff.1 hk).1
  have hmem {u : Stop} (hu : u ∈ f.liveCells.cells) : u ∈ f.liveCells.stops :=
    (CellMap.mem_cells.1 hu).1
  unfold InLastCell
  rw [List.getLast?_eq_getElem?]
  constructor
  · rintro ⟨u, hu, huat⟩
    have heq : s = u := hordered.eq_of_isAt (hmem (List.mem_of_getElem? hk))
      (hmem (List.mem_of_getElem? hu)) hat huat
    have hindex := (List.getElem?_inj hlt (hordered.nodup.filter _)).1 (hk.trans (heq ▸ hu.symm))
    omega
  · intro hlast
    refine ⟨s, ?_, hat⟩
    rw [← hlast, Nat.add_sub_cancel, hk]

theorem Sound.exists_nextCell_grown (h : f.Sound) {anchor : Anchor}
    (hanchor : f.anchorAt p = .ok (some anchor)) (options : CommandOptions) :
    ∃ e, f.nextCell (some anchor) options = some e ∧
      GrownBy (options.autoAddRow = true ∧ f.InLastCell p) f.blankLine f.render e.text := by
  -- only from inside a cell a row is appended, and only in a cell the cursor can be in the last
  have houtside (hinside : ∀ a, anchor ≠ .inside a) : ¬ f.InLastCell p := by
    intro hlast
    obtain ⟨a, ha⟩ := h.exists_inside_of_inLastCell hlast
    exact hinside a (Option.some.inj (Except.ok.inj (hanchor.symm.trans ha)))
  rcases exists_of_anchorAt h.startLine hanchor with ⟨row, rfl, -⟩ | ⟨s, hs, hat, rfl⟩ |
    ⟨s, -, rfl⟩
  · exact ⟨_, rfl, grownBy_of_not (fun hgrows => houtside nofun hgrows.2) _ _⟩
  · obtain ⟨k, hk⟩ := List.mem_iff_getElem?.1 hs
    have hlast := inLastCell_iff hk hat
    have hcount : f.liveCells.cells.length = f.table.cellAddresses.length :=
      CellMap.length_cells _ f.table f.lines
    obtain ⟨b, -, hnext⟩ := h.nextCell_inside (CellMap.getElem?_cellAddresses hk) options
    refine ⟨_, hnext, ?_⟩
    rw [← hcount]
    by_cases hgrows : options.autoAddRow = true ∧ f.InLastCell p
    · rw [if_pos ⟨hlast.1 hgrows.2, hgrows.1⟩, h.text_appendRow]
      exact grownBy_of hgrows _ _
    · rw [if_neg fun h => hgrows ⟨h.2, hlast.2 h.1⟩]
      exact grownBy_of_not hgrows _ _
  · exact ⟨_, rfl, grownBy_of_not (fun hgrows => houtside nofun hgrows.2) _ _⟩

def NoRowBelow (f : Focus) (p : Position) : Prop :=
  ∀ row, p.line < f.region.startLine + row → ¬ f.table.IsDataRow row

section OnRow

variable {row : Nat} {anchor : Anchor} (h : f.Sound) (hline : p.line = f.region.startLine + row)
  (hrow : row < f.table.rowCount) (hcell : anchor.cell = f.liveCells.cellAt p)

include h hline hrow hcell

theorem Sound.exists_rowMoveStart :
    ∃ current col, f.rowMoveStart p anchor = some (current, col) ∧ current.line = p.line := by
  unfold rowMoveStart
  rw [hcell]
  cases ha : f.liveCells.cellAt p with
  | none => exact ⟨_, _, rfl, rfl⟩
  | some a =>
    obtain ⟨hmem, harow⟩ := h.regular.of_cellAt hline hrow ha
    refine ⟨f.cursorFor a, a.col, ?_, ?_⟩
    · simp only [h.positionOf_eq hmem, Option.map_some]
    · rw [h.line_cursorFor, harow, hline]

/-- The next row appends one if no data row is left below, and else only formats. -/
theorem Sound.exists_nextRow_grown (options : CommandOptions) :
    ∃ e, f.nextRow p (some anchor) options = some e ∧
      GrownBy (options.autoAddRow = true ∧ f.NoRowBelow p) f.blankLine f.render e.text := by
  obtain ⟨current, col, hstart, hcurrent⟩ := h.exists_rowMoveStart hline hrow hcell
  have hnone : f.writtenCells.nextRowInDocument current = none ↔ f.NoRowBelow p := by
    have hle : f.table.startLine ≤ current.line + 1 := by
      rw [hcurrent, hline, h.startLine]
      omega
    rw [writtenCells, CellMap.nextRowInDocument_eq_none_iff h.wellFormed.toShaped hle, hcurrent, h.startLine,
      NoRowBelow]
  rw [nextRow, Option.bind_some, hstart, Option.map_some]
  refine ⟨_, rfl, ?_⟩
  dsimp only
  cases hnext : f.writtenCells.nextRowInDocument current with
  | some target =>
    refine grownBy_of_not (fun hgrows => ?_) _ _
    cases (hnone.2 hgrows.2).symm.trans hnext
  | none =>
    have hbelow := hnone.1 hnext
    by_cases hauto : options.autoAddRow = true
    · dsimp only
      rw [if_pos hauto, h.text_appendRow]
      exact grownBy_of ⟨hauto, hbelow⟩ _ _
    · dsimp only
      rw [if_neg hauto]
      exact grownBy_of_not (fun hgrows => hauto hgrows.1) _ _

end OnRow

end Focus

/-- On a table line all moves write the text that formatting writes. Only where rows may be added,
the next cell adds one line to it if the cursor is in the last data cell, and the next row does
if no data row is below the cursor: the line of an empty row, indented as the table is. -/
theorem moves_grow {l : Text} (hdoc : ∀ l ∈ doc, '\n' ∉ l) (hl : doc[p.line]? = some l)
    (htable : isTableLine l = true) (d : Dialect) (options : CommandOptions) :
    ∃ f formatted previous next below, Focus.load d doc p.line = .ok (some f) ∧
      Command.run .format options d doc p = .ok (some formatted) ∧
      Command.run .previousCell options d doc p = .ok (some previous) ∧
      Command.run .nextCell options d doc p = .ok (some next) ∧
      Command.run .nextRow options d doc p = .ok (some below) ∧
      '\n' ∉ f.blankLine ∧
      previous.text = formatted.text ∧
      GrownBy (options.autoAddRow = true ∧ f.InLastCell p) f.blankLine formatted.text next.text ∧
      GrownBy (options.autoAddRow = true ∧ f.NoRowBelow p) f.blankLine formatted.text
        below.text := by
  obtain ⟨f, hload⟩ := Focus.exists_load_of_tableLine hl htable d
  have hf := Focus.sound_of_load hdoc hload
  obtain ⟨pre, rest, row, -, -, -, hrow, hline⟩ := Focus.exists_between_of_load hdoc hload
  obtain ⟨anchor, hanchor, hcell⟩ := hf.regular.exists_anchor hline hrow
  have hmem : ∀ a, anchor.cell = some a → a ∈ f.table.cellAddresses := fun a ha =>
    Focus.mem_cellAddresses_of_anchorAt hf.startLine hanchor ha
  obtain ⟨previous, hprevious⟩ := Focus.exists_previousCell hmem
  obtain ⟨next, hnext, hnextText⟩ := hf.exists_nextCell_grown hanchor options
  obtain ⟨below, hbelow, hbelowText⟩ := hf.exists_nextRow_grown hline hrow hcell options
  have hrun (command : Command) : command.run options d doc p =
      f.perform p (some anchor) command options := Command.run_of_load hload hanchor
  refine ⟨f, f.replace ((anchor.cell).map f.cursorFor), previous, next, below, hload, ?_, ?_, ?_,
    ?_, hf.newline_not_mem_blankLine, ?_, hnextText, hbelowText⟩
  · rw [hrun]
    rfl
  · exact (hrun .previousCell).trans (congrArg Except.ok hprevious)
  · exact (hrun .nextCell).trans (congrArg Except.ok hnext)
  · exact (hrun .nextRow).trans (congrArg Except.ok hbelow)
  · obtain ⟨cursor, rfl⟩ := Focus.exists_of_previousCell hprevious
    rfl

/-- From behind the only cell, which is not closed yet, past a separator row. -/
theorem moves_grow_unfinished :
    ∃ next below,
      Command.run .nextCell {} .org ["\t|a".toList, "|-".toList] ⟨0, 3⟩ = .ok (some next) ∧
      Command.run .nextRow {} .org ["\t|a".toList, "|-".toList] ⟨0, 3⟩ = .ok (some below) ∧
      next.text = "\t| a   |\n\t|-----|\n\t|     |".toList ∧ below.text = next.text := by
  have hdoc : ∀ l ∈ ["\t|a".toList, "|-".toList], '\n' ∉ l := by decide
  obtain ⟨f, formatted, previous, next, below, hload, hformat, -, hnext, hbelow, -, -,
    hnextText, hbelowText⟩ := moves_grow (p := ⟨0, 3⟩) hdoc rfl (by decide) .org {}
  obtain rfl := Option.some.inj (Except.ok.inj hload)
  obtain rfl := Option.some.inj (Except.ok.inj hformat)
  refine ⟨next, below, hnext, hbelow, hnextText.1 ⟨rfl, _, rfl, rfl⟩, ?_⟩
  rw [hnextText.1 ⟨rfl, _, rfl, rfl⟩]
  refine hbelowText.1 ⟨rfl, fun row hrow hdata => ?_⟩
  obtain ⟨cells, hcells⟩ := hdata
  match row, hcells with
  | 1, hcells => cases hcells

end PipeTable
