import PipeTable.Proofs.Command.Outcome
import PipeTable.Proofs.Table.RoundTrip

/-! # Column edits and the next reading

A command that moves or deletes a column writes the edited table over the old one, and the next
command reads it again. What was read before was legible, and a column edit keeps nearly all of
that: cells stay cell texts, rows keep their kinds, and Org tables stay left-aligned. In
Markdown two things can break. A cell that looks like a rule can get into the first column, and
an aligned column can leave the first place of a table that has its separators on top.
-/

namespace PipeTable

open Text

/-- The table that a command on column `col` of `t` leaves to be written. -/
inductive ColumnEdit (t : Table) : Nat → Command → Table → Prop
  | moveLeft {target : Nat} {u : Table} (h : t.swapColumns (target + 1) target = .ok u) :
      ColumnEdit t (target + 1) .moveColumnLeft u
  | moveRight {col : Nat} {u : Table} (h : t.swapColumns col (col + 1) = .ok u) :
      ColumnEdit t col .moveColumnRight u
  | delete {col : Nat} {u : Table} (h : t.removeColumn col = .ok (some u)) :
      ColumnEdit t col .deleteColumn u

theorem ColumnEdit.exists_of_step {t u : Table} {direction : Direction} {col target : Nat}
    (hstep : direction.step col t.colCount = some target) (hu : t.swapColumns col target = .ok u) :
    ∃ command, ColumnEdit t col command u := by
  cases direction with
  | back =>
    obtain rfl := Direction.step_back_eq_some hstep
    exact ⟨_, .moveLeft hu⟩
  | forward =>
    obtain rfl := Direction.step_forward_eq_some hstep
    exact ⟨_, .moveRight hu⟩

section Commands

variable {f : Focus} {anchor : Option Anchor} {e : Replacement}

theorem Focus.exists_columnEdit {command : Command} {options : CommandOptions} {p : Position}
    (hcommand : command = .moveColumnLeft ∨ command = .moveColumnRight ∨ command = .deleteColumn)
    (h : f.perform p anchor command options = .ok (some e)) :
    ∃ cell u, anchor.bind Anchor.cell = some cell ∧ ColumnEdit f.table cell.col command u ∧
      e.text = u.render f.dialect f.indent := by
  rcases hcommand with rfl | rfl | rfl
  · obtain ⟨⟨row, col⟩, target, u, hcell, hstep, hu, rfl⟩ := moveColumn_eq_ok_some_iff.1 h
    obtain rfl : col = target + 1 := Direction.step_back_eq_some hstep
    exact ⟨_, u, hcell, .moveLeft hu, rfl⟩
  · obtain ⟨cell, target, u, hcell, hstep, hu, rfl⟩ := moveColumn_eq_ok_some_iff.1 h
    obtain rfl := Direction.step_forward_eq_some hstep
    exact ⟨cell, u, hcell, .moveRight hu, rfl⟩
  · obtain ⟨cell, u, hcell, hu, rfl⟩ := deleteColumn_eq_ok_some_iff.1 h
    exact ⟨cell, u, hcell, .delete hu, rfl⟩

end Commands

namespace ColumnEdit

variable {t u : Table} {col : Nat} {command : Command} {d : Dialect}

theorem exists_rearrangement (h : ColumnEdit t col command u) :
    ∃ (columns : List Column) (g : List Text → List Text),
      u = { t with columns := columns, rows := t.rows.map (Row.mapCells g) }.refit ∧
      (∀ c ∈ columns, c ∈ t.columns) ∧ (∀ cells, ∀ v ∈ g cells, v ∈ cells) ∧ 2 ≤ t.colCount := by
  cases h with
  | moveLeft h =>
    obtain ⟨ha, -, -, rfl⟩ := Table.swapColumns_eq_ok_iff.1 h
    exact ⟨_, _, rfl, fun _ => mem_of_mem_exchange, fun _ _ => mem_of_mem_exchange, by omega⟩
  | moveRight h =>
    obtain ⟨-, hb, -, rfl⟩ := Table.swapColumns_eq_ok_iff.1 h
    exact ⟨_, _, rfl, fun _ => mem_of_mem_exchange, fun _ _ => mem_of_mem_exchange, by omega⟩
  | delete h =>
    obtain ⟨hcol, hone, -, rfl⟩ := Table.removeColumn_eq_ok_some_iff.1 h
    exact ⟨_, _, rfl, fun _ => List.mem_of_mem_eraseIdx, fun _ _ => List.mem_of_mem_eraseIdx,
      by omega⟩

theorem wellFormed (h : ColumnEdit t col command u) (ht : t.WellFormed) : u.WellFormed := by
  cases h with
  | moveLeft h => exact ht.swapColumns h
  | moveRight h => exact ht.swapColumns h
  | delete h => exact ht.removeColumn h

theorem kinds_eq (h : ColumnEdit t col command u) : u.kinds = t.kinds := by
  obtain ⟨columns, g, rfl, -⟩ := h.exists_rearrangement
  simp [Table.kinds]

theorem hasData (h : ColumnEdit t col command u) (ht : t.RowsLegible d) : u.HasData := by
  obtain ⟨-, -, -, -, -, htwo⟩ := h.exists_rearrangement
  have hdata : t.HasData := ht.columnsRead.resolve_right (by omega)
  unfold Table.HasData at hdata ⊢
  rwa [h.kinds_eq]

theorem rows_ne_nil (h : ColumnEdit t col command u) (ht : t.RowsLegible d) : u.rows ≠ [] := by
  obtain ⟨cells, hcells⟩ := u.hasData_iff.1 (h.hasData ht)
  exact List.ne_nil_of_mem hcells

theorem cellTexts (h : ColumnEdit t col command u) (ht : t.RowsLegible d) :
    ∀ cells, Row.data cells ∈ u.rows → ∀ v ∈ cells, CellText v := by
  obtain ⟨columns, g, rfl, -, hg, -⟩ := h.exists_rearrangement
  intro cells hcells v hv
  obtain ⟨r, hr, heq⟩ := List.mem_map.1 hcells
  cases r with
  | separator => cases heq
  | data old =>
    obtain rfl := Row.data.inj heq
    exact ht.cellTexts old hr v (hg old v hv)

theorem mem_alignments (h : ColumnEdit t col command u) {a : Alignment} (ha : a ∈ u.alignments) :
    a ∈ t.alignments := by
  obtain ⟨columns, g, rfl, hcolumns, -, -⟩ := h.exists_rearrangement
  rw [Table.alignments_refit] at ha
  obtain ⟨c, hc, rfl⟩ := List.mem_map.1 ha
  exact List.mem_map_of_mem (hcolumns c hc)

/-- The edited table is legible in Org always, in Markdown if neither its first cells nor its
alignments stand in the way. -/
theorem legible_iff (h : ColumnEdit t col command u) (ht : t.Legible d) :
    u.Legible d ↔ (d = .markdown →
      (∀ v rest, Row.data (v :: rest) ∈ u.rows → ¬ Ruled v) ∧
      ∀ j a, u.alignments[j]? = some a → a ≠ .left → Settled j u.kinds) := by
  constructor
  · intro hu hd
    exact ⟨hu.unruled hd, fun j a ha hleft => (hu.aligned j a ha hleft).2⟩
  · intro hu
    refine ⟨⟨h.cellTexts ht.toRowsLegible, .inl (h.hasData ht.toRowsLegible), fun hd => (hu hd).1⟩,
      fun j a ha hleft => ?_⟩
    obtain ⟨i, hi⟩ := List.getElem?_of_mem (h.mem_alignments (List.mem_of_getElem? ha))
    have hd := (ht.aligned i a hi hleft).1
    exact ⟨hd, (hu hd).2 j a ha hleft⟩

end ColumnEdit

variable {d : Dialect} {doc : List Text} {p : Position}

/-- The text of a column command is read as a table again, and that is the edited one in Org
always. In Markdown its rows keep their kinds exactly if no data row of the edited table has a
first cell like a rule, and it is the edited table altogether exactly if, besides, its aligned
columns are the first one or stand under a data row with a separator below. -/
theorem columnEdit_readBack {command : Command} {options : CommandOptions} {e : Replacement}
    (hdoc : ∀ l ∈ doc, '\n' ∉ l)
    (hcommand : command = .moveColumnLeft ∨ command = .moveColumnRight ∨ command = .deleteColumn)
    (h : command.run options d doc p = .ok (some e)) :
    ∃ f anchor cell u v, Focus.load d doc p.line = .ok (some f) ∧
      f.anchorAt p = .ok anchor ∧ anchor.bind Anchor.cell = some cell ∧
      ColumnEdit f.table cell.col command u ∧ e.text = u.render d f.indent ∧
      Table.parse d e.text = some v ∧
      (v.kinds = u.kinds ↔
        (d = .markdown → ∀ w rest, Row.data (w :: rest) ∈ u.rows → ¬ Ruled w)) ∧
      (v.rows = u.rows ∧ v.colCount = u.colCount ∧ v.alignments = u.alignments ↔
        (d = .markdown →
          (∀ w rest, Row.data (w :: rest) ∈ u.rows → ¬ Ruled w) ∧
          ∀ j a, u.alignments[j]? = some a → a ≠ .left → Settled j u.kinds)) := by
  obtain ⟨f, anchor, hload, hanchor, hperform⟩ := Command.run_eq_ok_some_iff.1 h
  obtain ⟨cell, u, hcell, hedit, htext⟩ := Focus.exists_columnEdit hcommand hperform
  obtain ⟨hdialect, hwf, hlegible⟩ := Focus.legible_of_load hload
  rw [hdialect] at htext
  have hu := hedit.wellFormed hwf
  have hrows := hedit.rows_ne_nil hlegible.toRowsLegible
  have hblank := f.blank_indent
  have hline := Focus.newline_not_mem_indent hdoc hload
  have hcells := Table.newline_not_mem_cells (hedit.cellTexts hlegible.toRowsLegible)
  have hne : u.render d f.indent ≠ [] := Table.render_ne_nil hrows hblank hline hcells
  obtain ⟨v, hv⟩ : ∃ v, Table.parse d (u.render d f.indent) = some v :=
    ⟨_, Table.parse_of_ne_nil hne⟩
  refine ⟨f, anchor, cell, u, v, hload, hanchor, hcell, hedit, htext, htext ▸ hv, ?_, ?_⟩
  · exact Table.kinds_readBack_eq_iff hu hblank hline hcells hv
  · exact (Table.readBack_eq_iff_legible hu hrows hblank hline hv).trans
      (hedit.legible_iff hlegible)

/-- A negative number moved into the first column makes the whole row a separator. -/
theorem columnEdit_readBack_negative :
    ∃ (e : Replacement) (u v : Table),
      Command.run .moveColumnLeft {} .markdown ["| a | -5 |".toList] ⟨0, 6⟩ = .ok (some e) ∧
      e.text = u.render .markdown [] ∧ u.rows = [.data ["-5".toList, "a".toList]] ∧
      Table.parse .markdown e.text = some v ∧ v.kinds ≠ u.kinds := by
  obtain ⟨e, he⟩ : ∃ e, Command.run .moveColumnLeft {} .markdown ["| a | -5 |".toList] ⟨0, 6⟩ =
      .ok (some e) := ⟨_, rfl⟩
  obtain ⟨f, anchor, cell, u, v, hload, hanchor, hcell, hedit, htext, hv, hkinds, -⟩ :=
    columnEdit_readBack (by decide) (.inl rfl) he
  obtain rfl := Option.some.inj (Except.ok.inj hload)
  obtain rfl := Except.ok.inj hanchor
  obtain rfl := Option.some.inj hcell
  cases hedit with
  | moveLeft hswap =>
    obtain rfl := Except.ok.inj hswap
    refine ⟨e, _, v, he, htext, rfl, hv, fun h => ?_⟩
    exact hkinds.1 h rfl _ _ (.head _) (by decide)

end PipeTable
