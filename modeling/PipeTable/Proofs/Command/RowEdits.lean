import PipeTable.Proofs.Command.Outcome
import PipeTable.Proofs.Table.RoundTrip

/-! # Row edits and the next reading

A command that moves or deletes a row writes the edited table over the old one. Its rows always
come back, since each of them was read before and rows do not depend on their places. Columns
and alignments do depend on the order of rows: separators above the first data row tell of one
column alone, so a table without data rows comes back with one column, and the alignments of
columns further right need a separator that is still below some data row.
-/

namespace PipeTable

open Text

/-- The table that a command on row `row` of `t` leaves to be written. -/
inductive RowEdit (t : Table) : Nat → Command → Table → Prop
  | moveUp {target : Nat} {u : Table} (h : t.swapRows (target + 1) target = .ok u) :
      RowEdit t (target + 1) .moveRowUp u
  | moveDown {row : Nat} {u : Table} (h : t.swapRows row (row + 1) = .ok u) :
      RowEdit t row .moveRowDown u
  | delete {row : Nat} {u : Table} (hrows : 1 < t.rowCount) (h : t.removeRow row = .ok u) :
      RowEdit t row .deleteRow u

theorem RowEdit.exists_of_step {t u : Table} {direction : Direction} {row target : Nat}
    (hstep : direction.step row t.rowCount = some target) (hu : t.swapRows row target = .ok u) :
    ∃ command, RowEdit t row command u := by
  cases direction with
  | back =>
    obtain rfl := Direction.step_back_eq_some hstep
    exact ⟨_, .moveUp hu⟩
  | forward =>
    obtain rfl := Direction.step_forward_eq_some hstep
    exact ⟨_, .moveDown hu⟩

section Commands

variable {f : Focus} {p : Position} {anchor : Option Anchor} {e : Replacement}

theorem Focus.exists_rowEdit {command : Command} {options : CommandOptions}
    (hcommand : command = .moveRowUp ∨ command = .moveRowDown ∨ command = .deleteRow)
    (h : f.perform p anchor command options = .ok (some e)) :
    ∃ u, RowEdit f.table (p.line - f.region.startLine) command u ∧
      e.text = u.render f.dialect f.indent := by
  rcases hcommand with rfl | rfl | rfl
  · obtain ⟨row, target, u, hrow, hstep, hu, rfl⟩ := moveRow_eq_ok_some_iff.1 h
    obtain ⟨-, rfl⟩ := rowAt_eq_ok_iff.1 hrow
    rw [Direction.step_back_eq_some hstep] at hu ⊢
    exact ⟨u, .moveUp hu, rfl⟩
  · obtain ⟨row, target, u, hrow, hstep, hu, rfl⟩ := moveRow_eq_ok_some_iff.1 h
    obtain ⟨-, rfl⟩ := rowAt_eq_ok_iff.1 hrow
    obtain rfl := Direction.step_forward_eq_some hstep
    exact ⟨u, .moveDown hu, rfl⟩
  · obtain ⟨hone, row, u, hrow, hu, rfl⟩ := deleteRow_eq_ok_some_iff.1 h
    obtain ⟨-, rfl⟩ := rowAt_eq_ok_iff.1 hrow
    exact ⟨u, .delete hone hu, rfl⟩

end Commands

namespace RowEdit

variable {t u : Table} {row : Nat} {command : Command} {d : Dialect}

theorem exists_rearrangement (h : RowEdit t row command u) :
    ∃ rows, u = { t with rows := rows }.refit ∧ (∀ r ∈ rows, r ∈ t.rows) ∧ rows ≠ [] := by
  have hswap {a b : Nat} (hu : t.swapRows a b = .ok u) :
      ∃ rows, u = { t with rows := rows }.refit ∧ (∀ r ∈ rows, r ∈ t.rows) ∧ rows ≠ [] := by
    obtain ⟨ha, -, rfl⟩ := Table.swapRows_eq_ok_iff.1 hu
    refine ⟨_, rfl, fun _ => mem_of_mem_exchange, ?_⟩
    rw [← List.length_pos_iff, length_exchange]
    exact Nat.zero_lt_of_lt ha
  cases h with
  | moveUp hu => exact hswap hu
  | moveDown hu => exact hswap hu
  | delete hone hu =>
    obtain ⟨hrow, rfl⟩ := Table.removeRow_eq_ok_iff.1 hu
    refine ⟨_, rfl, fun _ => List.mem_of_mem_eraseIdx, ?_⟩
    rw [← List.length_pos_iff, List.length_eraseIdx_of_lt hrow]
    exact Nat.sub_pos_of_lt hone

theorem wellFormed (h : RowEdit t row command u) (ht : t.WellFormed) : u.WellFormed := by
  cases h with
  | moveUp hu => exact ht.swapRows hu
  | moveDown hu => exact ht.swapRows hu
  | delete _ hu => exact ht.removeRow hu

theorem mem_rows (h : RowEdit t row command u) {r : Row} (hr : r ∈ u.rows) : r ∈ t.rows := by
  obtain ⟨rows, rfl, hrows, -⟩ := h.exists_rearrangement
  exact hrows r hr

theorem rows_ne_nil (h : RowEdit t row command u) : u.rows ≠ [] := by
  obtain ⟨rows, rfl, -, hne⟩ := h.exists_rearrangement
  exact hne

theorem alignments_eq (h : RowEdit t row command u) : u.alignments = t.alignments := by
  obtain ⟨rows, rfl, -, -⟩ := h.exists_rearrangement
  exact Table.alignments_refit _

theorem legible_iff (h : RowEdit t row command u) (ht : t.Legible d) :
    u.Legible d ↔ (u.HasData ∨ u.colCount ≤ 1) ∧
      (d = .markdown → ∀ j a, u.alignments[j]? = some a → a ≠ .left → Settled j u.kinds) := by
  constructor
  · intro hu
    exact ⟨hu.columnsRead, fun _ j a ha hleft => (hu.aligned j a ha hleft).2⟩
  · rintro ⟨hcolumns, hsettled⟩
    refine ⟨⟨fun cells hcells => ht.cellTexts cells (h.mem_rows hcells), hcolumns,
      fun hd v rest hr => ht.unruled hd v rest (h.mem_rows hr)⟩, fun j a ha hleft => ?_⟩
    have hd := (ht.aligned j a (h.alignments_eq ▸ ha) hleft).1
    exact ⟨hd, hsettled hd j a ha hleft⟩

end RowEdit

variable {d : Dialect} {doc : List Text} {p : Position}

/-- The text of a row command is read as a table with the rows of the edited one. It has as many
columns exactly if a data row is left or there is one column only, and the same alignments
exactly if, besides, each aligned column is the first one in a table with a separator row or
stands under a data row with a separator below. In Org all columns are aligned alike, so there
the columns alone decide. -/
theorem rowEdit_readBack {command : Command} {options : CommandOptions} {e : Replacement}
    (hdoc : ∀ l ∈ doc, '\n' ∉ l)
    (hcommand : command = .moveRowUp ∨ command = .moveRowDown ∨ command = .deleteRow)
    (h : command.run options d doc p = .ok (some e)) :
    ∃ f u v, Focus.load d doc p.line = .ok (some f) ∧
      RowEdit f.table (p.line - f.region.startLine) command u ∧
      e.text = u.render d f.indent ∧ Table.parse d e.text = some v ∧ v.rows = u.rows ∧
      (v.colCount = u.colCount ↔ u.HasData ∨ u.colCount ≤ 1) ∧
      (v.colCount = u.colCount ∧ v.alignments = u.alignments ↔
        (u.HasData ∨ u.colCount ≤ 1) ∧
        (d = .markdown → ∀ j a, u.alignments[j]? = some a → a ≠ .left → Settled j u.kinds)) := by
  obtain ⟨f, anchor, hload, -, hperform⟩ := Command.run_eq_ok_some_iff.1 h
  obtain ⟨u, hedit, htext⟩ := Focus.exists_rowEdit hcommand hperform
  obtain ⟨hdialect, hwf, hlegible⟩ := Focus.legible_of_load hload
  rw [hdialect] at htext
  have hu := hedit.wellFormed hwf
  have hrows := hedit.rows_ne_nil
  have hblank := f.blank_indent
  have hline := Focus.newline_not_mem_indent hdoc hload
  have hcells : ∀ cells, Row.data cells ∈ u.rows → ∀ v ∈ cells, CellText v :=
    fun cells hcells => hlegible.cellTexts cells (hedit.mem_rows hcells)
  have hunruled : d = .markdown → ∀ v rest, Row.data (v :: rest) ∈ u.rows → ¬ Ruled v :=
    fun hd v rest hr => hlegible.unruled hd v rest (hedit.mem_rows hr)
  have hne : u.render d f.indent ≠ [] :=
    Table.render_ne_nil hrows hblank hline (Table.newline_not_mem_cells hcells)
  obtain ⟨v, hv⟩ : ∃ v, Table.parse d (u.render d f.indent) = some v :=
    ⟨_, Table.parse_of_ne_nil hne⟩
  have hback := Table.rows_readBack hu hrows hblank hline hcells hunruled hv
  refine ⟨f, u, v, hload, hedit, htext, htext ▸ hv, hback, ?_, ?_⟩
  · exact Table.colCount_readBack_eq_iff hu hrows hblank hline hcells hunruled hv
  · rw [← hedit.legible_iff hlegible, ← Table.readBack_eq_iff_legible hu hrows hblank hline hv,
      and_iff_right hback]

/-- A separator that comes to stand above all data rows no longer aligns the second column. -/
theorem rowEdit_readBack_separator_first :
    ∃ (e : Replacement) (u v : Table),
      Command.run .moveRowDown {} .markdown ["| a | b |".toList, "|---|:-:|".toList] ⟨0, 2⟩ =
        .ok (some e) ∧
      e.text = u.render .markdown [] ∧ u.alignments = [.left, .center] ∧
      Table.parse .markdown e.text = some v ∧ v.rows = u.rows ∧ v.alignments ≠ u.alignments := by
  obtain ⟨e, he⟩ : ∃ e, Command.run .moveRowDown {} .markdown
      ["| a | b |".toList, "|---|:-:|".toList] ⟨0, 2⟩ = .ok (some e) := ⟨_, rfl⟩
  obtain ⟨f, u, v, hload, hedit, htext, hv, hrows, hcount, halign⟩ :=
    rowEdit_readBack (by decide) (.inr (.inl rfl)) he
  obtain rfl := Option.some.inj (Except.ok.inj hload)
  cases hedit with
  | moveDown hswap =>
    obtain rfl := Except.ok.inj hswap
    refine ⟨e, _, v, he, htext, rfl, hv, hrows, fun h => ?_⟩
    have hdata : RowKind.data ∈ [RowKind.separator, .data] := by decide
    have hsettled := (halign.1 ⟨hcount.2 (.inl hdata), h⟩).2 rfl 1 .center rfl (by decide)
    exact absurd hsettled (by decide)

end PipeTable
