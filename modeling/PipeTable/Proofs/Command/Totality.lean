import PipeTable.Proofs.Command.Frame
import PipeTable.Proofs.Document.Formatting
import PipeTable.Proofs.Table.Reversal

/-! # Commands always end

Whatever the document and wherever the cursor, a command comes to an answer: it asks a table only
for rows, columns and cells that the table has. Which answers are `none` can be told from the line
of the cursor, the region around it and the cell that the cursor belongs to.
-/

namespace PipeTable

open Text Region

namespace Table

variable {t : Table} {a : CellAddress}

/-- The table has a row and a column, and a value in each of its cells. -/
structure Readable (t : Table) : Prop where
  rows : 0 < t.rowCount
  columns : 0 < t.colCount
  cells : ∀ row < t.rowCount, ∀ col < t.colCount, ∃ value, t.cell row col = .ok value

theorem Shaped.readable (h : t.Shaped) (hrows : t.rows ≠ []) : t.Readable where
  rows := List.length_pos_iff.2 hrows
  columns := List.length_pos_iff.2 (h.columned hrows)
  cells row hrow col hcol := by
    obtain ⟨r, hr⟩ : ∃ r, t.rows[row]? = some r := ⟨_, List.getElem?_eq_getElem hrow⟩
    cases r with
    | separator => exact ⟨[], cell_eq_ok_iff.2 ⟨hcol, .inl ⟨hr, rfl⟩⟩⟩
    | data cells =>
      have hlen := h.rectangular cells (List.mem_of_getElem? hr)
      have hv := List.getElem?_eq_getElem (hlen.symm ▸ hcol)
      exact ⟨_, cell_eq_ok_iff.2 ⟨hcol, .inr ⟨cells, hr, hv⟩⟩⟩

theorem Shaped.exists_setCell (h : t.Shaped) (ha : a ∈ t.cellAddresses) (value : Text) :
    ∃ u, t.setCell a.row a.col value = .ok u := by
  obtain ⟨⟨cells, hr⟩, hcol⟩ := mem_cellAddresses.1 ha
  have hlen := h.rectangular cells (List.mem_of_getElem? hr)
  have hold := List.getElem?_eq_getElem (hlen.symm ▸ hcol)
  exact ⟨_, setCell_eq_ok_iff.2 ⟨cells, _, hr, hcol, hold, rfl⟩⟩

end Table

/-- The command has nothing to do on line `line` of a region whose table has `cols` columns. The
line may be a separator, `rule`, and the cursor may belong to a cell. -/
def Command.Idle (region : Region) (cols line : Nat) (rule : Prop) (cell : Option CellAddress) :
    Command → Prop
  | format | nextCell | previousCell | nextRow | insertRowBelow => False
  | moveRowUp => line = region.startLine
  | moveRowDown => line = region.endLine
  | deleteRow => region.lineCount = 1
  | clearCell | insertColumnRight => rule
  | moveColumnLeft => rule ∨ ∃ a, cell = some a ∧ a.col = 0
  | moveColumnRight => rule ∨ ∃ a, cell = some a ∧ a.col + 1 = cols
  | deleteColumn => rule ∨ cols = 1

/-- There is an answer, and it is `none` where `idle` says so and nowhere else. -/
def Answers (x : Except Fault (Option Replacement)) (idle : Prop) : Prop :=
  ∃ r, x = .ok r ∧ (r = none ↔ idle)

section Answers

variable {x : Except Fault (Option Replacement)} {idle : Prop}

theorem answers_none (hx : x = .ok none) (hidle : idle) : Answers x idle :=
  ⟨none, hx, by simp [hidle]⟩

theorem answers_some {e : Replacement} (hx : x = .ok (some e)) (hidle : ¬ idle) :
    Answers x idle :=
  ⟨some e, hx, by simp [hidle]⟩

theorem Answers.congr {idle' : Prop} (h : Answers x idle) (hiff : idle ↔ idle') :
    Answers x idle' := by
  obtain ⟨r, hx, hr⟩ := h
  exact ⟨r, hx, hr.trans hiff⟩

end Answers

namespace Focus

variable {d : Dialect} {doc : List Text} {f : Focus} {p : Position} {row : Nat} {anchor : Anchor}
  {direction : Direction} {command : Command}

theorem exists_positionOf {a : CellAddress} (ha : a ∈ f.table.cellAddresses) :
    ∃ q, f.writtenCells.positionOf a = some q := by
  obtain ⟨s, hs, rfl⟩ := CellMap.exists_cell_inDocument ha (Text.lines f.render)
  exact ⟨s.position, (CellMap.ordered_inDocument f.table _).positionOf_eq hs⟩

section Cells

variable (hcell : ∀ a, anchor.cell = some a → a ∈ f.table.cellAddresses)

include hcell

theorem exists_nextCell (options : CommandOptions) :
    ∃ e, f.nextCell (some anchor) options = some e := by
  cases anchor with
  | beside a => exact ⟨_, rfl⟩
  | separator row => exact ⟨_, rfl⟩
  | inside a =>
    obtain ⟨q, hq⟩ := exists_positionOf (hcell a rfl)
    exact ⟨_, congrArg (Option.map _) hq⟩

theorem exists_previousCell : ∃ e, f.previousCell (some anchor) = some e := by
  cases anchor with
  | beside a => exact ⟨_, rfl⟩
  | separator row => exact ⟨_, rfl⟩
  | inside a =>
    obtain ⟨q, hq⟩ := exists_positionOf (hcell a rfl)
    exact ⟨_, congrArg (Option.map _) hq⟩

theorem exists_nextRow (options : CommandOptions) :
    ∃ e, f.nextRow p (some anchor) options = some e := by
  obtain ⟨start, hstart⟩ : ∃ start, f.rowMoveStart p anchor = some start := by
    unfold rowMoveStart
    cases ha : anchor.cell with
    | none => exact ⟨_, rfl⟩
    | some a =>
      obtain ⟨q, hq⟩ := exists_positionOf (hcell a ha)
      exact ⟨_, congrArg (Option.map _) hq⟩
  exact ⟨_, congrArg (Option.map _) hstart⟩

end Cells

section OnRow

variable (hline : p.line = f.region.startLine + row) (hrow : row < f.table.rowCount)

include hline hrow

theorem answers_moveRow (anchor : Option Anchor) (direction : Direction) :
    Answers (f.moveRow p anchor direction) (direction.step row f.table.rowCount = none) := by
  cases hstep : direction.step row f.table.rowCount with
  | none =>
    apply answers_none _ rfl
    rw [moveRow, rowAt_of_line hline]
    simp [bind, Except.bind, hstep, pure, Except.pure]
  | some target =>
    have hswap := Table.swapRows_eq_ok_iff.2 ⟨hrow, Direction.lt_of_step hstep, rfl⟩
    obtain ⟨cursor, he⟩ := exists_moveRow (rowAt_of_line hline) hstep hswap anchor
    exact answers_some he (by simp)

theorem answers_deleteRow (anchor : Option Anchor) :
    Answers (f.deleteRow p anchor) (f.table.rowCount = 1) := by
  by_cases hone : f.table.rowCount = 1
  · apply answers_none _ hone
    simp [deleteRow, hone, pure, Except.pure]
  · have hremove := Table.removeRow_eq_ok_iff.2 ⟨hrow, rfl⟩
    obtain ⟨cursor, he⟩ := exists_deleteRow (by omega) (rowAt_of_line hline) hremove anchor
    exact answers_some he hone

theorem exists_insertRowBelow (anchor : Option Anchor) :
    ∃ e, f.insertRowBelow p anchor = .ok (some e) := by
  obtain ⟨u, hu⟩ : ∃ u, f.table.insertRow (row + 1) .data = .ok u :=
    ⟨_, Table.insertRow_eq_ok_iff.2 ⟨Nat.succ_le_of_lt hrow, rfl⟩⟩
  exact ⟨_, insertRowBelow_eq_ok_some_iff.2 ⟨row, u, rowAt_of_line hline, hu, rfl⟩⟩

end OnRow

section OnCell

variable (h : f.Regular) (hcell : ∀ a, anchor.cell = some a → a ∈ f.table.cellAddresses)

include h hcell

theorem Regular.answers_clearCell : Answers (f.clearCell (some anchor)) (anchor.cell = none) := by
  cases ha : anchor.cell with
  | none =>
    apply answers_none _ rfl
    simp [clearCell, ha, pure, Except.pure]
  | some a =>
    obtain ⟨u, hu⟩ := h.wellFormed.exists_setCell (hcell a ha) []
    exact answers_some (clearCell_eq_ok_some_iff.2 ⟨a, u, ha, hu, rfl⟩) (by simp)

theorem Regular.answers_insertColumnRight :
    Answers (f.insertColumnRight (some anchor)) (anchor.cell = none) := by
  cases ha : anchor.cell with
  | none =>
    apply answers_none _ rfl
    simp [insertColumnRight, ha, pure, Except.pure]
  | some a =>
    have hcol := (Table.mem_cellAddresses.1 (hcell a ha)).2
    obtain ⟨u, hu⟩ := h.wellFormed.exists_insertColumn (Nat.succ_le_of_lt hcol)
    exact answers_some (insertColumnRight_eq_ok_some_iff.2 ⟨a, u, ha, hu, rfl⟩) (by simp)

theorem Regular.answers_moveColumn (direction : Direction) :
    Answers (f.moveColumn (some anchor) direction) (anchor.cell = none ∨
      ∃ a, anchor.cell = some a ∧ direction.step a.col f.table.colCount = none) := by
  cases ha : anchor.cell with
  | none =>
    apply answers_none _ (.inl rfl)
    simp [moveColumn, ha, pure, Except.pure]
  | some a =>
    have hcol := (Table.mem_cellAddresses.1 (hcell a ha)).2
    cases hstep : direction.step a.col f.table.colCount with
    | none =>
      apply answers_none _ (by simp [hstep])
      simp [moveColumn, ha, hstep, pure, Except.pure]
    | some target =>
      obtain ⟨u, hu⟩ := h.wellFormed.exists_swapColumns hcol (Direction.lt_of_step hstep)
      have hbind : (some anchor).bind Anchor.cell = some a := ha
      obtain ⟨cursor, he⟩ := exists_moveColumn hbind hstep hu
      exact answers_some he (by simp [hstep])

theorem Regular.answers_deleteColumn :
    Answers (f.deleteColumn (some anchor)) (anchor.cell = none ∨ f.table.colCount = 1) := by
  cases ha : anchor.cell with
  | none =>
    apply answers_none _ (.inl rfl)
    simp [deleteColumn, ha, pure, Except.pure]
  | some a =>
    have hcol := (Table.mem_cellAddresses.1 (hcell a ha)).2
    by_cases hone : f.table.colCount = 1
    · apply answers_none _ (.inr hone)
      simp [deleteColumn, ha, Table.removeColumn_of_one hcol hone, bind, Except.bind, pure,
        Except.pure]
    · obtain ⟨u, hu⟩ := h.wellFormed.exists_removeColumn hcol hone
      have hbind : (some anchor).bind Anchor.cell = some a := ha
      obtain ⟨cursor, he⟩ := exists_deleteColumn hbind hu
      exact answers_some he (by simp [hone])

end OnCell

/-- On the line of a row every command has an answer. -/
theorem Regular.exists_answers (h : f.Regular) (hline : p.line = f.region.startLine + row)
    (hrow : row < f.table.rowCount) (command : Command) (options : CommandOptions) :
    ∃ anchor, f.anchorAt p = .ok anchor ∧ Answers (f.perform p anchor command options)
      (command.Idle f.written.region f.table.colCount p.line
        (f.table.rows[row]? = some .separator) (f.liveCells.cellAt p)) := by
  obtain ⟨anchor, hanchor, hsame⟩ := h.exists_anchor hline hrow
  have hcell : ∀ a, anchor.cell = some a → a ∈ f.table.cellAddresses := fun a ha =>
    mem_cellAddresses_of_anchorAt h.startLine hanchor ha
  have hcol {a : CellAddress} (ha : anchor.cell = some a) : a.col < f.table.colCount :=
    (Table.mem_cellAddresses.1 (hcell a ha)).2
  rw [← h.cellAt_eq_none_iff hline hrow, ← hsame]
  refine ⟨some anchor, hanchor, ?_⟩
  cases command with
  | format => exact answers_some rfl id
  | nextCell =>
    obtain ⟨e, he⟩ := exists_nextCell hcell options
    exact answers_some (congrArg Except.ok he) id
  | previousCell =>
    obtain ⟨e, he⟩ := exists_previousCell hcell
    exact answers_some (congrArg Except.ok he) id
  | nextRow =>
    obtain ⟨e, he⟩ := exists_nextRow hcell options
    exact answers_some (congrArg Except.ok he) id
  | moveRowUp =>
    apply (answers_moveRow hline hrow _ .back).congr
    rw [Direction.step_back_eq_none_iff hrow]
    simp only [Command.Idle, written]
    omega
  | moveRowDown =>
    apply (answers_moveRow hline hrow _ .forward).congr
    rw [Direction.step_forward_eq_none_iff hrow]
    simp only [Command.Idle, written]
    omega
  | moveColumnLeft =>
    apply (h.answers_moveColumn hcell .back).congr
    exact or_congr_right (exists_congr fun a => and_congr_right fun ha =>
      Direction.step_back_eq_none_iff (hcol ha))
  | moveColumnRight =>
    apply (h.answers_moveColumn hcell .forward).congr
    exact or_congr_right (exists_congr fun a => and_congr_right fun ha =>
      Direction.step_forward_eq_none_iff (hcol ha))
  | clearCell => exact h.answers_clearCell hcell
  | insertRowBelow =>
    obtain ⟨e, he⟩ := exists_insertRowBelow hline hrow (some anchor)
    exact answers_some he id
  | deleteRow =>
    apply (answers_deleteRow hline hrow _).congr
    simp only [Command.Idle, written, lineCount]
    omega
  | insertColumnRight => exact h.answers_insertColumnRight hcell
  | deleteColumn => exact h.answers_deleteColumn hcell

end Focus

variable {d : Dialect} {doc : List Text} {p : Position} {command : Command}
  {options : CommandOptions}

theorem Command.run_of_load_none (h : Focus.load d doc p.line = .ok none) :
    command.run options d doc p = .ok none := by
  rw [run, h]
  rfl

theorem Command.run_of_load {f : Focus} {anchor : Option Anchor}
    (h : Focus.load d doc p.line = .ok (some f)) (hanchor : f.anchorAt p = .ok anchor) :
    command.run options d doc p = f.perform p anchor command options := by
  rw [run, h]
  simp only [bind, Except.bind, hanchor]

theorem Focus.Between.exists_apply {pre rest : List Text} {f : Focus} (h : f.Between pre rest)
    {e : Replacement} (he : e.region = f.region) :
    ∃ doc', e.apply (pre ++ (f.lines ++ rest)) = .ok doc' :=
  ⟨_, Replacement.apply_run h.nonempty (he.trans h.region) rest⟩

/-- Every command ends without a fault, in any document and wherever the cursor is, and so do
applying the outcome to the document and formatting a text. What a command writes is an edit of
the table in focus, and both tables have a row, a column and a value in each cell. -/
theorem commands_total (d : Dialect) :
    (∀ (command : Command) (options : CommandOptions) (doc : List Text) (p : Position),
      ∃ r, command.run options d doc p = .ok r ∧
        (∀ f, Focus.load d doc p.line = .ok (some f) → f.lines ≠ [] ∧ f.table.Readable) ∧
        ∀ e, r = some e → (∃ doc', e.apply doc = .ok doc') ∧
          ∃ (f : Focus) (u : Table), Focus.load d doc p.line = .ok (some f) ∧
            Edited f.table u ∧ u.Readable ∧ (∃ cursor, e = (f.withTable u).replace cursor) ∧
            e.text = u.render d f.indent) ∧
    ∀ s, ∃ out, formatDocument d s = .ok out := by
  refine ⟨fun command options doc p => ?_, fun s => ?_⟩
  · obtain ⟨loaded, hload, -⟩ := Focus.exists_load d doc p.line
    cases loaded with
    | none => exact ⟨none, Command.run_of_load_none hload, by simp [hload], by simp⟩
    | some f =>
      have hregular := Focus.regular_of_load hload
      obtain ⟨hdialect, -⟩ := Focus.legible_of_load hload
      obtain ⟨pre, rest, row, hb, rfl, hcount, hrow, hline⟩ := Focus.exists_run_of_load hload
      obtain ⟨anchor, hanchor, r, hr, -⟩ :=
        hregular.exists_answers hline (Nat.lt_of_lt_of_le hrow hcount) command options
      refine ⟨r, (Command.run_of_load hload hanchor).trans hr, fun g hg => ?_, ?_⟩
      · obtain rfl := Option.some.inj (Except.ok.inj (hload.symm.trans hg))
        exact ⟨hb.nonempty, hregular.wellFormed.readable hregular.rows_ne_nil⟩
      · rintro e rfl
        obtain ⟨u, hedited, ⟨cursor, rfl⟩, -⟩ := hregular.exists_writes hanchor hr
        have hu := hregular.edited hedited
        refine ⟨hb.exists_apply rfl, f, u, hload, hedited,
          hu.wellFormed.readable hu.rows_ne_nil, ⟨cursor, rfl⟩, ?_⟩
        rw [← hdialect]
        rfl
  · obtain ⟨out, -, hformat⟩ := exists_realigned d s
    exact ⟨_, hformat⟩

theorem Focus.rows_eq_separator_iff {f : Focus} (hdoc : ∀ l ∈ doc, '\n' ∉ l) {line row : Nat}
    (h : load d doc line = .ok (some f)) {l : Text} (hl : f.lines[row]? = some l) :
    f.table.rows[row]? = some .separator ↔ d.isSeparator (trim l) = true := by
  obtain ⟨pre, rest, _, hb, hdoc', -⟩ := exists_run_of_load h
  obtain ⟨region, lines, t, -, -, ht, rfl⟩ := load_eq_ok_some_iff.1 h
  have hnew : ∀ l ∈ lines, '\n' ∉ l := fun l hl => hdoc l (by simp [hdoc', hl])
  have hkind : t.kinds[row]? =
      some (if d.isSeparator (trim l) then RowKind.separator else .data) := by
    rw [Table.kinds_of_parse ht, tableLines_joinLines_run hnew hb.run.tableLines]
    simp [hl]
  rw [Table.kinds, List.getElem?_map, Option.map_eq_some_iff] at hkind
  obtain ⟨r, hr, hkind⟩ := hkind
  cases r <;> simp_all [Row.kind]

theorem Focus.region_written {f : Focus} {pre rest : List Text} (hb : f.Between pre rest)
    (hcount : f.table.rowCount = f.lines.length) : f.written.region = f.region := by
  rw [hb.region, written, hb.startLine, hcount]

/-- Outside tables no command has anything to do. On a table line the line itself, its region and
the cell that the cursor belongs to tell whether a command has something to do. -/
theorem run_eq_none_iff_idle (hdoc : ∀ l ∈ doc, '\n' ∉ l) (d : Dialect) (p : Position)
    (command : Command) (options : CommandOptions) :
    ∃ r, command.run options d doc p = .ok r ∧
      ((∀ l, doc[p.line]? = some l → isTableLine l = false) → r = none) ∧
      ∀ l, doc[p.line]? = some l → isTableLine l = true →
        ∃ region f, Region.locate doc p.line = some region ∧
          Focus.load d doc p.line = .ok (some f) ∧
          (r = none ↔ command.Idle region f.table.colCount p.line
            (d.isSeparator (trim l) = true) (f.liveCells.cellAt p)) := by
  obtain ⟨loaded, hload, hnone⟩ := Focus.exists_load d doc p.line
  cases loaded with
  | none =>
    refine ⟨none, Command.run_of_load_none hload, fun _ => rfl, fun l hl htable => ?_⟩
    cases htable.symm.trans (hnone.1 rfl l hl)
  | some f =>
    have hregular := Focus.regular_of_load hload
    obtain ⟨pre, rest, row, hb, hdoc', hcount, hrow, hline⟩ :=
      Focus.exists_between_of_load hdoc hload
    obtain ⟨region, _, _, hregion, -, -, hf⟩ := Focus.load_eq_ok_some_iff.1 hload
    obtain ⟨anchor, hanchor, r, hr, hidle⟩ := hregular.exists_answers hline hrow command options
    refine ⟨r, (Command.run_of_load hload hanchor).trans hr, fun h => ?_, fun l hl _ => ?_⟩
    · cases hnone.2 h
    · have hrowline : f.lines[row]? = some l := by
        rw [hcount] at hrow
        rwa [hline, hb.startLine, hdoc', List.getElem?_append_right (Nat.le_add_right _ _),
          Nat.add_sub_cancel_left, List.getElem?_append_left hrow] at hl
      refine ⟨f.region, f, ?_, hload, ?_⟩
      · rw [hregion, hf]
      · rw [hidle, Focus.region_written hb hcount, Focus.rows_eq_separator_iff hdoc hload hrowline]

/-- Behind the end of an unfinished row the cursor belongs to the first cell. -/
theorem run_eq_none_iff_idle_beside :
    Command.run .moveColumnLeft {} .org ["x".toList, "|a|b".toList] ⟨1, 9⟩ = .ok none := by
  have hdoc : ∀ l ∈ ["x".toList, "|a|b".toList], '\n' ∉ l := by decide
  obtain ⟨r, hr, -, hline⟩ := run_eq_none_iff_idle hdoc .org ⟨1, 9⟩ .moveColumnLeft {}
  obtain ⟨region, f, -, hload, hidle⟩ := hline _ rfl rfl
  obtain rfl := Option.some.inj (Except.ok.inj hload)
  rw [hr, hidle.2 (.inr ⟨⟨0, 0⟩, rfl, rfl⟩)]

end PipeTable
