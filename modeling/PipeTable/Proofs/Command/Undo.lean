import PipeTable.Proofs.Command.ColumnEdits
import PipeTable.Proofs.Command.Outcome
import PipeTable.Proofs.Command.RowEdits
import PipeTable.Proofs.Command.Writing
import PipeTable.Proofs.Table.Reversal

/-! # Commands that take each other back

A row or a column that has just been inserted is deleted again, and rows or columns that have
changed places change them back. The second command works on the text that the first one wrote, so
this text has to be read as the table that was written, and the cursor has to lead to the row or
cell that was moved or inserted. Then both commands together have formatted the table.
-/

namespace PipeTable

def Direction.reverse : Direction → Direction
  | back => forward
  | forward => back

theorem Direction.step_reverse {direction : Direction} {i count target : Nat} (hi : i < count)
    (h : direction.step i count = some target) : direction.reverse.step target count = some i := by
  cases direction with
  | back =>
    obtain rfl := step_back_eq_some h
    exact if_pos hi
  | forward =>
    obtain rfl := step_forward_eq_some h
    exact if_pos hi

/-- For a cursor on row `row` of table `t`, the second command takes back what the first one does.
Only data rows may change places, and columns only in Org, where nothing but their cells depends
on the order of columns. -/
inductive Opposite (t : Table) (row : Nat) : Dialect → Command → Command → Prop
  | insertRow {d : Dialect} : Opposite t row d .insertRowBelow .deleteRow
  | insertColumn {d : Dialect} : Opposite t row d .insertColumnRight .deleteColumn
  | moveRowDown {d : Dialect} (h : t.IsDataRow row) (hbelow : t.IsDataRow (row + 1)) :
      Opposite t row d .moveRowDown .moveRowUp
  | moveRowUp {d : Dialect} (h : t.IsDataRow row) (habove : t.IsDataRow (row - 1)) :
      Opposite t row d .moveRowUp .moveRowDown
  | moveColumnRight : Opposite t row .org .moveColumnRight .moveColumnLeft
  | moveColumnLeft : Opposite t row .org .moveColumnLeft .moveColumnRight

namespace Focus

variable {d : Dialect} {f : Focus} {p : Position} {anchor : Option Anchor}
  {direction : Direction} {second : Command} {e : Replacement}

/-- The replacement writes table `u` and leaves the cursor at `q`, and from there the command
`second` writes the table in focus. -/
structure TakenBack (f : Focus) (second : Command) (e : Replacement) (u : Table) (q : Position) :
    Prop where
  sound : (f.withTable u).Sound
  replace : e = (f.withTable u).replace (some q)
  line : ∃ row < u.rowCount, q.line = f.region.startLine + row
  back : ∀ anchor options, (f.withTable u).written.anchorAt q = .ok anchor →
    ∃ cursor, (f.withTable u).written.perform q anchor second options =
      .ok (some (((f.withTable u).written.withTable f.table).replace cursor))

theorem Sound.takenBack_cell {u : Table} (hu : (f.withTable u).Sound) {a : CellAddress}
    (ha : a ∈ u.cellAddresses)
    (hback : ∀ options, ∃ cursor,
      (f.withTable u).written.perform ((f.withTable u).cursorFor a) (some (.inside a)) second
        options = .ok (some (((f.withTable u).written.withTable f.table).replace cursor))) :
    f.TakenBack second ((f.withTable u).replaceAt a) u ((f.withTable u).cursorFor a) := by
  obtain ⟨⟨cells, hr⟩, -⟩ := Table.mem_cellAddresses.1 ha
  have hrow : a.row < u.rowCount := (List.getElem?_eq_some_iff.1 hr).1
  refine ⟨hu, rfl, ⟨a.row, hrow, hu.line_cursorFor a⟩, fun anchor options hanchor => ?_⟩
  obtain rfl := Except.ok.inj (hanchor.symm.trans (hu.anchorAt_cursorFor ha))
  exact hback options

theorem Sound.exists_takenBack_insertRow (h : f.Sound)
    (he : f.insertRowBelow p anchor = .ok (some e)) : ∃ u q, f.TakenBack .deleteRow e u q := by
  obtain ⟨row, u, -, hu, rfl⟩ := insertRowBelow_eq_ok_some_iff.1 he
  have hsound := h.blankEdit (.insertRow hu)
  have hcount := Table.rowCount_insertRow hu
  have hpos : 0 < f.table.rowCount := List.length_pos_iff.2 h.rows_ne_nil
  have hrow : row + 1 ≤ f.table.rowCount := (Table.insertRow_eq_ok_iff.1 hu).1
  have hback := Table.removeRow_of_insertRow h.wellFormed h.columns_ne_nil hu
  have hline := hsound.line_cursorFor ⟨row + 1, anchorColumn anchor⟩
  refine ⟨u, _, hsound, rfl, ⟨row + 1, by omega, hline⟩, fun anchor options _ => ?_⟩
  have hone : 1 < (f.withTable u).written.table.rowCount :=
    Nat.lt_of_lt_of_eq (Nat.succ_lt_succ hpos) hcount.symm
  exact exists_deleteRow hone (rowAt_of_line hline) hback anchor

theorem Sound.exists_takenBack_insertColumn (h : f.Sound) (hanchor : f.anchorAt p = .ok anchor)
    (he : f.insertColumnRight anchor = .ok (some e)) :
    ∃ u q, f.TakenBack .deleteColumn e u q := by
  obtain ⟨a, u, hcell, hu, rfl⟩ := insertColumnRight_eq_ok_some_iff.1 he
  have ha := mem_cellAddresses_of_anchorAt h.startLine hanchor hcell
  have hnew := Table.mem_cellAddresses_insertColumn ha hu
  have hsound := h.blankEdit (.insertColumn (Table.hasData_of_mem_cellAddresses ha) hu)
  have hback := Table.removeColumn_of_insertColumn h.wellFormed h.columns_ne_nil hu
  have hcell' : (some (Anchor.inside ⟨a.row, a.col + 1⟩)).bind Anchor.cell =
      some ⟨a.row, a.col + 1⟩ := rfl
  exact ⟨u, _, hsound.takenBack_cell hnew fun _ =>
    exists_deleteColumn (f := (f.withTable u).written) hcell' hback⟩

theorem Sound.swapRows (h : f.Sound) {row target : Nat} {u : Table}
    (hstep : direction.step row f.table.rowCount = some target) (hrow : f.table.IsDataRow row)
    (htarget : f.table.IsDataRow target) (hu : f.table.swapRows row target = .ok u) :
    (f.withTable u).Sound := by
  have hkinds := Table.kinds_swapRows hrow htarget hu
  obtain ⟨command, hedit⟩ := RowEdit.exists_of_step hstep hu
  have hdata : u.HasData := by
    obtain ⟨cells, hcells⟩ := hrow
    rw [Table.HasData, hkinds]
    exact f.table.hasData_iff.2 ⟨cells, List.mem_of_getElem? hcells⟩
  refine ⟨hedit.wellFormed h.wellFormed, (hedit.legible_iff h.legible).2 ⟨.inl hdata, ?_⟩,
    hedit.rows_ne_nil, ?_, h.newline⟩
  · intro _ j a ha hleft
    rw [hkinds]
    exact (h.legible.aligned j a (hedit.alignments_eq ▸ ha) hleft).2
  · obtain ⟨rows, rfl, -⟩ := hedit.exists_rearrangement
    exact h.startLine

theorem Sound.line_cursorInRow (h : f.Sound) (p : Position) (anchor : Option Anchor)
    (target : Nat) : (f.cursorInRow p anchor target).line = f.region.startLine + target := by
  unfold cursorInRow
  split
  · exact h.line_cursorFor _
  · rfl

theorem Sound.exists_takenBack_moveRow (h : f.Sound) {row : Nat} (hp : f.rowAt p = .ok row)
    (hdata : ∀ target, direction.step row f.table.rowCount = some target →
      f.table.IsDataRow row ∧ f.table.IsDataRow target)
    (hsecond : ∀ (g : Focus) q anchor options,
      g.perform q anchor second options = g.moveRow q anchor direction.reverse)
    (he : f.moveRow p anchor direction = .ok (some e)) : ∃ u q, f.TakenBack second e u q := by
  obtain ⟨row', target, u, hrow', hstep, hu, rfl⟩ := moveRow_eq_ok_some_iff.1 he
  obtain rfl : row = row' := Except.ok.inj (hp.symm.trans hrow')
  obtain ⟨hrow, htarget⟩ := hdata target hstep
  have hsound := h.swapRows hstep hrow htarget hu
  have hcount := Table.rowCount_swapRows hu
  have hback := Table.swapRows_swapRows h.wellFormed hu
  obtain ⟨hlt, hlt', -⟩ := Table.swapRows_eq_ok_iff.1 hu
  have hline := hsound.line_cursorInRow p anchor target
  refine ⟨u, _, hsound, rfl, ⟨target, by omega, hline⟩, fun anchor options _ => ?_⟩
  have hreverse := Direction.step_reverse hlt hstep
  rw [← hcount] at hreverse
  rw [hsecond]
  exact exists_moveRow (f := (f.withTable u).written) (rowAt_of_line hline) hreverse hback anchor

theorem Sound.swapColumns (h : f.Sound) (hdialect : f.dialect = .org) {col target : Nat} {u : Table}
    (hstep : direction.step col f.table.colCount = some target)
    (hu : f.table.swapColumns col target = .ok u) : (f.withTable u).Sound := by
  have hlegible : f.table.Legible .org := hdialect ▸ h.legible
  obtain ⟨command, hedit⟩ := ColumnEdit.exists_of_step hstep hu
  have hu' : u.Legible .org := (hedit.legible_iff hlegible).2 nofun
  refine ⟨hedit.wellFormed h.wellFormed, ?_, hedit.rows_ne_nil hlegible.toRowsLegible, ?_,
    h.newline⟩
  · exact (show (f.withTable u).dialect = .org from hdialect) ▸ hu'
  · obtain ⟨columns, g, rfl, -⟩ := hedit.exists_rearrangement
    exact h.startLine

theorem Sound.exists_takenBack_moveColumn (h : f.Sound) (hdialect : f.dialect = .org)
    (hanchor : f.anchorAt p = .ok anchor)
    (hsecond : ∀ (g : Focus) q anchor options,
      g.perform q anchor second options = g.moveColumn anchor direction.reverse)
    (he : f.moveColumn anchor direction = .ok (some e)) : ∃ u q, f.TakenBack second e u q := by
  obtain ⟨a, target, u, hcell, hstep, hu, rfl⟩ := moveColumn_eq_ok_some_iff.1 he
  have ha := mem_cellAddresses_of_anchorAt h.startLine hanchor hcell
  have hsound := h.swapColumns hdialect hstep hu
  have hback := Table.swapColumns_swapColumns h.wellFormed hu
  have hcount := Table.colCount_swapColumns hu
  have hnew := Table.mem_cellAddresses_swapColumns ha hu
  have hreverse := Direction.step_reverse (Table.mem_cellAddresses.1 ha).2 hstep
  rw [← hcount] at hreverse
  refine ⟨u, _, hsound.takenBack_cell hnew fun options => ?_⟩
  rw [hsecond]
  exact exists_moveColumn (f := (f.withTable u).written) (a := ⟨a.row, target⟩) rfl hreverse hback

/-- After the first of two opposite commands the second one leads back. -/
theorem Sound.exists_takenBack (h : f.Sound) (hanchor : f.anchorAt p = .ok anchor)
    {first : Command} {row : Nat} (hrow : f.rowAt p = .ok row)
    (hopposite : Opposite f.table row f.dialect first second) {options : CommandOptions}
    (he : f.perform p anchor first options = .ok (some e)) : ∃ u q, f.TakenBack second e u q := by
  generalize hdialect : f.dialect = d at hopposite
  cases hopposite with
  | insertRow => exact h.exists_takenBack_insertRow he
  | insertColumn => exact h.exists_takenBack_insertColumn hanchor he
  | moveRowDown hdata hbelow =>
    refine h.exists_takenBack_moveRow hrow (fun target hstep => ?_) (fun _ _ _ _ => rfl) he
    obtain rfl := Direction.step_forward_eq_some hstep
    exact ⟨hdata, hbelow⟩
  | moveRowUp hdata habove =>
    refine h.exists_takenBack_moveRow hrow (fun target hstep => ?_) (fun _ _ _ _ => rfl) he
    obtain rfl := Direction.step_back_eq_some hstep
    exact ⟨hdata, habove⟩
  | moveColumnRight =>
    exact h.exists_takenBack_moveColumn hdialect hanchor (fun _ _ _ _ => rfl) he
  | moveColumnLeft =>
    exact h.exists_takenBack_moveColumn hdialect hanchor (fun _ _ _ _ => rfl) he

/-- On the text that the first replacement gives, the second command writes the table in focus as
formatting writes it. -/
theorem TakenBack.exists_run {pre rest : List Text} {u : Table} {q : Position}
    (h : f.TakenBack second e u q) (hb : f.Between pre rest) (hf : f.Sound)
    (options : CommandOptions) :
    ∃ doc' e', e.apply (pre ++ (f.lines ++ rest)) = .ok doc' ∧
      second.run options f.dialect doc' q = .ok (some e') ∧
      e'.apply doc' = .ok (pre ++ (f.written.lines ++ rest)) := by
  obtain ⟨hu, rfl, ⟨row, hrow, hline⟩, hback⟩ := h
  let g := (f.withTable u).written
  have hload : load f.dialect (pre ++ (g.lines ++ rest)) q.line = .ok (some g) :=
    hline ▸ (hb.withTable u).load_written hu hrow
  obtain ⟨anchor, hanchor⟩ := exists_anchorAt (f := g) (p := q) (hline ▸ Nat.le_add_right _ _)
  obtain ⟨cursor, hperform⟩ := hback anchor options hanchor
  have hindent : (g.withTable f.table).indent = f.indent := hu.indent_written
  have hsound : (g.withTable f.table).Sound :=
    ⟨hf.wellFormed, hf.legible, hf.rows_ne_nil, hf.startLine, hindent ▸ hf.newline⟩
  refine ⟨_, _, (hb.withTable u).apply_replace hu (some q),
    Command.run_eq_ok_some_iff.2 ⟨g, anchor, hload, hanchor, hperform⟩, ?_⟩
  have hlines : (g.withTable f.table).written.lines = f.written.lines := by
    rw [written, hindent]
    rfl
  rw [← hlines]
  exact (((hb.withTable u).written hu).withTable f.table).apply_replace hsound cursor

end Focus

/-- One command and then its opposite, from where the first one leaves the cursor, have together
formatted the table, whatever the options of either are. -/
theorem format_of_run_opposite {d : Dialect} {doc : List Text} {p : Position}
    {first second : Command} {options : CommandOptions} {e : Replacement}
    (hdoc : ∀ l ∈ doc, '\n' ∉ l)
    (hopposite : ∀ f, Focus.load d doc p.line = .ok (some f) →
      Opposite f.table (p.line - f.region.startLine) d first second)
    (h : first.run options d doc p = .ok (some e)) (options' : CommandOptions) :
    ∃ q doc' e' e₀ out, e.cursor = some q ∧ e.apply doc = .ok doc' ∧
      second.run options' d doc' q = .ok (some e') ∧ e'.apply doc' = .ok out ∧
      Command.run .format options' d doc p = .ok (some e₀) ∧ e₀.apply doc = .ok out := by
  obtain ⟨f, anchor, hload, hanchor, hperform⟩ := Command.run_eq_ok_some_iff.1 h
  obtain ⟨rfl, -⟩ := Focus.legible_of_load hload
  have hsound := Focus.sound_of_load hdoc hload
  obtain ⟨pre, rest, row, hb, rfl, -, -, hline⟩ := Focus.exists_between_of_load hdoc hload
  have hrow : f.rowAt p = .ok (p.line - f.region.startLine) :=
    Focus.rowAt_eq_ok_iff.2 ⟨by omega, rfl⟩
  obtain ⟨u, q, htaken⟩ := hsound.exists_takenBack hanchor hrow (hopposite f hload) hperform
  obtain ⟨doc', e', hdoc', hrun, hout⟩ := htaken.exists_run hb hsound options'
  have hformat : Command.run .format options' f.dialect (pre ++ (f.lines ++ rest)) p =
      .ok (some (f.replace ((anchor.bind Anchor.cell).map f.cursorFor))) :=
    Command.run_eq_ok_some_iff.2 ⟨f, anchor, hload, hanchor, rfl⟩
  exact ⟨q, doc', e', _, _, htaken.replace ▸ rfl, hdoc', hrun, hout, hformat,
    hb.apply_replace hsound _⟩

/-- An unfinished row moves down past a wide one and up again. -/
theorem format_of_run_opposite_wide :
    ∃ e q doc' e', Command.run .moveRowDown {} .markdown
        ["a".toList, "  |b|c".toList, "  |:-:|".toList, "  |d".toList, "  |表計|f|".toList] ⟨3, 4⟩ =
          .ok (some e) ∧
      e.apply ["a".toList, "  |b|c".toList, "  |:-:|".toList, "  |d".toList, "  |表計|f|".toList] =
        .ok doc' ∧
      e.cursor = some q ∧ Command.run .moveRowUp {} .markdown doc' q = .ok (some e') ∧
      e'.apply doc' = .ok ["a".toList, "  | b    | c   |".toList, "  | :--: | --- |".toList,
        "  | d    |     |".toList, "  | 表計 | f   |".toList] := by
  have hfirst : Command.run .moveRowDown {} .markdown
      ["a".toList, "  |b|c".toList, "  |:-:|".toList, "  |d".toList, "  |表計|f|".toList] ⟨3, 4⟩ =
        .ok (some ⟨⟨1, 4⟩,
          "  | b    | c   |\n  | :--: | --- |\n  | 表計 | f   |\n  | d    |     |".toList,
          some ⟨4, 4⟩⟩) := rfl
  obtain ⟨q, doc', e', e₀, out, hq, hdoc', hsecond, hout, hformat, happly⟩ :=
    @format_of_run_opposite _ _ _ _ .moveRowUp _ _ (by decide) (fun f hload => by
      obtain rfl : _ = f := Option.some.inj (Except.ok.inj hload)
      exact .moveRowDown ⟨_, rfl⟩ ⟨_, rfl⟩) hfirst {}
  obtain rfl : _ = e₀ := Option.some.inj (Except.ok.inj hformat)
  obtain rfl : _ = out := Except.ok.inj happly
  exact ⟨_, q, doc', e', hfirst, hdoc', hq, hsecond, hout⟩

end PipeTable
