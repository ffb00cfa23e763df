import PipeTable.Proofs.Command.Writing

/-! # Where a cursor is anchored

A table is loaded from each table line of a document and from no other line. On the line of one
of its rows the cursor always has an anchor, wherever on the line it stands and however much of
the row has been typed: the row itself if it is a separator, else the cell that the cursor belongs
to. None of this asks that the lines of the document have no line feeds in them.
-/

namespace PipeTable

open Text Region

namespace Focus

variable {d : Dialect} {doc : List Text} {f : Focus} {p : Position} {row : Nat}

/-- What is true of a loaded table whatever the document. -/
structure Regular (f : Focus) : Prop where
  wellFormed : f.table.WellFormed
  rows_ne_nil : f.table.rows ≠ []
  startLine : f.table.startLine = f.region.startLine

theorem Sound.regular (h : f.Sound) : f.Regular :=
  ⟨h.wellFormed, h.rows_ne_nil, h.startLine⟩

theorem Regular.columns_ne_nil (h : f.Regular) : f.table.columns ≠ [] :=
  h.wellFormed.columned h.rows_ne_nil

theorem exists_load (d : Dialect) (doc : List Text) (line : Nat) :
    ∃ loaded, load d doc line = .ok loaded ∧
      (loaded = none ↔ ∀ l, doc[line]? = some l → isTableLine l = false) := by
  rw [← locate_eq_none_iff]
  cases hregion : Region.locate doc line with
  | none => exact ⟨none, by simp [load, hregion, pure, Except.pure], by simp⟩
  | some region =>
    obtain ⟨pre, run, rest, i, hrun, hi, rfl, rfl, rfl⟩ := exists_run_of_locate hregion
    have hne : run ≠ [] := List.ne_nil_of_length_pos (Nat.zero_lt_of_lt hi)
    have htext : joinLines run ≠ [] := by
      intro hnil
      have hle := length_le_length_tableLines hrun.tableLines
      rw [hnil] at hle
      exact Nat.not_lt_of_le hle (Nat.zero_lt_of_lt hi)
    have hparse := Table.parse_of_ne_nil (d := d) htext
    exact ⟨_, load_eq_ok_some_iff.2 ⟨_, run, _, hregion, linesOf_run hne, hparse, rfl⟩, by simp⟩

theorem exists_load_of_tableLine {line : Nat} {l : Text} (hl : doc[line]? = some l)
    (htable : isTableLine l = true) (d : Dialect) : ∃ f, load d doc line = .ok (some f) := by
  obtain ⟨loaded, hload, hnone⟩ := exists_load d doc line
  cases loaded with
  | none => cases htable.symm.trans (hnone.1 rfl l hl)
  | some f => exact ⟨f, hload⟩

theorem regular_of_load {line : Nat} (h : load d doc line = .ok (some f)) : f.Regular := by
  obtain ⟨-, hwf, -⟩ := legible_of_load h
  obtain ⟨pre, rest, row, -, -, hcount, hrow, -⟩ := exists_run_of_load h
  refine ⟨hwf, List.ne_nil_of_length_pos (Nat.lt_of_lt_of_le (Nat.zero_lt_of_lt hrow) hcount), ?_⟩
  obtain ⟨region, lines, t, -, -, -, rfl⟩ := load_eq_ok_some_iff.1 h
  rfl

section OnRow

variable (h : f.Regular) (hline : p.line = f.region.startLine + row)

include h hline

theorem Regular.of_found {r : Row} (hr : f.table.rows[row]? = some r) {s : Stop}
    (hs : (f.liveCells.stopAt p).or (f.liveCells.nearest p) = some s) :
    s ∈ f.liveCells.stops ∧ s.row = row ∧ s.isSeparator = r.isSeparator := by
  have hfound : s ∈ f.liveCells.stops ∧ s.line = p.line := by
    rcases Option.or_eq_some_iff.1 hs with hs | ⟨-, hs⟩
    · obtain ⟨hmem, hat⟩ := CellMap.mem_of_stopAt hs
      exact ⟨hmem, (Stop.isAt_iff.1 hat).1⟩
    · obtain ⟨hmem, hsline⟩ := CellMap.mem_cells_of_nearest hs
      exact ⟨(CellMap.mem_cells.1 hmem).1, hsline⟩
  obtain ⟨hmem, hsline⟩ := hfound
  have hsrow : s.row = row := by
    have hordered := (CellMap.ordered_inDocument f.table f.lines).line s hmem
    have hstart := h.startLine
    omega
  exact ⟨hmem, hsrow, Stop.isSeparator_eq_of_mem hmem (hsrow ▸ hr)⟩

theorem Regular.cellAt_of_separator (hr : f.table.rows[row]? = some .separator) :
    f.liveCells.cellAt p = none := by
  unfold CellMap.cellAt
  split
  · next s hs => exact if_pos (h.of_found hline hr hs).2.2
  · rfl

theorem Regular.exists_cellAt {cells : List Text} (hr : f.table.rows[row]? = some (.data cells)) :
    ∃ a ∈ f.table.cellAddresses, a.row = row ∧ f.liveCells.cellAt p = some a := by
  have hfirst : ⟨row, 0⟩ ∈ f.table.cellAddresses :=
    Table.mem_cellAddresses.2 ⟨⟨cells, hr⟩, List.length_pos_iff.2 h.columns_ne_nil⟩
  obtain ⟨u, hu, hrow⟩ := CellMap.exists_cell_inDocument hfirst f.lines
  have huline : u.line = p.line := by
    have hordered := (CellMap.ordered_inDocument f.table f.lines).line u (CellMap.mem_cells.1 hu).1
    have hurow : u.row = row := congrArg CellAddress.row hrow
    have hstart := h.startLine
    omega
  obtain ⟨near, hnear⟩ := CellMap.exists_nearest hu huline
  obtain ⟨s, hs⟩ : ∃ s, (f.liveCells.stopAt p).or (f.liveCells.nearest p) = some s := by
    cases hstop : f.liveCells.stopAt p with
    | none => exact ⟨near, hnear⟩
    | some s => exact ⟨s, rfl⟩
  obtain ⟨hmem, hsrow, hdata⟩ := h.of_found hline hr hs
  have hs' := CellMap.address_mem_of_mem_cells (CellMap.mem_cells.2 ⟨hmem, hdata⟩)
  refine ⟨s.address, hs', hsrow, ?_⟩
  simp only [CellMap.cellAt, hs, hdata, Row.isSeparator, Bool.false_eq_true, if_false]

theorem Regular.of_cellAt (hrow : row < f.table.rowCount) {a : CellAddress}
    (ha : f.liveCells.cellAt p = some a) : a ∈ f.table.cellAddresses ∧ a.row = row := by
  obtain ⟨r, hr⟩ : ∃ r, f.table.rows[row]? = some r := ⟨_, List.getElem?_eq_getElem hrow⟩
  cases r with
  | separator => cases ha.symm.trans (h.cellAt_of_separator hline hr)
  | data cells =>
    obtain ⟨b, hb, hbrow, hcell⟩ := h.exists_cellAt hline hr
    obtain rfl := Option.some.inj (hcell.symm.trans ha)
    exact ⟨hb, hbrow⟩

theorem Regular.cellAt_eq_none_iff (hrow : row < f.table.rowCount) :
    f.liveCells.cellAt p = none ↔ f.table.rows[row]? = some .separator := by
  obtain ⟨r, hr⟩ : ∃ r, f.table.rows[row]? = some r := ⟨_, List.getElem?_eq_getElem hrow⟩
  cases r with
  | separator => simp [hr, h.cellAt_of_separator hline hr]
  | data cells =>
    obtain ⟨a, -, -, ha⟩ := h.exists_cellAt hline hr
    simp [hr, ha]

theorem Regular.exists_anchor (hrow : row < f.table.rowCount) :
    ∃ anchor : Anchor, f.anchorAt p = .ok (some anchor) ∧
      anchor.cell = f.liveCells.cellAt p := by
  obtain ⟨r, hr⟩ : ∃ r, f.table.rows[row]? = some r := ⟨_, List.getElem?_eq_getElem hrow⟩
  unfold anchorAt
  rw [rowAt_of_line hline]
  cases r with
  | separator =>
    rw [h.cellAt_of_separator hline hr]
    refine ⟨.separator row, ?_, rfl⟩
    simp [bind, Except.bind, pure, Except.pure, hr, Row.isSeparator]
  | data cells =>
    obtain ⟨a, -, -, ha⟩ := h.exists_cellAt hline hr
    rw [ha]
    cases hstop : f.liveCells.stopAt p with
    | none =>
      refine ⟨.beside a, ?_, rfl⟩
      simp [bind, Except.bind, pure, Except.pure, hr, Row.isSeparator]
    | some s =>
      have hdata := (h.of_found hline hr (Option.or_eq_some_iff.2 (.inl hstop))).2.2
      have hsa : s.address = a := by
        simpa [CellMap.cellAt, hstop, hdata, Row.isSeparator] using ha
      refine ⟨.inside s.address, ?_, congrArg some hsa⟩
      simp [bind, Except.bind, pure, Except.pure, hr, Row.isSeparator]

end OnRow

end Focus

end PipeTable
