import PipeTable.Proofs.Table.WellFormed

/-! # Growing tables

Appending columns and rows keeps a table well-formed without fitting its widths again: an empty
column is as wide as separator rows ask, a data row widens columns to its own cells, and the
first separator row raises all columns to the width of a rule.
-/

namespace PipeTable

theorem fitCells_of_length_le {n : Nat} {cells : List Text} (h : cells.length ≤ n) :
    fitCells n cells = cells ++ List.replicate (n - cells.length) [] := by
  rw [fitCells, List.take_of_length_le h]

namespace Table

variable {t : Table}

theorem wellFormed_empty : empty.WellFormed where
  rectangular cells hcells := by simp [empty] at hcells
  columned hrows := absurd rfl hrows
  fitted j c hc := by simp [empty] at hc

theorem minWidth_eq (t : Table) : t.minWidth = if t.rows.any Row.isSeparator then 3 else 0 := rfl

@[simp] theorem colCount_addColumn (t : Table) : t.addColumn.colCount = t.colCount + 1 := by
  simp [addColumn, colCount]

@[simp] theorem minWidth_addColumn (t : Table) : t.addColumn.minWidth = t.minWidth := by
  simp [minWidth_eq, addColumn]

theorem fittedWidth_addColumn (t : Table) (j : Nat) :
    t.addColumn.fittedWidth j = t.fittedWidth j := by
  rw [fittedWidth, fittedWidth, minWidth_addColumn]
  exact congrArg (max · t.minWidth) (contentWidth_push t.rows j)

theorem Shaped.addColumn (h : t.Shaped) : t.addColumn.Shaped where
  rectangular cells hcells := by
    obtain ⟨r, hr, heq⟩ := List.mem_map.1 hcells
    cases r with
    | separator => simp [Row.mapCells] at heq
    | data old =>
      simp only [Row.mapCells, Row.data.injEq] at heq
      rw [← heq, colCount_addColumn, List.length_append, h.rectangular old hr]
      rfl
  columned _ := by simp [Table.addColumn]

theorem WellFormed.addColumn (h : t.WellFormed) : t.addColumn.WellFormed where
  toShaped := h.toShaped.addColumn
  fitted j c hc := by
    rw [fittedWidth_addColumn]
    simp only [Table.addColumn, List.getElem?_append] at hc
    split at hc
    · exact h.fitted j c hc
    · next hj =>
      -- no row reaches the new column yet, so only separator rows ask for a width
      have hnone : contentWidth t.rows j = 0 :=
        contentWidth_eq_zero fun r hr => Nat.le_trans (h.length_cells_le hr) (Nat.not_lt.1 hj)
      obtain rfl : ({ width := t.minWidth } : Column) = c := by
        cases hi : j - t.columns.length with
        | zero => simpa [hi] using hc
        | succ i => simp [hi] at hc
      simp [fittedWidth, hnone]

theorem WellFormed.addColumns (h : t.WellFormed) (n : Nat) : (t.addColumns n).WellFormed := by
  induction n generalizing t with
  | zero => exact h
  | succ n ih => exact ih h.addColumn

@[simp] theorem colCount_addColumns (n : Nat) (t : Table) :
    (t.addColumns n).colCount = t.colCount + n := by
  induction n generalizing t with
  | zero => rfl
  | succ n ih =>
    rw [Table.addColumns, ih, colCount_addColumn]
    omega

/-- The values that a row is added with: one empty value where there would be no column. -/
def rowValues (t : Table) (values : List Text) : List Text :=
  if values.isEmpty && t.columns.isEmpty then [[]] else values

/-- The table grown to the columns that the values ask for. -/
def grownFor (t : Table) (values : List Text) : Table :=
  t.addColumns ((t.rowValues values).length - t.colCount)

theorem addRow_data (t : Table) (values : List Text) :
    t.addRow .data values =
      let g := t.grownFor values
      let cells := fitCells g.colCount (t.rowValues values)
      { g with
        columns := g.columns.zipWith (fun c v => widenTo (Text.displayWidth v) c) cells
        rows := g.rows ++ [.data cells] } := rfl

theorem addRow_separator (t : Table) (values : List Text) :
    t.addRow .separator values =
      let g := t.grownFor values
      { g with
        columns := g.columns.map (widenTo ruleWidth)
        rows := g.rows ++ [.separator] } := rfl

theorem colCount_grownFor (t : Table) (values : List Text) :
    (t.grownFor values).colCount = max t.colCount (t.rowValues values).length := by
  rw [grownFor, colCount_addColumns]
  omega

theorem columns_grownFor_ne_nil (t : Table) (values : List Text) :
    (t.grownFor values).columns ≠ [] := by
  rw [← List.length_pos_iff]
  change 0 < (t.grownFor values).colCount
  rw [colCount_grownFor, rowValues]
  cases values with
  | nil =>
    cases hcols : t.columns with
    | nil => exact Nat.lt_of_lt_of_le Nat.zero_lt_one (Nat.le_max_right _ _)
    | cons c cs => simp [colCount, hcols]
  | cons v vs => exact Nat.lt_of_lt_of_le (Nat.succ_pos vs.length) (Nat.le_max_right _ _)

theorem WellFormed.grownFor (h : t.WellFormed) (values : List Text) :
    (t.grownFor values).WellFormed :=
  h.addColumns _

theorem WellFormed.pushData (h : t.WellFormed) (hne : t.columns ≠ []) {cells : List Text}
    (hcells : cells.length = t.colCount) :
    WellFormed { t with
      columns := t.columns.zipWith (fun c v => widenTo (Text.displayWidth v) c) cells
      rows := t.rows ++ [.data cells] } where
  rectangular others hmem := by
    have hcount : (t.columns.zipWith (fun c v => widenTo (Text.displayWidth v) c) cells).length =
        t.colCount := by
      rw [List.length_zipWith, hcells]
      exact Nat.min_self _
    rcases List.mem_append.1 hmem with hold | hnew
    · exact (h.rectangular others hold).trans hcount.symm
    · simp only [List.mem_singleton, Row.data.injEq] at hnew
      exact (hnew ▸ hcells).trans hcount.symm
  columned _ := by
    have hpos : 0 < t.columns.length := List.length_pos_iff.2 hne
    rw [← List.length_pos_iff, List.length_zipWith, hcells]
    exact Nat.lt_min.2 ⟨hpos, hpos⟩
  fitted j c hc := by
    obtain ⟨old, v, hold, hv, rfl⟩ := List.getElem?_zipWith_eq_some.1 hc
    have hwidth := h.fitted j old hold
    have hv' : (Row.data cells).cellWidth j = Text.displayWidth v := by
      simp [Row.cellWidth, Row.cells, hv]
    simp only [widenTo, hwidth, fittedWidth, minWidth_eq, contentWidth_append, contentWidth_cons,
      contentWidth_nil, hv', List.any_append, List.any_cons, List.any_nil, Row.isSeparator,
      Bool.or_false]
    omega

theorem WellFormed.pushSeparator (h : t.WellFormed) (hne : t.columns ≠ []) :
    WellFormed { t with
      columns := t.columns.map (widenTo ruleWidth)
      rows := t.rows ++ [.separator] } where
  rectangular cells hmem := by
    rcases List.mem_append.1 hmem with hold | hnew
    · rw [h.rectangular cells hold]
      simp [colCount]
    · simp at hnew
  columned _ := by simpa using hne
  fitted j c hc := by
    rw [List.getElem?_map] at hc
    obtain ⟨old, hold, rfl⟩ := Option.map_eq_some_iff.1 hc
    have hwidth := h.fitted j old hold
    simp only [widenTo, hwidth, fittedWidth, minWidth_eq, ruleWidth, contentWidth_append,
      contentWidth_cons, contentWidth_nil, cellWidth_separator, List.any_append, List.any_cons,
      List.any_nil, Row.isSeparator, Bool.or_true, Bool.true_or, if_true]
    split <;> omega

theorem WellFormed.addRow (h : t.WellFormed) (kind : RowKind) (values : List Text) :
    (t.addRow kind values).WellFormed := by
  have hgrown := h.grownFor values
  have hne := columns_grownFor_ne_nil t values
  cases kind with
  | data =>
    rw [addRow_data]
    exact hgrown.pushData hne (length_fitCells _ _)
  | separator =>
    rw [addRow_separator]
    exact hgrown.pushSeparator hne

theorem mapCells_mapCells (f g : List Text → List Text) (r : Row) :
    (r.mapCells f).mapCells g = r.mapCells (fun cells => g (f cells)) := by
  cases r <;> rfl

theorem rows_addColumns (n : Nat) (t : Table) :
    (t.addColumns n).rows = t.rows.map (Row.mapCells (· ++ List.replicate n [])) := by
  induction n generalizing t with
  | zero =>
    have hid : Row.mapCells (· ++ List.replicate 0 ([] : Text)) = id := by
      funext r
      cases r <;> simp [Row.mapCells]
    rw [hid, List.map_id]
    rfl
  | succ n ih =>
    rw [Table.addColumns, ih, Table.addColumn, List.map_map]
    apply List.map_congr_left
    intro r _
    simp [mapCells_mapCells, List.replicate_succ]

def alignments (t : Table) : List Alignment := t.columns.map Column.alignment

def kinds (t : Table) : List RowKind := t.rows.map Row.kind

@[simp] theorem length_alignments (t : Table) : t.alignments.length = t.colCount :=
  List.length_map _

theorem alignments_addColumns (n : Nat) (t : Table) :
    (t.addColumns n).alignments = t.alignments ++ List.replicate n .left := by
  induction n generalizing t with
  | zero => simp [Table.addColumns]
  | succ n ih =>
    rw [Table.addColumns, ih, List.replicate_succ]
    simp [Table.addColumn, alignments]

theorem startLine_addColumns (n : Nat) (t : Table) : (t.addColumns n).startLine = t.startLine := by
  induction n generalizing t with
  | zero => rfl
  | succ n ih => exact ih t.addColumn

theorem rows_addRow (t : Table) (kind : RowKind) (values : List Text) :
    (t.addRow kind values).rows = (t.grownFor values).rows ++
      [match kind with
        | .data => .data (fitCells (t.grownFor values).colCount (t.rowValues values))
        | .separator => .separator] := by
  cases kind <;> rfl

theorem startLine_addRow (t : Table) (kind : RowKind) (values : List Text) :
    (t.addRow kind values).startLine = t.startLine := by
  cases kind <;> exact startLine_addColumns _ t

theorem map_alignment_zipWith_widenTo {columns : List Column} {cells : List Text}
    (h : cells.length = columns.length) :
    (columns.zipWith (fun c v => widenTo (Text.displayWidth v) c) cells).map Column.alignment =
      columns.map Column.alignment := by
  apply List.ext_getElem
  · simp [h]
  · intro j _ _
    simp [widenTo]

theorem alignments_addRow (t : Table) (kind : RowKind) (values : List Text) :
    (t.addRow kind values).alignments =
      t.alignments ++ List.replicate ((t.rowValues values).length - t.colCount) .left := by
  rw [← alignments_addColumns]
  cases kind with
  | data =>
    rw [addRow_data]
    exact map_alignment_zipWith_widenTo (length_fitCells _ _)
  | separator =>
    rw [addRow_separator, alignments, List.map_map]
    rfl

theorem colCount_addRow (t : Table) (kind : RowKind) (values : List Text) :
    (t.addRow kind values).colCount = max t.colCount (t.rowValues values).length := by
  have h := congrArg List.length (alignments_addRow t kind values)
  rw [List.length_append, List.length_replicate, length_alignments, length_alignments] at h
  omega

theorem kinds_addRow (t : Table) (kind : RowKind) (values : List Text) :
    (t.addRow kind values).kinds = t.kinds ++ [kind] := by
  have hrows : (t.grownFor values).rows.map Row.kind = t.rows.map Row.kind := by
    rw [Table.grownFor, rows_addColumns, List.map_map]
    simp [Function.comp_def]
  rw [kinds, rows_addRow, List.map_append, hrows]
  cases kind <;> rfl

theorem WellFormed.addRows (h : t.WellFormed) (kind : RowKind) (values : List Text) (n : Nat) :
    (t.addRows kind values n).WellFormed := by
  induction n generalizing t with
  | zero => exact h
  | succ n ih => exact ih (h.addRow kind values)

end Table

end PipeTable
