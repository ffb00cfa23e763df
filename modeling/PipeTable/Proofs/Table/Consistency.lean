import PipeTable.Proofs.Table.Atomic

/-! # What holds of a table at any time

The rows of a table are kept in two lists, one of kinds and one of cells, and each operation has to
change both. However a table came about, and whatever has failed on the way, the lists are of one
length, the grid is rectangular, and the columns are as wide as their cells ask. The lists are
those of a reachable table at any time, so this is read off from well-formed tables.
-/

namespace PipeTable

namespace Table

variable {t : Table}

/-- The cells of column `j`, one from each data row. -/
def columnCells (t : Table) (j : Nat) : List Text :=
  t.rows.filterMap fun r =>
    match r with
    | .data cells => cells[j]?
    | .separator => none

/-- The display width of the widest cell of column `j`, zero if there is none. -/
def widestCell (t : Table) (j : Nat) : Nat :=
  ((t.columnCells j).map Text.displayWidth).foldr max 0

/-- What holds of a table at any time. Each row has its list of cells, a data row one cell for
each column and a separator row none; a table with rows has a column; a column is as wide as its
widest cell, and at least three cells wide exactly if there is a separator row; so fitting the
widths again changes nothing. -/
structure Consistent (t : Table) : Prop where
  cellLists : (t.rows.map Row.cells).length = t.rowCount
  dataCells : ∀ cells, Row.data cells ∈ t.rows → cells.length = t.colCount
  separatorCells : ∀ r ∈ t.rows, r.kind = .separator → r.cells = []
  columned : t.rows ≠ [] → 1 ≤ t.colCount
  widths : ∀ j c, t.columns[j]? = some c →
    c.width = max (t.widestCell j) (if Row.separator ∈ t.rows then 3 else 0)
  settled : t.refit = t

theorem contentWidth_eq_widestCell (t : Table) (j : Nat) :
    contentWidth t.rows j = t.widestCell j := by
  unfold widestCell columnCells
  induction t.rows with
  | nil => rfl
  | cons r rows ih =>
    rw [contentWidth_cons, ih]
    cases r with
    | separator => simp
    | data cells => cases hj : cells[j]? <;> simp [Row.cellWidth, Row.cells, hj]

theorem Reachable.consistent (ht : Reachable t) : t.Consistent where
  cellLists := List.length_map _
  dataCells := ht.wellFormed.rectangular
  separatorCells r _ hr := by
    cases r with
    | data cells => cases hr
    | separator => rfl
  columned hrows := List.length_pos_iff.2 (ht.wellFormed.columned hrows)
  widths j c hc := by
    rw [ht.wellFormed.fitted j c hc, fittedWidth, contentWidth_eq_widestCell, minWidth_eq]
    simp only [any_isSeparator_iff]
  settled := (refit_eq_self_iff t).2 ht.wellFormed.fitted

end Table

namespace Store

variable {s : Store} {t : Table}

/-- The lists of a table after any operations, of which some may have failed. -/
inductive Reachable : Store → Prop
  | empty : Reachable (ofTable Table.empty)
  | withSize (rows cols : Nat) : Reachable (ofTable (Table.withSize rows cols))
  | parse {d : Dialect} {text : Text} {t : Table} (h : Table.parse d text = some t) :
      Reachable (ofTable t)
  | startLine {s : Store} (hs : Reachable s) (n : Nat) : Reachable { s with startLine := n }
  | after {s : Store} (hs : Reachable s) (op : Operation) : Reachable (op.after s)

theorem Reachable.exists_eq_ofTable (hs : Reachable s) : ∃ t, t.Reachable ∧ s = ofTable t := by
  induction hs with
  | empty => exact ⟨_, .empty, rfl⟩
  | withSize rows cols => exact ⟨_, .withSize rows cols, rfl⟩
  | parse h => exact ⟨_, .parse h, rfl⟩
  | startLine _ n ih =>
    obtain ⟨t, ht, rfl⟩ := ih
    exact ⟨_, .startLine ht n, rfl⟩
  | after _ op ih =>
    obtain ⟨t, ht, rfl⟩ := ih
    exact Operation.exists_after_eq ht op

/-- The cells of column `j`, one from each data row. -/
def columnCells (s : Store) (j : Nat) : List Text :=
  (s.kinds.zip s.cells).filterMap fun r =>
    match r with
    | (.data, cells) => cells[j]?
    | (.separator, _) => none

/-- The display width of the widest cell of column `j`, zero if there is none. -/
def widestCell (s : Store) (j : Nat) : Nat :=
  ((s.columnCells j).map Text.displayWidth).foldr max 0

/-- What holds of the lists of a table at any time. There is a list of cells for each row, of one
cell for each column in a data row and empty in a separator row; rows need a column; and the
columns are as wide as their widest cells and the separator rows ask. -/
structure Consistent (s : Store) : Prop where
  cellLists : s.cells.length = s.kinds.length
  dataCells : ∀ (i : Nat) (cells : List Text), s.kinds[i]? = some .data →
    s.cells[i]? = some cells → cells.length = s.columns.length
  separatorCells : ∀ (i : Nat) (cells : List Text), s.kinds[i]? = some .separator →
    s.cells[i]? = some cells → cells = []
  columned : s.kinds ≠ [] → 1 ≤ s.columns.length
  widths : ∀ j c, s.columns[j]? = some c →
    c.width = max (s.widestCell j) (if RowKind.separator ∈ s.kinds then 3 else 0)
  settled : s.refit = s

theorem widestCell_ofTable (t : Table) (j : Nat) : (ofTable t).widestCell j = t.widestCell j := by
  rw [widestCell, columnCells, zip_ofTable, List.filterMap_map]
  congr 3
  funext r
  cases r <;> rfl

theorem separator_mem_kinds_ofTable :
    RowKind.separator ∈ (ofTable t).kinds ↔ Row.separator ∈ t.rows := by
  rw [ofTable, List.mem_map]
  constructor
  · rintro ⟨r, hr, hkind⟩
    cases r with
    | data cells => cases hkind
    | separator => exact hr
  · exact fun h => ⟨.separator, h, rfl⟩

theorem exists_row_of_getElem? {i : Nat} {kind : RowKind} {cells : List Text}
    (hkind : (ofTable t).kinds[i]? = some kind) (hcells : (ofTable t).cells[i]? = some cells) :
    ∃ r ∈ t.rows, r.kind = kind ∧ r.cells = cells := by
  rw [getElem?_kinds_ofTable, Option.map_eq_some_iff] at hkind
  obtain ⟨r, hr, hkind⟩ := hkind
  rw [getElem?_cells_ofTable, hr, Option.map_some, Option.some.injEq] at hcells
  exact ⟨r, List.mem_of_getElem? hr, hkind, hcells⟩

end Store

namespace Table

variable {t : Table}

theorem Consistent.ofTable (h : t.Consistent) : (Store.ofTable t).Consistent where
  cellLists := by rw [Store.ofTable, List.length_map, List.length_map]
  dataCells i cells hkind hcells := by
    obtain ⟨r, hr, hkind, rfl⟩ := Store.exists_row_of_getElem? hkind hcells
    cases r with
    | separator => cases hkind
    | data cells => exact h.dataCells cells hr
  separatorCells i cells hkind hcells := by
    obtain ⟨r, hr, hkind, rfl⟩ := Store.exists_row_of_getElem? hkind hcells
    exact h.separatorCells r hr hkind
  columned hkinds := h.columned fun hrows => hkinds (by rw [Store.ofTable, hrows, List.map_nil])
  widths j c hc := by
    rw [h.widths j c hc, Store.widestCell_ofTable]
    simp only [Store.separator_mem_kinds_ofTable]
  settled := by rw [Store.refit_ofTable, h.settled]

/-- However a table came about, it is consistent, and so are the lists that it is kept in, even
after operations that have failed. -/
theorem consistent_of_reachable :
    (∀ t : Table, t.Reachable → t.Consistent) ∧ ∀ s : Store, s.Reachable → s.Consistent := by
  refine ⟨fun t ht => ht.consistent, fun s hs => ?_⟩
  obtain ⟨t, ht, rfl⟩ := hs.exists_eq_ofTable
  exact ht.consistent.ofTable

/-- A wide cell comes in, a separator row refuses one and goes: the widths follow. -/
theorem consistent_of_reachable_edited :
    ∃ t u s, (withSize 2 2).setCell 2 1 ['日', '本'] = .ok t ∧ t.removeRow 1 = .ok u ∧
      s = Operation.after (.removeRow 1) (Operation.after (.setCell 1 0 ['a'])
        (Operation.after (.setCell 2 1 ['日', '本']) (Store.ofTable (withSize 2 2)))) ∧
      u.columns.map Column.width = [0, 4] ∧ s = Store.ofTable u ∧
      Reachable u ∧ u.Consistent ∧ s.Reachable ∧ s.Consistent := by
  have ht : Reachable _ := .setCell (.withSize 2 2)
    (show (withSize 2 2).setCell 2 1 ['日', '本'] = .ok _ from rfl)
  have hu : Reachable _ := .removeRow ht (show Table.removeRow _ 1 = .ok _ from rfl)
  have hs : Store.Reachable _ := .after (.after (.after (.withSize 2 2)
    (.setCell 2 1 ['日', '本'])) (.setCell 1 0 ['a'])) (.removeRow 1)
  exact ⟨_, _, _, rfl, rfl, rfl, by decide, by decide, hu,
    consistent_of_reachable.1 _ hu, hs, consistent_of_reachable.2 _ hs⟩

end Table

end PipeTable
