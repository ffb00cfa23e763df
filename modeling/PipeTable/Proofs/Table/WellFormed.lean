import PipeTable.Table.Reachable

/-! # Well-formed tables

A table is well-formed when its data rows are as long as it has columns, when it has a column
as soon as it has a row, and when every column is as wide as the rows ask. Every operation keeps
this, so it holds of all reachable tables. The operations that end by fitting all widths only
have to keep the shape of the grid; adding a row, adding a column and setting a cell adjust
widths on the spot and need an argument about the widest cell.
-/

namespace PipeTable

namespace Table

/-- Data rows hold one cell for each column, and a table with rows has a column. -/
structure Shaped (t : Table) : Prop where
  rectangular : ∀ cells, Row.data cells ∈ t.rows → cells.length = t.colCount
  columned : t.rows ≠ [] → t.columns ≠ []

def Fitted (t : Table) : Prop :=
  ∀ j c, t.columns[j]? = some c → c.width = t.fittedWidth j

structure WellFormed (t : Table) : Prop extends Shaped t where
  fitted : t.Fitted

theorem refit_eq_self_iff (t : Table) : t.refit = t ↔ t.Fitted := by
  have hwidths : t.refit = t ↔ t.refit.columns = t.columns := by
    constructor
    · exact congrArg columns
    · intro h
      calc t.refit = { t with columns := t.refit.columns } := rfl
        _ = { t with columns := t.columns } := by rw [h]
  rw [hwidths]
  constructor
  · intro h j c hc
    have hj := congrArg (·[j]?) h
    simp only [refit, List.getElem?_mapIdx, hc, Option.map_some, Option.some.injEq] at hj
    exact (congrArg Column.width hj).symm
  · intro h
    apply List.ext_getElem?
    intro j
    cases hc : t.columns[j]? with
    | none => simp [refit, hc]
    | some c => simp [refit, hc, ← h j c hc]

theorem fitted_refit (t : Table) : t.refit.Fitted :=
  (refit_eq_self_iff t.refit).1 (refit_refit t)

theorem Shaped.refit {t : Table} (h : t.Shaped) : t.refit.WellFormed where
  rectangular cells hcells := by
    rw [colCount_refit]
    exact h.rectangular cells hcells
  columned hrows := by
    have hne := h.columned hrows
    rw [← List.length_pos_iff] at hne ⊢
    simpa [Table.refit] using hne
  fitted := fitted_refit t

theorem Shaped.withRows {t : Table} (h : t.Shaped) {rows : List Row}
    (hrect : ∀ cells, Row.data cells ∈ rows → cells.length = t.colCount)
    (hne : rows ≠ [] → t.rows ≠ []) : Shaped { t with rows := rows } where
  rectangular := hrect
  columned hrows := h.columned (hne hrows)

@[simp] theorem contentWidth_nil (col : Nat) : contentWidth [] col = 0 := rfl

@[simp] theorem contentWidth_cons (r : Row) (rows : List Row) (col : Nat) :
    contentWidth (r :: rows) col = max (r.cellWidth col) (contentWidth rows col) := rfl

theorem contentWidth_append (rows others : List Row) (col : Nat) :
    contentWidth (rows ++ others) col = max (contentWidth rows col) (contentWidth others col) := by
  induction rows with
  | nil => simp
  | cons r rows ih => simp [ih, Nat.max_assoc]

theorem cellWidth_le_contentWidth {rows : List Row} {r : Row} (h : r ∈ rows) (col : Nat) :
    r.cellWidth col ≤ contentWidth rows col := by
  induction rows with
  | nil => cases h
  | cons s rows ih =>
    rw [contentWidth_cons]
    rcases List.mem_cons.1 h with rfl | h
    · exact Nat.le_max_left _ _
    · exact Nat.le_trans (ih h) (Nat.le_max_right _ _)

@[simp] theorem cellWidth_separator (col : Nat) : Row.separator.cellWidth col = 0 := rfl

theorem cellWidth_eq_zero {r : Row} {col : Nat} (h : r.cells.length ≤ col) :
    r.cellWidth col = 0 := by
  rw [Row.cellWidth, List.getElem?_eq_none h]
  rfl

theorem cellWidth_push (r : Row) (col : Nat) :
    (r.mapCells (· ++ [[]])).cellWidth col = r.cellWidth col := by
  cases r with
  | separator => rfl
  | data cells =>
    rcases Nat.lt_trichotomy col cells.length with h | h | h
    · simp [Row.mapCells, Row.cellWidth, Row.cells, List.getElem?_append_left h]
    · subst h
      simp [Row.mapCells, Row.cellWidth, Row.cells]
    · rw [cellWidth_eq_zero, cellWidth_eq_zero]
      · exact Nat.le_of_lt h
      · simpa [Row.mapCells, Row.cells] using Nat.succ_le_of_lt h

theorem contentWidth_push (rows : List Row) (col : Nat) :
    contentWidth (rows.map (Row.mapCells (· ++ [[]]))) col = contentWidth rows col := by
  induction rows with
  | nil => rfl
  | cons r rows ih => simp [ih, cellWidth_push]

theorem contentWidth_eq_zero {rows : List Row} {col : Nat}
    (h : ∀ r ∈ rows, r.cells.length ≤ col) : contentWidth rows col = 0 := by
  induction rows with
  | nil => rfl
  | cons r rows ih =>
    rw [contentWidth_cons, cellWidth_eq_zero (h r (by simp)), ih fun s hs => h s (by simp [hs])]
    rfl

/-- The widest cell of a column is the cell of one row against the widest of all others. -/
theorem contentWidth_set {rows : List Row} {i : Nat} {r : Row} (hr : rows[i]? = some r)
    (col : Nat) :
    ∃ others, contentWidth rows col = max others (r.cellWidth col) ∧
      ∀ s, contentWidth (rows.set i s) col = max others (s.cellWidth col) := by
  induction rows generalizing i with
  | nil => simp at hr
  | cons first rows ih =>
    cases i with
    | zero =>
      simp only [List.getElem?_cons_zero, Option.some.injEq] at hr
      subst hr
      exact ⟨contentWidth rows col, by simp [Nat.max_comm], fun s => by simp [Nat.max_comm]⟩
    | succ i =>
      obtain ⟨others, hold, hnew⟩ := ih (by simpa using hr)
      refine ⟨max (first.cellWidth col) others, ?_, fun s => ?_⟩
      · rw [contentWidth_cons, hold, Nat.max_assoc]
      · rw [List.set_cons_succ, contentWidth_cons, hnew, Nat.max_assoc]

theorem Shaped.length_cells_le {t : Table} (h : t.Shaped) {r : Row} (hr : r ∈ t.rows) :
    r.cells.length ≤ t.colCount := by
  cases r with
  | separator => exact Nat.zero_le _
  | data cells => exact Nat.le_of_eq (h.rectangular cells hr)

end Table

end PipeTable
