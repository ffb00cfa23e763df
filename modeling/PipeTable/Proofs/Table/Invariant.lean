import PipeTable.Proofs.Table.Growth
import PipeTable.Proofs.Table.Outcome
import Mathlib.Data.List.InsertIdx

/-! # The invariant of reachable tables

Each operation takes well-formed tables to well-formed ones. An operation that fails leaves no
table, so by induction over the way a table came about all reachable tables are well-formed:
their grid is rectangular and their widths are those of the widest cells.
-/

namespace PipeTable

theorem mem_of_mem_exchange {α : Type} {xs : List α} {a b : Nat} {x : α}
    (h : x ∈ exchange xs a b) : x ∈ xs := by
  unfold exchange at h
  split at h
  · next y z hy hz =>
    rcases List.mem_or_eq_of_mem_set h with h | rfl
    · rcases List.mem_or_eq_of_mem_set h with h | rfl
      · exact h
      · exact List.mem_of_getElem? hz
    · exact List.mem_of_getElem? hy
  · exact h

namespace Table

variable {t u : Table}

theorem WellFormed.setRow (h : t.WellFormed) {i : Nat} {values : List Text}
    (hu : t.setRow i values = .ok u) : u.WellFormed := by
  rcases setRow_eq_ok_iff.1 hu with ⟨-, rfl⟩ | ⟨old, hold, rfl⟩
  · exact h
  · apply Shaped.refit
    apply h.toShaped.withRows
    · intro cells hcells
      rcases List.mem_or_eq_of_mem_set hcells with hcells | hnew
      · exact h.rectangular cells hcells
      · rw [Row.data.inj hnew, length_fitCells]
    · intro _ hnil
      simp [hnil] at hold

theorem WellFormed.insertRow (h : t.WellFormed) {i : Nat} {kind : RowKind}
    (hu : t.insertRow i kind = .ok u) : u.WellFormed := by
  obtain ⟨-, rfl⟩ := insertRow_eq_ok_iff.1 hu
  have hbase : (if t.columns.isEmpty then t.addColumn else t).Shaped ∧
      (if t.columns.isEmpty then t.addColumn else t).columns ≠ [] := by
    by_cases hcols : t.columns = []
    · simp only [hcols, List.isEmpty_nil, if_true]
      exact ⟨h.toShaped.addColumn, by simp [Table.addColumn]⟩
    · simp only [List.isEmpty_iff, hcols, if_false]
      exact ⟨h.toShaped, hcols⟩
  refine Shaped.refit ⟨?_, fun _ => hbase.2⟩
  intro cells hcells
  rcases List.eq_or_mem_of_mem_insertIdx hcells with hnew | hold
  · cases kind with
    | data =>
      rw [Row.data.inj hnew, List.length_replicate]
      rfl
    | separator => simp [blankRow] at hnew
  · exact hbase.1.rectangular cells hold

theorem WellFormed.removeRow (h : t.WellFormed) {i : Nat} (hu : t.removeRow i = .ok u) :
    u.WellFormed := by
  obtain ⟨hi, rfl⟩ := removeRow_eq_ok_iff.1 hu
  apply Shaped.refit
  apply h.toShaped.withRows
  · exact fun cells hcells => h.rectangular cells (List.mem_of_mem_eraseIdx hcells)
  · intro _ hnil
    simp [rowCount, hnil] at hi

theorem WellFormed.swapRows (h : t.WellFormed) {a b : Nat} (hu : t.swapRows a b = .ok u) :
    u.WellFormed := by
  obtain ⟨ha, -, rfl⟩ := swapRows_eq_ok_iff.1 hu
  apply Shaped.refit
  apply h.toShaped.withRows
  · exact fun cells hcells => h.rectangular cells (mem_of_mem_exchange hcells)
  · intro _ hnil
    simp [rowCount, hnil] at ha

theorem Shaped.mapCells (h : t.Shaped) {columns : List Column} {f : List Text → List Text}
    (hlen : ∀ cells : List Text, cells.length = t.colCount → (f cells).length = columns.length)
    (hne : columns ≠ []) :
    Shaped { t with columns := columns, rows := t.rows.map (Row.mapCells f) } where
  rectangular cells hcells := by
    obtain ⟨r, hr, heq⟩ := List.mem_map.1 hcells
    cases r with
    | separator => simp [Row.mapCells] at heq
    | data old =>
      obtain rfl : f old = cells := Row.data.inj heq
      exact hlen old (h.rectangular old hr)
  columned _ := hne

theorem WellFormed.insertColumn (h : t.WellFormed) {j : Nat} (hu : t.insertColumn j = .ok u) :
    u.WellFormed := by
  obtain ⟨hj, -, rfl⟩ := insertColumn_eq_ok_iff.1 hu
  have hlen : (t.columns.insertIdx j {}).length = t.colCount + 1 :=
    List.length_insertIdx_of_le_length hj _
  apply Shaped.refit
  apply h.toShaped.mapCells
  · intro cells hcells
    rw [hlen, List.length_insertIdx_of_le_length (hcells ▸ hj), hcells]
  · rw [← List.length_pos_iff, hlen]
    exact Nat.succ_pos _

theorem WellFormed.removeColumn (h : t.WellFormed) {j : Nat}
    (hu : t.removeColumn j = .ok (some u)) : u.WellFormed := by
  obtain ⟨hj, hone, -, rfl⟩ := removeColumn_eq_ok_some_iff.1 hu
  have hlen : (t.columns.eraseIdx j).length = t.colCount - 1 :=
    List.length_eraseIdx_of_lt hj
  apply Shaped.refit
  apply h.toShaped.mapCells
  · intro cells hcells
    rw [hlen, List.length_eraseIdx_of_lt (hcells ▸ hj), hcells]
  · rw [← List.length_pos_iff, hlen]
    omega

theorem WellFormed.swapColumns (h : t.WellFormed) {a b : Nat}
    (hu : t.swapColumns a b = .ok u) : u.WellFormed := by
  obtain ⟨ha, -, -, rfl⟩ := swapColumns_eq_ok_iff.1 hu
  have hlen : (exchange t.columns a b).length = t.colCount := length_exchange _ _ _
  apply Shaped.refit
  apply h.toShaped.mapCells
  · intro cells hcells
    rw [hlen, length_exchange, hcells]
  · rw [← List.length_pos_iff, hlen]
    omega

theorem WellFormed.withAlignments (h : t.WellFormed) {columns : List Column}
    (hwidths : columns.map Column.width = t.columns.map Column.width) :
    WellFormed { t with columns := columns } := by
  have hlen : columns.length = t.columns.length := by
    simpa using congrArg List.length hwidths
  refine ⟨⟨?_, ?_⟩, ?_⟩
  · intro cells hcells
    exact (h.rectangular cells hcells).trans hlen.symm
  · intro hrows
    rw [← List.length_pos_iff, hlen, List.length_pos_iff]
    exact h.columned hrows
  · intro j c hc
    have hj : j < t.columns.length := hlen ▸ (List.getElem?_eq_some_iff.1 hc).1
    have hw := congrArg (·[j]?) hwidths
    simp only [List.getElem?_map, hc, List.getElem?_eq_getElem hj, Option.map_some,
      Option.some.injEq] at hw
    exact hw.trans (h.fitted j _ (List.getElem?_eq_getElem hj))

theorem WellFormed.setAlignment (h : t.WellFormed) {col : Nat} {a : Alignment}
    (hu : t.setAlignment col a = .ok u) : u.WellFormed := by
  obtain ⟨-, rfl⟩ := setAlignment_eq_ok_iff.1 hu
  apply h.withAlignments
  apply List.ext_getElem
  · simp
  · intro j _ _
    simp only [List.getElem_map, List.getElem_modify]
    split <;> rfl

theorem WellFormed.alignAs (h : t.WellFormed) (cells : List Text) :
    (t.alignAs cells).WellFormed := by
  apply h.withAlignments
  apply List.ext_getElem <;> simp

theorem WellFormed.addSeparator (h : t.WellFormed) (d : Dialect) (line : Text) :
    (t.addSeparator d line).WellFormed := by
  cases d with
  | markdown => exact (h.addRow .separator []).alignAs (splitCells line)
  | org => exact h.addRow .separator []

/-- The width of a column after one cell changed, from the widest of its `others` and the width
that separator rows ask. The three cases of `widthAfter` are the cell that now is the widest,
the widest cell that got narrower, and a cell that did not decide the width. -/
theorem widthAfter_eq {col old new current others : Nat}
    (hcurrent : current = max (max others old) t.minWidth)
    (hfitted : t.fittedWidth col = max (max others new) t.minWidth) :
    t.widthAfter col old new current = max (max others new) t.minWidth := by
  unfold widthAfter
  split
  · omega
  · split
    · exact hfitted
    · omega

theorem any_set_of_eq {rows : List Row} {i : Nat} {r s : Row} (hr : rows[i]? = some r)
    (hs : s.isSeparator = r.isSeparator) :
    (rows.set i s).any Row.isSeparator = rows.any Row.isSeparator := by
  induction rows generalizing i with
  | nil => rfl
  | cons first rows ih =>
    cases i with
    | zero =>
      simp only [List.getElem?_cons_zero, Option.some.injEq] at hr
      simp [hr, hs]
    | succ i => simp [ih (by simpa using hr)]

theorem cellWidth_set_of_ne {cells : List Text} {col j : Nat} (h : j ≠ col) (value : Text) :
    (Row.data (cells.set col value)).cellWidth j = (Row.data cells).cellWidth j := by
  simp [Row.cellWidth, Row.cells, List.getElem?_set_ne (Ne.symm h)]

theorem Shaped.modifyWidth (h : t.Shaped) {col : Nat} {width : Nat → Nat}
    (hothers : ∀ j c, col ≠ j → t.columns[j]? = some c → c.width = t.fittedWidth j)
    (hcol : ∀ c, t.columns[col]? = some c → width c.width = t.fittedWidth col) :
    WellFormed { t with
      columns := t.columns.modify col fun c => { c with width := width c.width } } := by
  refine ⟨⟨fun cells hcells => ?_, fun hrows => ?_⟩, fun j c hc => ?_⟩
  · exact (h.rectangular cells hcells).trans (List.length_modify _ _ _).symm
  · rw [← List.length_pos_iff, List.length_modify, List.length_pos_iff]
    exact h.columned hrows
  · rw [List.getElem?_modify] at hc
    obtain ⟨before, hbefore, rfl⟩ := Option.map_eq_some_iff.1 hc
    change _ = t.fittedWidth j
    by_cases hj : col = j
    · subst hj
      simpa using hcol before hbefore
    · simpa [hj] using hothers j before hj hbefore

theorem Shaped.setData (h : t.Shaped) {i : Nat} {cells : List Text} (hr : Row.data cells ∈ t.rows)
    {values : List Text} (hlen : values.length = cells.length) :
    Shaped { t with rows := t.rows.set i (.data values) } := by
  apply h.withRows
  · intro others hothers
    rcases List.mem_or_eq_of_mem_set hothers with hold | hnew
    · exact h.rectangular others hold
    · rw [Row.data.inj hnew, hlen]
      exact h.rectangular cells hr
  · intro _ hnil
    simp [hnil] at hr

theorem WellFormed.setCell (h : t.WellFormed) {i col : Nat} {value : Text}
    (hu : t.setCell i col value = .ok u) : u.WellFormed := by
  obtain ⟨cells, old, hr, -, hold, rfl⟩ := setCell_eq_ok_iff.1 hu
  have hin : col < cells.length := (List.getElem?_eq_some_iff.1 hold).1
  have hmin : (t.rows.set i (.data (cells.set col value))).any Row.isSeparator =
      t.rows.any Row.isSeparator := any_set_of_eq hr rfl
  apply (h.toShaped.setData (List.mem_of_getElem? hr) List.length_set).modifyWidth
  · intro j c hj hc
    obtain ⟨others, hbefore, hafter⟩ := contentWidth_set hr j
    rw [h.fitted j c hc]
    simp only [fittedWidth, minWidth_eq, hmin, hbefore, hafter, cellWidth_set_of_ne (Ne.symm hj)]
  · intro c hc
    obtain ⟨others, hbefore, hafter⟩ := contentWidth_set hr col
    have hcellOld : (Row.data cells).cellWidth col = Text.displayWidth old := by
      simp [Row.cellWidth, Row.cells, hold]
    have hcellNew : (Row.data (cells.set col value)).cellWidth col = Text.displayWidth value := by
      simp [Row.cellWidth, Row.cells, hin]
    have hwidth := h.fitted col c hc
    rw [fittedWidth, hbefore, hcellOld, minWidth_eq, ← hmin] at hwidth
    have hfitted := hafter (.data (cells.set col value))
    rw [hcellNew] at hfitted
    rw [widthAfter_eq hwidth (congrArg (max · _) hfitted), fittedWidth, hfitted]

theorem WellFormed.refit (h : t.WellFormed) : t.refit.WellFormed :=
  h.toShaped.refit

theorem WellFormed.withStartLine (h : t.WellFormed) (n : Nat) :
    WellFormed { t with startLine := n } :=
  ⟨⟨h.rectangular, h.columned⟩, h.fitted⟩

theorem wellFormed_withSize (rows cols : Nat) : (withSize rows cols).WellFormed := by
  apply WellFormed.refit
  apply WellFormed.addRows
  exact (wellFormed_empty.addRow _ _).addRow _ _

theorem WellFormed.addLine (h : t.WellFormed) (d : Dialect) (line : Text) :
    (t.addLine d line).WellFormed := by
  unfold Table.addLine
  split
  · exact h.addSeparator d line
  · exact h.addRow .data (splitCells line)

theorem WellFormed.addLines (h : t.WellFormed) (d : Dialect) (ls : List Text) :
    (ls.foldl (Table.addLine d) t).WellFormed := by
  induction ls generalizing t with
  | nil => exact h
  | cons l ls ih => exact ih (h.addLine d l)

theorem parse_of_ne_nil {d : Dialect} {s : Text} (h : s ≠ []) :
    parse d s = some ((tableLines s).foldl (Table.addLine d) empty).refit := by
  rw [parse, if_neg (by simpa using h)]

theorem eq_of_parse {d : Dialect} {s : Text} (h : parse d s = some t) :
    t = ((tableLines s).foldl (Table.addLine d) empty).refit := by
  have hs : s ≠ [] := by
    rintro rfl
    cases h
  rw [parse_of_ne_nil hs, Option.some.injEq] at h
  exact h.symm

theorem wellFormed_of_parse {d : Dialect} {s : Text} (h : parse d s = some t) : t.WellFormed := by
  rw [eq_of_parse h]
  exact (wellFormed_empty.addLines d (tableLines s)).refit

theorem Reachable.wellFormed (ht : Reachable t) : t.WellFormed := by
  induction ht with
  | empty => exact wellFormed_empty
  | withSize rows cols => exact wellFormed_withSize rows cols
  | parse h => exact wellFormed_of_parse h
  | startLine _ n ih => exact ih.withStartLine n
  | refit _ ih => exact ih.refit
  | addRow _ kind values ih => exact ih.addRow kind values
  | addColumn _ ih => exact ih.addColumn
  | addSeparator _ d line ih => exact ih.addSeparator d line
  | setAlignment _ h ih => exact ih.setAlignment h
  | setCell _ h ih => exact ih.setCell h
  | setRow _ h ih => exact ih.setRow h
  | insertRow _ h ih => exact ih.insertRow h
  | removeRow _ h ih => exact ih.removeRow h
  | swapRows _ h ih => exact ih.swapRows h
  | insertColumn _ h ih => exact ih.insertColumn h
  | removeColumn _ h ih => exact ih.removeColumn h
  | swapColumns _ h ih => exact ih.swapColumns h

theorem any_isSeparator_iff (rows : List Row) :
    rows.any Row.isSeparator = true ↔ Row.separator ∈ rows := by
  rw [List.any_eq_true]
  constructor
  · rintro ⟨r, hr, hsep⟩
    cases r with
    | data cells => simp [Row.isSeparator] at hsep
    | separator => exact hr
  · exact fun h => ⟨.separator, h, rfl⟩

end Table

end PipeTable
