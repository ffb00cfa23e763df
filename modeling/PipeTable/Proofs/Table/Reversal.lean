import PipeTable.Proofs.Table.BlankEdit
import PipeTable.Proofs.Table.RoundTrip

/-! # Taking changes of a table back

Removing what has just been inserted and exchanging again what has just changed places gives the
table before: a well-formed table is determined by its rows and alignments, so only these have to
come back, and the widths of its columns come back with them.
-/

namespace PipeTable

section Exchange

variable {α β : Type} {xs : List α} {a b : Nat}

theorem getElem?_exchange (ha : a < xs.length) (hb : b < xs.length) (i : Nat) :
    (exchange xs a b)[i]? = if i = b then xs[a]? else if i = a then xs[b]? else xs[i]? := by
  simp only [exchange, List.getElem?_eq_getElem ha, List.getElem?_eq_getElem hb,
    List.getElem?_set, List.length_set]
  grind

theorem exchange_exchange (ha : a < xs.length) (hb : b < xs.length) :
    exchange (exchange xs a b) b a = xs := by
  apply List.ext_getElem?
  intro i
  rw [getElem?_exchange (by rwa [length_exchange]) (by rwa [length_exchange]),
    getElem?_exchange ha hb, getElem?_exchange ha hb, getElem?_exchange ha hb]
  grind

theorem map_exchange (f : α → β) (xs : List α) (a b : Nat) :
    (exchange xs a b).map f = exchange (xs.map f) a b := by
  unfold exchange
  rw [List.getElem?_map, List.getElem?_map]
  cases xs[a]? <;> cases xs[b]? <;> simp [List.map_set]

theorem exchange_of_eq (ha : a < xs.length) (hb : b < xs.length) (h : xs[a]? = xs[b]?) :
    exchange xs a b = xs := by
  apply List.ext_getElem?
  intro i
  rw [getElem?_exchange ha hb]
  grind

end Exchange

namespace Table

variable {t u : Table} {i j a b : Nat}

/-- A well-formed table is determined by its rows, its alignments and its first line. -/
theorem WellFormed.eq_refit (h : t.WellFormed) (hrows : u.rows = t.rows)
    (halign : u.alignments = t.alignments) (hstart : u.startLine = t.startLine) : t = u.refit := by
  rw [refit_congr hrows halign hstart]
  exact ((refit_eq_self_iff t).2 h.fitted).symm

theorem Shaped.all_reaches (h : t.Shaped) {n : Nat} (hn : n ≤ t.colCount) :
    t.rows.all (Row.reaches n) = true := by
  rw [List.all_eq_true]
  intro r hr
  cases r with
  | separator => rfl
  | data cells => exact decide_eq_true (h.rectangular cells hr ▸ hn)

theorem Shaped.exists_insertColumn (h : t.Shaped) (hj : j ≤ t.colCount) :
    ∃ u, t.insertColumn j = .ok u :=
  ⟨_, insertColumn_eq_ok_iff.2 ⟨hj, h.all_reaches hj, rfl⟩⟩

theorem Shaped.exists_swapColumns (h : t.Shaped) (ha : a < t.colCount) (hb : b < t.colCount) :
    ∃ u, t.swapColumns a b = .ok u :=
  ⟨_, swapColumns_eq_ok_iff.2 ⟨ha, hb, h.all_reaches (Nat.max_lt.2 ⟨ha, hb⟩), rfl⟩⟩

theorem Shaped.exists_removeColumn (h : t.Shaped) (hj : j < t.colCount) (hone : t.colCount ≠ 1) :
    ∃ u, t.removeColumn j = .ok (some u) :=
  ⟨_, removeColumn_eq_ok_some_iff.2 ⟨hj, hone, h.all_reaches hj, rfl⟩⟩

theorem removeColumn_of_one (hj : j < t.colCount) (hone : t.colCount = 1) :
    t.removeColumn j = .ok none := by
  rw [removeColumn, checkColumn_bind_eq_ok, if_pos hone]
  exact ⟨hj, rfl⟩

theorem map_mapCells_congr {rows : List Row} {f g : List Text → List Text}
    (h : ∀ cells, Row.data cells ∈ rows → f cells = g cells) :
    rows.map (Row.mapCells f) = rows.map (Row.mapCells g) := by
  apply List.map_congr_left
  intro r hr
  cases r with
  | separator => rfl
  | data cells => exact congrArg Row.data (h cells hr)

theorem map_mapCells_id (rows : List Row) : rows.map (Row.mapCells id) = rows := by
  conv_rhs => rw [← List.map_id rows]
  apply List.map_congr_left
  rintro (_ | _) - <;> rfl

theorem map_mapCells_eq_self {rows : List Row} {f g : List Text → List Text}
    (h : ∀ cells, Row.data cells ∈ rows → g (f cells) = cells) :
    (rows.map (Row.mapCells f)).map (Row.mapCells g) = rows := by
  have hcomp : (rows.map (Row.mapCells f)).map (Row.mapCells g) =
      rows.map (Row.mapCells fun cells => g (f cells)) := by
    rw [List.map_map]
    exact List.map_congr_left fun r _ => mapCells_mapCells f g r
  rw [hcomp, map_mapCells_congr h]
  exact map_mapCells_id rows

theorem removeRow_of_insertRow (ht : t.WellFormed) (hne : t.columns ≠ []) {kind : RowKind}
    (h : t.insertRow i kind = .ok u) : u.removeRow i = .ok t := by
  obtain ⟨hi, rfl⟩ := (insertRow_eq_ok_iff_of_columned hne).1 h
  refine removeRow_eq_ok_iff.2 ⟨?_, ?_⟩
  · have hlen : (t.rows.insertIdx i (blankRow t.colCount kind)).length = t.rowCount + 1 :=
      List.length_insertIdx_of_le_length hi _
    exact Nat.lt_of_le_of_lt hi (Nat.lt_of_lt_of_eq (Nat.lt_succ_self _) hlen.symm)
  · exact ht.eq_refit (List.eraseIdx_insertIdx_self _) (alignments_refit _) rfl

theorem swapRows_swapRows (ht : t.WellFormed) (h : t.swapRows a b = .ok u) :
    u.swapRows b a = .ok t := by
  obtain ⟨ha, hb, rfl⟩ := swapRows_eq_ok_iff.1 h
  refine swapRows_eq_ok_iff.2 ⟨?_, ?_, ?_⟩
  · exact Nat.lt_of_lt_of_eq hb (length_exchange _ _ _).symm
  · exact Nat.lt_of_lt_of_eq ha (length_exchange _ _ _).symm
  · exact ht.eq_refit (exchange_exchange ha hb) (alignments_refit _) rfl

theorem alignments_insertColumn (h : t.insertColumn j = .ok u) :
    u.alignments = t.alignments.insertIdx j .left := by
  obtain ⟨-, -, rfl⟩ := insertColumn_eq_ok_iff.1 h
  rw [alignments_refit]
  exact List.map_insertIdx _ _ _ _

theorem alignments_swapColumns (h : t.swapColumns a b = .ok u) :
    u.alignments = exchange t.alignments a b := by
  obtain ⟨-, -, -, rfl⟩ := swapColumns_eq_ok_iff.1 h
  rw [alignments_refit]
  exact map_exchange _ _ _ _

theorem colCount_swapColumns (h : t.swapColumns a b = .ok u) : u.colCount = t.colCount := by
  rw [← length_alignments, alignments_swapColumns h, length_exchange, length_alignments]

theorem mem_cellAddresses_swapColumns {row : Nat} (ha : ⟨row, a⟩ ∈ t.cellAddresses)
    (h : t.swapColumns a b = .ok u) : ⟨row, b⟩ ∈ u.cellAddresses := by
  obtain ⟨⟨cells, hr⟩, -⟩ := mem_cellAddresses.1 ha
  rw [mem_cellAddresses, colCount_swapColumns h]
  obtain ⟨-, hb, -, rfl⟩ := swapColumns_eq_ok_iff.1 h
  refine ⟨⟨exchange cells a b, ?_⟩, hb⟩
  rw [rows_refit, List.getElem?_map, hr]
  rfl

theorem removeColumn_of_insertColumn (ht : t.WellFormed) (hne : t.columns ≠ [])
    (h : t.insertColumn j = .ok u) : u.removeColumn j = .ok (some t) := by
  have hpos : 0 < t.colCount := List.length_pos_iff.2 hne
  have hwf := ht.insertColumn h
  have halign := alignments_insertColumn h
  obtain ⟨hj, -, hu⟩ := insertColumn_eq_ok_iff.1 h
  have hcount : u.colCount = t.colCount + 1 := by
    rw [← length_alignments, halign, List.length_insertIdx_of_le_length, length_alignments]
    rwa [length_alignments]
  refine removeColumn_eq_ok_some_iff.2
    ⟨by omega, by omega, hwf.all_reaches (by omega), ht.eq_refit ?_ ?_ ?_⟩
  · rw [hu]
    exact map_mapCells_eq_self fun cells _ => List.eraseIdx_insertIdx_self _
  · rw [alignments, ← List.eraseIdx_map]
    change u.alignments.eraseIdx j = t.alignments
    rw [halign, List.eraseIdx_insertIdx_self]
  · rw [hu]
    rfl

theorem swapColumns_swapColumns (ht : t.WellFormed) (h : t.swapColumns a b = .ok u) :
    u.swapColumns b a = .ok t := by
  have hwf := ht.swapColumns h
  have halign := alignments_swapColumns h
  obtain ⟨ha, hb, -, hu⟩ := swapColumns_eq_ok_iff.1 h
  have hcount := colCount_swapColumns h
  refine swapColumns_eq_ok_iff.2
    ⟨by omega, by omega, hwf.all_reaches (by omega), ht.eq_refit ?_ ?_ ?_⟩
  · rw [hu]
    refine map_mapCells_eq_self fun cells hcells => ?_
    have hlen := ht.rectangular cells hcells
    exact exchange_exchange (hlen ▸ ha) (hlen ▸ hb)
  · rw [alignments, map_exchange]
    change exchange u.alignments b a = t.alignments
    rw [halign, exchange_exchange]
    · rwa [length_alignments]
    · rwa [length_alignments]
  · rw [hu]
    rfl

theorem kinds_swapRows (ha : t.IsDataRow a) (hb : t.IsDataRow b) (h : t.swapRows a b = .ok u) :
    u.kinds = t.kinds := by
  obtain ⟨hlt, hlt', rfl⟩ := swapRows_eq_ok_iff.1 h
  obtain ⟨cells, hcells⟩ := ha
  obtain ⟨others, hothers⟩ := hb
  rw [kinds_refit, kinds, map_exchange, exchange_of_eq]
  · rfl
  · rwa [List.length_map]
  · rwa [List.length_map]
  · rw [List.getElem?_map, List.getElem?_map, hcells, hothers]
    rfl

end Table

end PipeTable
