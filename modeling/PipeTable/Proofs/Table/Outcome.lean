import PipeTable.Table.Operations

/-! # Outcomes of operations

When an operation with an index succeeds and which table it leaves. The checks of an operation
come first, so each statement is the conjunction of what they ask and the resulting table.
-/

namespace PipeTable.Table

variable {t u : Table} {α : Type}

theorem checkRow_bind_eq_ok {i : Nat} {f : Unit → Except Fault α} {x : α} :
    (t.checkRow i >>= f) = .ok x ↔ i < t.rowCount ∧ f () = .ok x := by
  unfold checkRow
  by_cases h : i < t.rowCount <;> simp [h, bind, Except.bind]

theorem checkColumn_bind_eq_ok {j : Nat} {f : Unit → Except Fault α} {x : α} :
    (t.checkColumn j >>= f) = .ok x ↔ j < t.colCount ∧ f () = .ok x := by
  unfold checkColumn
  by_cases h : j < t.colCount <;> simp [h, bind, Except.bind]

theorem checkReach_bind_eq_ok {n : Nat} {f : Unit → Except Fault α} {x : α} :
    (t.checkReach n >>= f) = .ok x ↔ t.rows.all (Row.reaches n) ∧ f () = .ok x := by
  unfold checkReach
  by_cases h : t.rows.all (Row.reaches n) = true <;> simp [h, bind, Except.bind]

theorem row_bind_eq_ok {i : Nat} {f : Row → Except Fault α} {x : α} :
    (t.row i >>= f) = .ok x ↔ ∃ r, t.rows[i]? = some r ∧ f r = .ok x := by
  unfold row
  cases t.rows[i]? <;> simp [bind, Except.bind]

theorem bind_eq_ok_iff {ε β : Type} {x : Except ε β} {f : β → Except ε α} {y : α} :
    (x >>= f) = .ok y ↔ ∃ a, x = .ok a ∧ f a = .ok y := by
  cases x <;> simp [bind, Except.bind]

theorem pure_eq_ok_iff {ε : Type} {x y : α} : (pure x : Except ε α) = .ok y ↔ y = x :=
  ⟨fun h => (Except.ok.inj h).symm, fun h => congrArg Except.ok h.symm⟩

theorem setAlignment_eq_ok_iff {col : Nat} {a : Alignment} :
    t.setAlignment col a = .ok u ↔ col < t.colCount ∧
      u = { t with columns := t.columns.modify col fun c => { c with alignment := a } } := by
  rw [setAlignment, checkColumn_bind_eq_ok, pure_eq_ok_iff]

theorem cell_eq_ok_iff {i j : Nat} {value : Text} :
    t.cell i j = .ok value ↔ j < t.colCount ∧
      ((t.rows[i]? = some .separator ∧ value = []) ∨
        ∃ cells, t.rows[i]? = some (.data cells) ∧ cells[j]? = some value) := by
  rw [cell, row_bind_eq_ok]
  constructor
  · rintro ⟨r, hr, h⟩
    rw [checkColumn_bind_eq_ok] at h
    refine ⟨h.1, ?_⟩
    cases r with
    | separator => exact .inl ⟨hr, pure_eq_ok_iff.1 h.2⟩
    | data cells =>
      cases hv : cells[j]? with
      | none => simp [hv, throw, throwThe, MonadExceptOf.throw] at h
      | some v =>
        simp only [hv] at h
        exact .inr ⟨cells, hr, hv.trans (congrArg some (pure_eq_ok_iff.1 h.2).symm)⟩
  · rintro ⟨hj, ⟨hr, rfl⟩ | ⟨cells, hr, hv⟩⟩
    · exact ⟨_, hr, checkColumn_bind_eq_ok.2 ⟨hj, rfl⟩⟩
    · refine ⟨_, hr, checkColumn_bind_eq_ok.2 ⟨hj, ?_⟩⟩
      simp only [hv]
      rfl

theorem setCell_eq_ok_iff {i col : Nat} {value : Text} :
    t.setCell i col value = .ok u ↔ ∃ cells old, t.rows[i]? = some (.data cells) ∧
      col < t.colCount ∧ cells[col]? = some old ∧
      let v := { t with rows := t.rows.set i (.data (cells.set col value)) }
      let width := v.widthAfter col (Text.displayWidth old) (Text.displayWidth value)
      u = { v with
        columns := v.columns.modify col fun c => { c with width := width c.width } } := by
  rw [setCell, row_bind_eq_ok]
  constructor
  · rintro ⟨r, hr, h⟩
    rw [checkColumn_bind_eq_ok] at h
    obtain ⟨hcol, h⟩ := h
    cases r with
    | separator => simp [throw, throwThe, MonadExceptOf.throw] at h
    | data cells =>
      cases hold : cells[col]? with
      | none => simp [hold, throw, throwThe, MonadExceptOf.throw] at h
      | some old =>
        simp only [hold] at h
        exact ⟨cells, old, hr, hcol, hold, pure_eq_ok_iff.1 h⟩
  · rintro ⟨cells, old, hr, hcol, hold, h⟩
    refine ⟨_, hr, checkColumn_bind_eq_ok.2 ⟨hcol, ?_⟩⟩
    simp only [hold]
    exact pure_eq_ok_iff.2 h

theorem setRow_eq_ok_iff {i : Nat} {values : List Text} :
    t.setRow i values = .ok u ↔
      (t.rows[i]? = some .separator ∧ u = t) ∨ ∃ cells, t.rows[i]? = some (.data cells) ∧
        u = { t with rows := t.rows.set i (.data (fitCells t.colCount values)) }.refit := by
  rw [setRow, row_bind_eq_ok]
  constructor
  · rintro ⟨r, hr, h⟩
    cases r with
    | separator => exact .inl ⟨hr, pure_eq_ok_iff.1 h⟩
    | data cells => exact .inr ⟨cells, hr, pure_eq_ok_iff.1 h⟩
  · rintro (⟨hr, rfl⟩ | ⟨cells, hr, rfl⟩) <;> exact ⟨_, hr, rfl⟩

theorem insertRow_eq_ok_iff {i : Nat} {kind : RowKind} :
    t.insertRow i kind = .ok u ↔ i ≤ t.rowCount ∧
      let v := if t.columns.isEmpty then t.addColumn else t
      u = { v with rows := v.rows.insertIdx i (blankRow v.colCount kind) }.refit := by
  unfold insertRow
  by_cases h : t.rowCount < i
  · simp [h, Nat.not_le.2 h, bind, Except.bind, throw, throwThe, MonadExceptOf.throw]
  · simp only [h, if_false, Nat.not_lt.1 h, true_and]
    exact pure_eq_ok_iff

theorem removeRow_eq_ok_iff {i : Nat} :
    t.removeRow i = .ok u ↔
      i < t.rowCount ∧ u = { t with rows := t.rows.eraseIdx i }.refit := by
  rw [removeRow, checkRow_bind_eq_ok, pure_eq_ok_iff]

theorem swapRows_eq_ok_iff {a b : Nat} :
    t.swapRows a b = .ok u ↔ a < t.rowCount ∧ b < t.rowCount ∧
      u = { t with rows := exchange t.rows a b }.refit := by
  rw [swapRows, checkRow_bind_eq_ok, checkRow_bind_eq_ok, pure_eq_ok_iff]

theorem insertColumn_eq_ok_iff {j : Nat} :
    t.insertColumn j = .ok u ↔ j ≤ t.colCount ∧ t.rows.all (Row.reaches j) ∧
      u = { t with
        columns := t.columns.insertIdx j {}
        rows := t.rows.map (Row.mapCells (·.insertIdx j [])) }.refit := by
  unfold insertColumn
  by_cases h : t.colCount < j
  · simp [h, Nat.not_le.2 h, bind, Except.bind, throw, throwThe, MonadExceptOf.throw]
  · simp only [h, if_false, Nat.not_lt.1 h, true_and]
    exact checkReach_bind_eq_ok.trans (and_congr_right fun _ => pure_eq_ok_iff)

theorem removeColumn_eq_ok_some_iff {j : Nat} :
    t.removeColumn j = .ok (some u) ↔
      j < t.colCount ∧ t.colCount ≠ 1 ∧ t.rows.all (Row.reaches (j + 1)) ∧
      u = { t with
        columns := t.columns.eraseIdx j
        rows := t.rows.map (Row.mapCells (·.eraseIdx j)) }.refit := by
  rw [removeColumn, checkColumn_bind_eq_ok]
  by_cases h : t.colCount = 1
  · simp [h, pure, Except.pure]
  · simp only [h, if_false, ne_eq, not_false_eq_true, true_and]
    refine and_congr_right fun _ => ?_
    rw [checkReach_bind_eq_ok, pure_eq_ok_iff, Option.some.injEq]

theorem swapColumns_eq_ok_iff {a b : Nat} :
    t.swapColumns a b = .ok u ↔
      a < t.colCount ∧ b < t.colCount ∧ t.rows.all (Row.reaches (max a b + 1)) ∧
      u = { t with
        columns := exchange t.columns a b
        rows := t.rows.map (Row.mapCells (exchange · a b)) }.refit := by
  rw [swapColumns, checkColumn_bind_eq_ok, checkColumn_bind_eq_ok, checkReach_bind_eq_ok,
    pure_eq_ok_iff]

theorem rowCount_setCell {i col : Nat} {value : Text} (h : t.setCell i col value = .ok u) :
    u.rowCount = t.rowCount := by
  obtain ⟨cells, old, -, -, -, rfl⟩ := setCell_eq_ok_iff.1 h
  exact List.length_set

theorem rowCount_insertRow {i : Nat} {kind : RowKind} (h : t.insertRow i kind = .ok u) :
    u.rowCount = t.rowCount + 1 := by
  obtain ⟨hi, rfl⟩ := insertRow_eq_ok_iff.1 h
  have hrows : (if t.columns.isEmpty then t.addColumn else t).rows.length = t.rowCount := by
    split
    · exact List.length_map _
    · rfl
  exact (List.length_insertIdx_of_le_length (hrows.symm ▸ hi) _).trans (congrArg (· + 1) hrows)

theorem rowCount_removeRow {i : Nat} (h : t.removeRow i = .ok u) :
    u.rowCount + 1 = t.rowCount := by
  obtain ⟨hi, rfl⟩ := removeRow_eq_ok_iff.1 h
  have hlen : (t.rows.eraseIdx i).length = t.rowCount - 1 := List.length_eraseIdx_of_lt hi
  have hcount : (t.rows.eraseIdx i).length + 1 = t.rowCount := by omega
  exact hcount

theorem rowCount_swapRows {a b : Nat} (h : t.swapRows a b = .ok u) : u.rowCount = t.rowCount := by
  obtain ⟨-, -, rfl⟩ := swapRows_eq_ok_iff.1 h
  exact length_exchange _ _ _

theorem rowCount_swapColumns {a b : Nat} (h : t.swapColumns a b = .ok u) :
    u.rowCount = t.rowCount := by
  obtain ⟨-, -, -, rfl⟩ := swapColumns_eq_ok_iff.1 h
  exact List.length_map _

theorem rowCount_removeColumn {j : Nat} (h : t.removeColumn j = .ok (some u)) :
    u.rowCount = t.rowCount := by
  obtain ⟨-, -, -, rfl⟩ := removeColumn_eq_ok_some_iff.1 h
  exact List.length_map _

theorem rowCount_insertColumn {j : Nat} (h : t.insertColumn j = .ok u) :
    u.rowCount = t.rowCount := by
  obtain ⟨-, -, rfl⟩ := insertColumn_eq_ok_iff.1 h
  exact List.length_map _

end PipeTable.Table
