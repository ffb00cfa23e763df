import PipeTable.Proofs.Command.Focus

/-! # Outcomes of commands

When a command that changes the table has something to do, and what it does then: which operation
gives the table that takes the place of the old one, and where the cursor goes. All other commands
write the table as it is or append a row to it.
-/

namespace PipeTable.Focus

variable {f : Focus} {p : Position} {anchor : Option Anchor} {direction : Direction}
  {e : Replacement}

/-- The cursor of a row that has become row `target`: in the cell of its column, or as far right
as before where the cursor was in no cell. -/
def cursorInRow (g : Focus) (p : Position) (anchor : Option Anchor) (target : Nat) : Position :=
  match anchor.bind Anchor.cell with
  | some cell => g.cursorFor ⟨target, cell.col⟩
  | none => ⟨g.region.startLine + target, p.character⟩

theorem moveRow_eq_ok_some_iff :
    f.moveRow p anchor direction = .ok (some e) ↔ ∃ row target u, f.rowAt p = .ok row ∧
      direction.step row f.table.rowCount = some target ∧ f.table.swapRows row target = .ok u ∧
      e = (f.withTable u).replace (some ((f.withTable u).cursorInRow p anchor target)) := by
  rw [moveRow, Table.bind_eq_ok_iff]
  refine exists_congr fun row => ?_
  cases htarget : direction.step row f.table.rowCount with
  | none => simp [pure, Except.pure]
  | some target =>
    unfold cursorInRow
    cases anchor.bind Anchor.cell with
    | none =>
      simp only [Table.bind_eq_ok_iff, Table.pure_eq_ok_iff, Option.some.injEq, exists_and_left,
        exists_eq_left']
      rfl
    | some cell =>
      simp only [Table.bind_eq_ok_iff, Table.pure_eq_ok_iff, Option.some.injEq, exists_and_left,
        exists_eq_left']
      rfl

theorem deleteRow_eq_ok_some_iff :
    f.deleteRow p anchor = .ok (some e) ↔ 1 < f.table.rowCount ∧ ∃ row u, f.rowAt p = .ok row ∧
      f.table.removeRow row = .ok u ∧
      e = (f.withTable u).replaceAt ⟨min row (u.rowCount - 1), anchorColumn anchor⟩ := by
  unfold deleteRow
  by_cases hone : f.table.rowCount ≤ 1
  · simp [hone, Nat.not_lt.2 hone, pure, Except.pure]
  · rw [if_neg hone, and_iff_right (Nat.not_le.1 hone), Table.bind_eq_ok_iff]
    refine exists_congr fun row => ?_
    rw [Table.bind_eq_ok_iff, ← exists_and_left]
    refine exists_congr fun u => and_congr_right fun _ => and_congr_right fun _ => ?_
    rw [Table.pure_eq_ok_iff, Option.some.injEq]
    rfl

theorem insertRowBelow_eq_ok_some_iff :
    f.insertRowBelow p anchor = .ok (some e) ↔ ∃ row u, f.rowAt p = .ok row ∧
      f.table.insertRow (row + 1) .data = .ok u ∧
      e = (f.withTable u).replaceAt ⟨row + 1, anchorColumn anchor⟩ := by
  rw [insertRowBelow, Table.bind_eq_ok_iff]
  refine exists_congr fun row => ?_
  rw [Table.bind_eq_ok_iff, ← exists_and_left]
  refine exists_congr fun u => and_congr_right fun _ => and_congr_right fun _ => ?_
  rw [Table.pure_eq_ok_iff, Option.some.injEq]

theorem clearCell_eq_ok_some_iff :
    f.clearCell anchor = .ok (some e) ↔ ∃ cell u, anchor.bind Anchor.cell = some cell ∧
      f.table.setCell cell.row cell.col [] = .ok u ∧ e = (f.withTable u).replaceAt cell := by
  unfold clearCell
  cases anchor.bind Anchor.cell with
  | none => simp [pure, Except.pure]
  | some cell =>
    simp only [Table.bind_eq_ok_iff, Table.pure_eq_ok_iff, Option.some.injEq, exists_and_left,
      exists_eq_left']

theorem insertColumnRight_eq_ok_some_iff :
    f.insertColumnRight anchor = .ok (some e) ↔ ∃ cell u, anchor.bind Anchor.cell = some cell ∧
      f.table.insertColumn (cell.col + 1) = .ok u ∧
      e = (f.withTable u).replaceAt ⟨cell.row, cell.col + 1⟩ := by
  unfold insertColumnRight
  cases anchor.bind Anchor.cell with
  | none => simp [pure, Except.pure]
  | some cell =>
    simp only [Table.bind_eq_ok_iff, Table.pure_eq_ok_iff, Option.some.injEq, exists_and_left,
      exists_eq_left']

theorem moveColumn_eq_ok_some_iff :
    f.moveColumn anchor direction = .ok (some e) ↔ ∃ cell target u,
      anchor.bind Anchor.cell = some cell ∧
      direction.step cell.col f.table.colCount = some target ∧
      f.table.swapColumns cell.col target = .ok u ∧
      e = (f.withTable u).replaceAt ⟨cell.row, target⟩ := by
  unfold moveColumn
  cases anchor.bind Anchor.cell with
  | none => simp [pure, Except.pure]
  | some cell =>
    cases htarget : direction.step cell.col f.table.colCount with
    | none => simp [htarget, pure, Except.pure]
    | some target =>
      simp only [htarget, Table.bind_eq_ok_iff, Table.pure_eq_ok_iff, Option.some.injEq,
        exists_and_left, exists_eq_left']

theorem deleteColumn_eq_ok_some_iff :
    f.deleteColumn anchor = .ok (some e) ↔ ∃ cell u, anchor.bind Anchor.cell = some cell ∧
      f.table.removeColumn cell.col = .ok (some u) ∧
      e = (f.withTable u).replaceAt ⟨cell.row, min cell.col (u.colCount - 1)⟩ := by
  unfold deleteColumn
  cases anchor.bind Anchor.cell with
  | none => simp [pure, Except.pure]
  | some cell =>
    simp only [Table.bind_eq_ok_iff, Option.some.injEq, exists_and_left, exists_eq_left']
    constructor
    · rintro ⟨removed, hremoved, h⟩
      cases removed with
      | none => simp [pure, Except.pure] at h
      | some u => exact ⟨u, hremoved, Option.some.inj (Table.pure_eq_ok_iff.1 h)⟩
    · rintro ⟨u, hu, rfl⟩
      exact ⟨some u, hu, rfl⟩

theorem exists_moveRow {row target : Nat} {u : Table} (hrow : f.rowAt p = .ok row)
    (hstep : direction.step row f.table.rowCount = some target)
    (hu : f.table.swapRows row target = .ok u) (anchor : Option Anchor) :
    ∃ cursor, f.moveRow p anchor direction = .ok (some ((f.withTable u).replace cursor)) :=
  ⟨_, moveRow_eq_ok_some_iff.2 ⟨row, target, u, hrow, hstep, hu, rfl⟩⟩

theorem exists_deleteRow {row : Nat} {u : Table} (hone : 1 < f.table.rowCount)
    (hrow : f.rowAt p = .ok row) (hu : f.table.removeRow row = .ok u) (anchor : Option Anchor) :
    ∃ cursor, f.deleteRow p anchor = .ok (some ((f.withTable u).replace cursor)) :=
  ⟨_, deleteRow_eq_ok_some_iff.2 ⟨hone, row, u, hrow, hu, rfl⟩⟩

theorem exists_moveColumn {a : CellAddress} {target : Nat} {u : Table}
    (hcell : anchor.bind Anchor.cell = some a)
    (hstep : direction.step a.col f.table.colCount = some target)
    (hu : f.table.swapColumns a.col target = .ok u) :
    ∃ cursor, f.moveColumn anchor direction = .ok (some ((f.withTable u).replace cursor)) :=
  ⟨_, moveColumn_eq_ok_some_iff.2 ⟨a, target, u, hcell, hstep, hu, rfl⟩⟩

theorem exists_deleteColumn {a : CellAddress} {u : Table}
    (hcell : anchor.bind Anchor.cell = some a) (hu : f.table.removeColumn a.col = .ok (some u)) :
    ∃ cursor, f.deleteColumn anchor = .ok (some ((f.withTable u).replace cursor)) :=
  ⟨_, deleteColumn_eq_ok_some_iff.2 ⟨a, u, hcell, hu, rfl⟩⟩

section Kept

variable {options : CommandOptions}

theorem exists_of_format (h : f.format anchor = some e) : ∃ cursor, e = f.replace cursor :=
  ⟨_, (Option.some.inj h).symm⟩

theorem exists_of_nextCell (h : f.nextCell anchor options = some e) :
    (∃ cursor, e = f.replace cursor) ∨ ∃ col, e = f.appendRow col := by
  cases anchor with
  | none => cases h
  | some anchor =>
    cases anchor with
    | beside a => exact .inl ⟨_, (Option.some.inj h).symm⟩
    | separator row => exact .inl ⟨_, (Option.some.inj h).symm⟩
    | inside a =>
      obtain ⟨current, -, rfl⟩ := Option.map_eq_some_iff.1 h
      split
      · exact .inr ⟨_, rfl⟩
      · exact .inl ⟨_, rfl⟩

theorem exists_of_previousCell (h : f.previousCell anchor = some e) :
    ∃ cursor, e = f.replace cursor := by
  cases anchor with
  | none => cases h
  | some anchor =>
    cases anchor with
    | beside a => exact ⟨_, (Option.some.inj h).symm⟩
    | separator row => exact ⟨_, (Option.some.inj h).symm⟩
    | inside a =>
      obtain ⟨current, -, rfl⟩ := Option.map_eq_some_iff.1 h
      exact ⟨_, rfl⟩

theorem exists_of_nextRow (h : f.nextRow p anchor options = some e) :
    (∃ cursor, e = f.replace cursor) ∨ ∃ col, e = f.appendRow col := by
  obtain ⟨⟨current, col⟩, -, rfl⟩ := Option.map_eq_some_iff.1 h
  dsimp only
  split
  · exact .inl ⟨_, rfl⟩
  · split
    · exact .inr ⟨_, rfl⟩
    · exact .inl ⟨_, rfl⟩

end Kept

end PipeTable.Focus
