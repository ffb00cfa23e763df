import PipeTable.Proofs.Table.Atomic
import PipeTable.Proofs.Table.Reversal

/-! # Rows and columns are edited as in a grid

A change of rows acts on the list of rows alone, and a change of columns does the same to the list
of columns and to the cells of each data row. So the two kinds of change do not get into each
other's way, although an inserted or removed separator row changes the widths of all columns and
the only column of a table is never removed: widths are fitted to the rows that are left in the
end. What is inserted and removed again, or exchanged twice, leaves no trace.
-/

namespace PipeTable

theorem exchange_comm {α : Type} (xs : List α) (a b : Nat) :
    exchange xs a b = exchange xs b a := by
  unfold exchange
  cases ha : xs[a]? with
  | none => cases xs[b]? <;> rfl
  | some x =>
    cases hb : xs[b]? with
    | none => rfl
    | some y =>
      by_cases hab : a = b
      · subst hab
        rw [Option.some.inj (ha.symm.trans hb)]
      · exact List.set_comm y x hab

theorem Operation.answer_done {x : Except Fault Table} {u : Table} (h : x = .ok u) :
    (do return (.done, ← x) : Except Fault (Answer × Table)) = .ok (.done, u) := by
  rw [h]
  rfl

/-- Insert an empty row, remove a row, or exchange two rows. -/
inductive RowChange where
  | insert (index : Nat) (kind : RowKind)
  | remove (index : Nat)
  | swap (a b : Nat)
deriving DecidableEq

namespace RowChange

def operation : RowChange → Operation
  | insert index kind => .insertRow index kind
  | remove index => .removeRow index
  | swap a b => .swapRows a b

/-- The change is possible where there are `count` rows. -/
def InRange (count : Nat) : RowChange → Prop
  | insert index _ => index ≤ count
  | remove index => index < count
  | swap a b => a < count ∧ b < count

/-- The rows of a table with `cols` columns after the change. -/
def rows (cols : Nat) (old : List Row) : RowChange → List Row
  | insert index kind => old.insertIdx index (Table.blankRow cols kind)
  | remove index => old.eraseIdx index
  | swap a b => exchange old a b

/-- The table after the change. -/
def on (r : RowChange) (t : Table) : Table :=
  { t with rows := r.rows t.colCount t.rows }.refit

variable {r : RowChange} {t : Table}

@[simp] theorem colCount_on (r : RowChange) (t : Table) : (r.on t).colCount = t.colCount :=
  Table.colCount_refit _

@[simp] theorem alignments_on (r : RowChange) (t : Table) : (r.on t).alignments = t.alignments :=
  Table.alignments_refit _

theorem onTable_operation (hne : t.columns ≠ []) (h : r.InRange t.rowCount) :
    r.operation.onTable t = .ok (.done, r.on t) := by
  cases r with
  | insert index kind =>
    exact Operation.answer_done ((Table.insertRow_eq_ok_iff_of_columned hne).2 ⟨h, rfl⟩)
  | remove index => exact Operation.answer_done (Table.removeRow_eq_ok_iff.2 ⟨h, rfl⟩)
  | swap a b => exact Operation.answer_done (Table.swapRows_eq_ok_iff.2 ⟨h.1, h.2, rfl⟩)

theorem map_rows (f : List Text → List Text) {cols cols' : Nat}
    (hf : f (List.replicate cols []) = List.replicate cols' []) (old : List Row) :
    (r.rows cols old).map (Row.mapCells f) = r.rows cols' (old.map (Row.mapCells f)) := by
  cases r with
  | insert index kind =>
    have hblank : (Table.blankRow cols kind).mapCells f = Table.blankRow cols' kind := by
      cases kind with
      | data => exact congrArg Row.data hf
      | separator => rfl
    rw [rows, List.map_insertIdx, hblank]
    rfl
  | remove index => exact (List.eraseIdx_map _ _ _).symm
  | swap a b => exact map_exchange _ _ _ _

end RowChange

/-- Insert an empty column, remove a column, or exchange two columns. -/
inductive ColumnChange where
  | insert (index : Nat)
  | remove (index : Nat)
  | swap (a b : Nat)
deriving DecidableEq

namespace ColumnChange

def operation : ColumnChange → Operation
  | insert index => .insertColumn index
  | remove index => .removeColumn index
  | swap a b => .swapColumns a b

/-- The change is possible where there are `count` columns. -/
def InRange (count : Nat) : ColumnChange → Prop
  | insert index => index ≤ count
  | remove index => index < count
  | swap a b => a < count ∧ b < count

/-- The entries of a list after the change, one for each column. The only entry stays. -/
def entries {α : Type} (blank : α) (old : List α) : ColumnChange → List α
  | insert index => old.insertIdx index blank
  | remove index => if old.length = 1 then old else old.eraseIdx index
  | swap a b => exchange old a b

/-- So many of `count` columns are there after the change. -/
def columnsLeft (count : Nat) : ColumnChange → Nat
  | insert _ => count + 1
  | remove _ => max (count - 1) 1
  | swap _ _ => count

/-- What the change answers on a table with `count` columns. -/
def answer (count : Nat) : ColumnChange → Answer
  | insert _ | swap _ _ => .done
  | remove _ => .removed (count ≠ 1)

/-- The table after the change. -/
def on (c : ColumnChange) (t : Table) : Table :=
  { t with
    columns := c.entries {} t.columns
    rows := t.rows.map (Row.mapCells (c.entries [] ·)) }.refit

variable {c : ColumnChange} {t : Table}

section Entries

variable {α β : Type} {blank x : α} {old : List α}

theorem map_entries (c : ColumnChange) (f : α → β) (blank : α) (old : List α) :
    (c.entries blank old).map f = c.entries (f blank) (old.map f) := by
  cases c with
  | insert index => exact List.map_insertIdx _ _ _ _
  | remove index =>
    simp only [entries, List.length_map]
    split
    · rfl
    · exact (List.eraseIdx_map _ _ _).symm
  | swap a b => exact map_exchange _ _ _ _

theorem length_entries (h : c.InRange old.length) :
    (c.entries blank old).length = c.columnsLeft old.length := by
  cases c with
  | insert index => exact List.length_insertIdx_of_le_length h _
  | remove index =>
    have hlt : index < old.length := h
    simp only [entries, columnsLeft]
    split
    · omega
    · rw [List.length_eraseIdx_of_lt hlt]
      omega
  | swap a b => exact length_exchange _ _ _

theorem mem_entries (h : x ∈ c.entries blank old) : x = blank ∨ x ∈ old := by
  cases c with
  | insert index => exact List.eq_or_mem_of_mem_insertIdx h
  | remove index =>
    simp only [entries] at h
    split at h
    · exact .inr h
    · exact .inr (List.mem_of_mem_eraseIdx h)
  | swap a b => exact .inr (mem_of_mem_exchange h)

theorem entries_replicate {count : Nat} (h : c.InRange count) :
    c.entries ([] : Text) (List.replicate count []) = List.replicate (c.columnsLeft count) [] := by
  rw [List.eq_replicate_iff]
  constructor
  · rw [length_entries (by rwa [List.length_replicate]), List.length_replicate]
  · intro v hv
    rcases mem_entries hv with rfl | hv
    · rfl
    · exact List.eq_of_mem_replicate hv

end Entries

theorem columnsLeft_pos (c : ColumnChange) {count : Nat} (h : 0 < count) :
    0 < c.columnsLeft count := by
  cases c with
  | insert index => exact Nat.succ_pos _
  | remove index => exact Nat.le_max_right _ _
  | swap a b => exact h

@[simp] theorem rowCount_on (c : ColumnChange) (t : Table) : (c.on t).rowCount = t.rowCount :=
  List.length_map _

theorem colCount_on (h : c.InRange t.colCount) :
    (c.on t).colCount = c.columnsLeft t.colCount :=
  (Table.colCount_refit _).trans (length_entries h)

@[simp] theorem alignments_on (c : ColumnChange) (t : Table) :
    (c.on t).alignments = c.entries .left t.alignments :=
  (Table.alignments_refit _).trans (map_entries c _ _ _)

theorem on_remove_of_one (ht : t.WellFormed) (hone : t.colCount = 1) (index : Nat) :
    (remove index).on t = t := by
  have hcolumns : (remove index).entries {} t.columns = t.columns := if_pos hone
  have hrows : t.rows.map (Row.mapCells ((remove index).entries [] ·)) = t.rows := by
    refine (Table.map_mapCells_congr fun cells hcells => ?_).trans (Table.map_mapCells_id t.rows)
    exact if_pos ((ht.rectangular cells hcells).trans hone)
  rw [on, hcolumns, hrows]
  exact (Table.refit_eq_self_iff t).2 ht.fitted

theorem on_remove_of_ne_one (ht : t.Shaped) (hone : t.colCount ≠ 1) (index : Nat) :
    (remove index).on t = { t with
      columns := t.columns.eraseIdx index
      rows := t.rows.map (Row.mapCells (·.eraseIdx index)) }.refit := by
  have hcolumns : (remove index).entries {} t.columns = t.columns.eraseIdx index := if_neg hone
  have hrows : t.rows.map (Row.mapCells ((remove index).entries [] ·)) =
      t.rows.map (Row.mapCells (·.eraseIdx index)) := by
    refine Table.map_mapCells_congr fun cells hcells => if_neg ?_
    rwa [ht.rectangular cells hcells]
  rw [on, hcolumns, hrows]

theorem onTable_remove (ht : t.WellFormed) {index : Nat} (h : index < t.colCount) :
    (Operation.removeColumn index).onTable t =
      .ok (.removed (t.colCount ≠ 1), (remove index).on t) := by
  by_cases hone : t.colCount = 1
  · rw [on_remove_of_one ht hone, Operation.onTable, Table.removeColumn_of_one h hone]
    simp only [hone, ne_eq, not_true_eq_false, decide_false]
    rfl
  · have hok : t.removeColumn index = .ok (some ((remove index).on t)) := by
      rw [on_remove_of_ne_one ht.toShaped hone]
      exact Table.removeColumn_eq_ok_some_iff.2 ⟨h, hone, ht.all_reaches h, rfl⟩
    rw [Operation.onTable, hok]
    simp only [hone, ne_eq, not_false_eq_true, decide_true]
    rfl

theorem onTable_operation (ht : t.WellFormed) (h : c.InRange t.colCount) :
    c.operation.onTable t = .ok (c.answer t.colCount, c.on t) := by
  cases c with
  | insert index =>
    exact Operation.answer_done (Table.insertColumn_eq_ok_iff.2 ⟨h, ht.all_reaches h, rfl⟩)
  | remove index => exact onTable_remove ht h
  | swap a b =>
    have hreach := ht.all_reaches (Nat.max_lt.2 h)
    exact Operation.answer_done (Table.swapColumns_eq_ok_iff.2 ⟨h.1, h.2, hreach, rfl⟩)

end ColumnChange

namespace Table

variable {t u : Table}

/-- Widths are fitted to what both changes leave, so their order does not matter. -/
theorem on_on_comm (r : RowChange) {c : ColumnChange} (h : c.InRange t.colCount) :
    c.on (r.on t) = r.on (c.on t) := by
  have hrows : (r.rows t.colCount t.rows).map (Row.mapCells (c.entries [] ·)) =
      r.rows (c.on t).colCount (t.rows.map (Row.mapCells (c.entries [] ·))) := by
    rw [c.colCount_on h, r.map_rows _ (c.entries_replicate h)]
  have halign : (c.entries {} (r.on t).columns).map Column.alignment = (c.on t).alignments := by
    rw [c.map_entries, c.alignments_on, ← r.alignments_on t]
    rfl
  exact refit_congr hrows halign rfl

theorem swapRows_again (ht : t.WellFormed) {a b : Nat} (h : t.swapRows a b = .ok u) :
    u.swapRows a b = .ok t := by
  obtain ⟨hb, ha, hu⟩ := swapRows_eq_ok_iff.1 (swapRows_swapRows ht h)
  exact swapRows_eq_ok_iff.2 ⟨ha, hb, by rw [exchange_comm, hu]⟩

theorem swapColumns_again (ht : t.WellFormed) {a b : Nat} (h : t.swapColumns a b = .ok u) :
    u.swapColumns a b = .ok t := by
  obtain ⟨hb, ha, hreach, hu⟩ := swapColumns_eq_ok_iff.1 (swapColumns_swapColumns ht h)
  have hcells : (exchange · b a : List Text → List Text) = (exchange · a b) :=
    funext fun cells => exchange_comm cells b a
  rw [hcells, exchange_comm] at hu
  exact swapColumns_eq_ok_iff.2 ⟨ha, hb, Nat.max_comm a b ▸ hreach, hu⟩

/-- The two changes lead to one table in either order, and the change of columns has the same
answer before and after the change of rows. -/
def Commute (t : Table) (r : RowChange) (c : ColumnChange) : Prop :=
  ∃ u v w answer, r.operation.onTable t = .ok (.done, u) ∧
    c.operation.onTable u = .ok (answer, w) ∧
    c.operation.onTable t = .ok (answer, v) ∧ r.operation.onTable v = .ok (.done, w)

theorem commute_of_inRange (ht : t.Reachable) (hne : t.columns ≠ []) {r : RowChange}
    {c : ColumnChange} (hr : r.InRange t.rowCount) (hc : c.InRange t.colCount) :
    t.Commute r c := by
  have hrow := RowChange.onTable_operation hne hr
  have hcolumn := ColumnChange.onTable_operation ht.wellFormed hc
  have hu := (Operation.reachable_of_onTable ht hrow).wellFormed
  have hafter := ColumnChange.onTable_operation hu (by rwa [r.colCount_on])
  have hv : (c.on t).columns ≠ [] := by
    rw [← List.length_pos_iff]
    change 0 < (c.on t).colCount
    rw [c.colCount_on hc]
    exact c.columnsLeft_pos (List.length_pos_iff.2 hne)
  have hbefore := RowChange.onTable_operation hv (by rwa [c.rowCount_on])
  rw [r.colCount_on, on_on_comm r hc] at hafter
  exact ⟨_, _, _, _, hrow, hafter, hcolumn, hbefore⟩

/-- Exchanging twice, and removing what has been inserted, give the table back with its widths and
alignments, and all changes of rows commute with all changes of columns. -/
structure GridLaws (t : Table) : Prop where
  swapRows : ∀ a b, a < t.rowCount → b < t.rowCount →
    ∃ u, t.swapRows a b = .ok u ∧ u.swapRows a b = .ok t
  swapColumns : ∀ a b, a < t.colCount → b < t.colCount →
    ∃ u, t.swapColumns a b = .ok u ∧ u.swapColumns a b = .ok t
  insertRow : ∀ i kind, i ≤ t.rowCount →
    ∃ u, t.insertRow i kind = .ok u ∧ u.removeRow i = .ok t
  insertColumn : ∀ j, j ≤ t.colCount →
    ∃ u, t.insertColumn j = .ok u ∧ u.removeColumn j = .ok (some t)
  commute : ∀ (r : RowChange) (c : ColumnChange), r.InRange t.rowCount → c.InRange t.colCount →
    t.Commute r c

theorem gridLaws_of_reachable (ht : t.Reachable) (hpos : 0 < t.colCount) : t.GridLaws := by
  have hwf := ht.wellFormed
  have hne : t.columns ≠ [] := List.length_pos_iff.1 hpos
  refine ⟨fun a b ha hb => ?_, fun a b ha hb => ?_, fun i kind hi => ?_, fun j hj => ?_,
    fun r c hr hc => commute_of_inRange ht hne hr hc⟩
  · have hu := swapRows_eq_ok_iff.2 ⟨ha, hb, rfl⟩
    exact ⟨_, hu, swapRows_again hwf hu⟩
  · obtain ⟨u, hu⟩ := hwf.exists_swapColumns ha hb
    exact ⟨u, hu, swapColumns_again hwf hu⟩
  · obtain ⟨u, hu⟩ : ∃ u, t.insertRow i kind = .ok u :=
      ⟨_, (insertRow_eq_ok_iff_of_columned hne).2 ⟨hi, rfl⟩⟩
    exact ⟨u, hu, removeRow_of_insertRow hwf hne hu⟩
  · obtain ⟨u, hu⟩ := hwf.exists_insertColumn hj
    exact ⟨u, hu, removeColumn_of_insertColumn hwf hne hu⟩

/-- The separator row goes, and with it the least width of the columns; the wide column goes too. -/
theorem gridLaws_of_reachable_wide :
    ∃ t u v w, parse .markdown "|日本語|b|\n|-|:-:|".toList = some t ∧ t.GridLaws ∧
      t.columns = [⟨.left, 6⟩, ⟨.center, 3⟩] ∧ t.removeRow 1 = .ok u ∧
      u.removeColumn 0 = .ok (some w) ∧ t.removeColumn 0 = .ok (some v) ∧
      v.removeRow 1 = .ok w ∧ w.columns = [⟨.center, 1⟩] := by
  have ht : Reachable _ :=
    .parse (show parse .markdown "|日本語|b|\n|-|:-:|".toList = some _ from rfl)
  exact ⟨_, _, _, _, rfl, gridLaws_of_reachable ht (by decide), rfl, rfl, rfl, rfl, rfl, rfl⟩

end Table

end PipeTable
