import PipeTable.Proofs.Table.Simulation

/-! # Operations fail before they change anything

What each operation asks of its arguments: the rows first, then the columns, then that it does
not write to a separator row. It fails exactly if one of these checks does, with the wording of
the first that does, and the lists of the table are then as they were before. On lists that hold
a reachable table nothing else can go wrong.
-/

namespace PipeTable

open Store (ofTable)

/-- An operation on a table, with its arguments. -/
inductive Operation where
  | cell (row col : Nat)
  | setCell (row col : Nat) (value : Text)
  | cellsOf (row : Nat)
  | setRow (row : Nat) (values : List Text)
  | insertRow (index : Nat) (kind : RowKind)
  | removeRow (index : Nat)
  | swapRows (a b : Nat)
  | insertColumn (index : Nat)
  | removeColumn (index : Nat)
  | swapColumns (a b : Nat)
  | setAlignment (col : Nat) (a : Alignment)
  | addRow (kind : RowKind) (values : List Text)
  | addColumn
  | refit
  | addSeparator (d : Dialect) (line : Text)
deriving DecidableEq

inductive Answer where
  | done
  | text (value : Text)
  | texts (values : List Text)
  | removed (yes : Bool)
deriving DecidableEq

/-- What an operation asks of an argument: a row or a column that is there, a place between rows
or columns, or a cell `(i, j)` that is not in a separator row. -/
inductive Check where
  | row (i : Nat)
  | column (j : Nat)
  | rowGap (i : Nat)
  | columnGap (j : Nat)
  | writable (i j : Nat)
deriving DecidableEq

namespace Check

def Holds (t : Table) : Check → Prop
  | row i => i < t.rowCount
  | column j => j < t.colCount
  | rowGap i => i ≤ t.rowCount
  | columnGap j => j ≤ t.colCount
  | writable i _ => t.rows[i]? ≠ some .separator

instance (t : Table) : (c : Check) → Decidable (c.Holds t)
  | row i => inferInstanceAs (Decidable (i < t.rowCount))
  | column j => inferInstanceAs (Decidable (j < t.colCount))
  | rowGap i => inferInstanceAs (Decidable (i ≤ t.rowCount))
  | columnGap j => inferInstanceAs (Decidable (j ≤ t.colCount))
  | writable i _ => inferInstanceAs (Decidable (t.rows[i]? ≠ some .separator))

def fault (t : Table) : Check → Fault
  | row i => .rowIndex i t.rowCount
  | column j => .columnIndex j t.colCount
  | rowGap i => .rowInsertion i t.rowCount
  | columnGap j => .columnInsertion j t.colCount
  | writable i j => .separatorCell i j

/-- The wording of a check that fails. -/
def message (t : Table) : Check → String
  | row i => s!"row index {i} out of range ({t.rowCount} rows)"
  | column j => s!"column index {j} out of range ({t.colCount} columns)"
  | rowGap i => s!"row insert index {i} out of range ({t.rowCount} rows)"
  | columnGap j => s!"column insert index {j} out of range ({t.colCount} columns)"
  | writable i j => s!"cannot set cell ({i}, {j}): row {i} is a separator"

theorem message_fault (t : Table) (c : Check) : (c.fault t).message = some (c.message t) := by
  cases c <;> rfl

end Check

/-- The first of some checks that fails. -/
def firstFailing (t : Table) (checks : List Check) : Option Check :=
  checks.find? fun c => !decide (c.Holds t)

theorem firstFailing_eq_none_iff {t : Table} {checks : List Check} :
    firstFailing t checks = none ↔ ∀ c ∈ checks, c.Holds t := by
  simp [firstFailing]

theorem exists_of_firstFailing {t : Table} {checks : List Check} {c : Check}
    (h : firstFailing t checks = some c) : ∃ c ∈ checks, ¬ c.Holds t :=
  ⟨c, List.mem_of_find?_eq_some h, by simpa using List.find?_some h⟩

/-- What `x` comes to is decided by checks: the first that fails, or else some answer. -/
inductive Guarded {α : Type} (t : Table) : List Check → Except Fault α → Prop
  | answer (a : α) : Guarded t [] (.ok a)
  | holds {c : Check} {checks : List Check} {x : Except Fault α} (hc : c.Holds t)
      (hx : Guarded t checks x) : Guarded t (c :: checks) x
  | fails {c : Check} {checks : List Check} (hc : ¬ c.Holds t) :
      Guarded t (c :: checks) (.error (c.fault t))

namespace Guarded

variable {α β : Type} {t : Table} {checks : List Check} {x : Except Fault α} {i j n : Nat}

theorem cons {c : Check} (hfail : ¬ c.Holds t → x = .error (c.fault t))
    (hx : c.Holds t → Guarded t checks x) : Guarded t (c :: checks) x := by
  by_cases hc : c.Holds t
  · exact .holds hc (hx hc)
  · rw [hfail hc]
    exact .fails hc

theorem map (h : Guarded t checks x) (f : α → β) :
    Guarded t checks (x >>= fun a => pure (f a)) := by
  induction h with
  | answer a => exact .answer (f a)
  | holds hc _ ih => exact .holds hc ih
  | fails hc => exact .fails hc

/-- An answer if no check fails, and else the fault of the first that does. -/
theorem outcome (h : Guarded t checks x) :
    (firstFailing t checks = none ∧ ∃ a, x = .ok a) ∨
      ∃ c, firstFailing t checks = some c ∧ x = .error (c.fault t) := by
  induction h with
  | answer a => exact .inl ⟨rfl, a, rfl⟩
  | holds hc _ ih =>
    rw [firstFailing, List.find?_cons_of_neg (by simpa using hc)]
    exact ih
  | fails hc => exact .inr ⟨_, List.find?_cons_of_pos (by simpa using hc), rfl⟩

theorem checkRow_bind {f : Unit → Except Fault α} (h : i < t.rowCount → Guarded t checks (f ())) :
    Guarded t (.row i :: checks) (t.checkRow i >>= f) := by
  refine cons (fun hi => ?_) fun hi => ?_
  · rw [Table.checkRow, if_neg (show ¬ i < t.rowCount from hi)]
    rfl
  · rw [Table.checkRow, if_pos (show i < t.rowCount from hi)]
    exact h hi

theorem row_bind {f : Row → Except Fault α}
    (h : ∀ r, t.rows[i]? = some r → Guarded t checks (f r)) :
    Guarded t (.row i :: checks) (t.row i >>= f) := by
  refine cons (fun hi => ?_) fun hi => ?_
  · rw [Table.row, List.getElem?_eq_none (Nat.not_lt.1 hi)]
    rfl
  · rw [Table.row, List.getElem?_eq_getElem hi]
    exact h _ (List.getElem?_eq_getElem hi)

theorem checkColumn_bind {f : Unit → Except Fault α}
    (h : j < t.colCount → Guarded t checks (f ())) :
    Guarded t (.column j :: checks) (t.checkColumn j >>= f) := by
  refine cons (fun hj => ?_) fun hj => ?_
  · rw [Table.checkColumn, if_neg (show ¬ j < t.colCount from hj)]
    rfl
  · rw [Table.checkColumn, if_pos (show j < t.colCount from hj)]
    exact h hj

theorem checkReach_bind {f : Unit → Except Fault α} (hn : t.rows.all (Row.reaches n))
    (h : Guarded t checks (f ())) : Guarded t checks (t.checkReach n >>= f) := by
  rw [Table.checkReach, if_pos hn]
  exact h

end Guarded

namespace Operation

/-- The checks of an operation, in their order. -/
def checks : Operation → List Check
  | cell i j => [.row i, .column j]
  | setCell i j _ => [.row i, .column j, .writable i j]
  | cellsOf i | setRow i _ | removeRow i => [.row i]
  | insertRow i _ => [.rowGap i]
  | swapRows a b => [.row a, .row b]
  | insertColumn j => [.columnGap j]
  | removeColumn j | setAlignment j _ => [.column j]
  | swapColumns a b => [.column a, .column b]
  | addRow _ _ | addColumn | refit | addSeparator _ _ => []

/-- The answer of an operation and the table that it leaves. -/
def onTable (t : Table) : Operation → Except Fault (Answer × Table)
  | cell i j => return (.text (← t.cell i j), t)
  | setCell i j value => return (.done, ← t.setCell i j value)
  | cellsOf i => return (.texts (← t.cellsOf i), t)
  | setRow i values => return (.done, ← t.setRow i values)
  | insertRow i kind => return (.done, ← t.insertRow i kind)
  | removeRow i => return (.done, ← t.removeRow i)
  | swapRows a b => return (.done, ← t.swapRows a b)
  | insertColumn j => return (.done, ← t.insertColumn j)
  | removeColumn j => do
    let u ← t.removeColumn j
    return (.removed u.isSome, u.getD t)
  | swapColumns a b => return (.done, ← t.swapColumns a b)
  | setAlignment j a => return (.done, ← t.setAlignment j a)
  | addRow kind values => return (.done, t.addRow kind values)
  | addColumn => return (.done, t.addColumn)
  | refit => return (.done, t.refit)
  | addSeparator d line => return (.done, t.addSeparator d line)

/-- The operation on the lists of a table. -/
def inPlace : Operation → InPlace Answer
  | cell i j => return .text (← InPlace.cell i j)
  | setCell i j value => InPlace.setCell i j value *> pure .done
  | cellsOf i => return .texts (← InPlace.cellsOf i)
  | setRow i values => InPlace.setRow i values *> pure .done
  | insertRow i kind => InPlace.insertRow i kind *> pure .done
  | removeRow i => InPlace.removeRow i *> pure .done
  | swapRows a b => InPlace.swapRows a b *> pure .done
  | insertColumn j => InPlace.insertColumn j *> pure .done
  | removeColumn j => return .removed (← InPlace.removeColumn j)
  | swapColumns a b => InPlace.swapColumns a b *> pure .done
  | setAlignment j a => InPlace.setAlignment j a *> pure .done
  | addRow kind values => InPlace.addRow kind values *> pure .done
  | addColumn => InPlace.addColumn *> pure .done
  | refit => InPlace.refit *> pure .done
  | addSeparator d line => InPlace.addSeparator d line *> pure .done

variable {t u : Table} {op : Operation} {a : Answer}

theorem guarded_setCell (ht : t.Shaped) (i j : Nat) (value : Text) :
    Guarded t [.row i, .column j, .writable i j] (t.setCell i j value) := by
  refine .row_bind fun r hr => .checkColumn_bind fun hj => .cons (fun hw => ?_) fun hw => ?_
  · rw [Check.Holds, not_not, hr, Option.some.injEq] at hw
    rw [hw]
    rfl
  · cases r with
    | separator => exact absurd hr hw
    | data cells =>
      have hlen := ht.rectangular cells (List.mem_of_getElem? hr)
      simp only [List.getElem?_eq_getElem (hlen.symm ▸ hj : j < cells.length)]
      exact .answer _

theorem guarded_cell (ht : t.Shaped) (i j : Nat) :
    Guarded t [.row i, .column j] (t.cell i j) := by
  refine .row_bind fun r hr => .checkColumn_bind fun hj => ?_
  cases r with
  | separator => exact .answer _
  | data cells =>
    have hlen := ht.rectangular cells (List.mem_of_getElem? hr)
    simp only [List.getElem?_eq_getElem (hlen.symm ▸ hj : j < cells.length)]
    exact .answer _

theorem guarded_cellsOf (t : Table) (i : Nat) : Guarded t [.row i] (t.cellsOf i) :=
  .row_bind fun _ _ => .answer _

theorem guarded_removeRow (t : Table) (i : Nat) : Guarded t [.row i] (t.removeRow i) :=
  .checkRow_bind fun _ => .answer _

theorem guarded_swapRows (t : Table) (a b : Nat) :
    Guarded t [.row a, .row b] (t.swapRows a b) :=
  .checkRow_bind fun _ => .checkRow_bind fun _ => .answer _

theorem guarded_setAlignment (t : Table) (j : Nat) (a : Alignment) :
    Guarded t [.column j] (t.setAlignment j a) :=
  .checkColumn_bind fun _ => .answer _

theorem guarded_setRow (t : Table) (i : Nat) (values : List Text) :
    Guarded t [.row i] (t.setRow i values) :=
  .row_bind fun r _ => by cases r <;> exact .answer _

theorem guarded_insertRow (t : Table) (i : Nat) (kind : RowKind) :
    Guarded t [.rowGap i] (t.insertRow i kind) := by
  refine .cons (fun hi => ?_) fun hi => ?_
  · rw [Table.insertRow, if_pos (Nat.not_le.1 hi)]
    rfl
  · rw [Table.insertRow_eq_ok_iff.2 ⟨hi, rfl⟩]
    exact .answer _

theorem guarded_insertColumn (ht : t.Shaped) (j : Nat) :
    Guarded t [.columnGap j] (t.insertColumn j) := by
  refine .cons (fun hj => ?_) fun hj => ?_
  · rw [Table.insertColumn, if_pos (Nat.not_le.1 hj)]
    rfl
  · rw [Table.insertColumn_eq_ok_iff.2 ⟨hj, ht.all_reaches hj, rfl⟩]
    exact .answer _

theorem guarded_removeColumn (ht : t.Shaped) (j : Nat) :
    Guarded t [.column j] (t.removeColumn j) := by
  refine .checkColumn_bind fun hj => ?_
  by_cases hone : t.colCount = 1
  · rw [if_pos hone]
    exact .answer _
  · rw [if_neg hone]
    exact .checkReach_bind (ht.all_reaches hj) (.answer _)

theorem guarded_swapColumns (ht : t.Shaped) (a b : Nat) :
    Guarded t [.column a, .column b] (t.swapColumns a b) :=
  .checkColumn_bind fun ha => .checkColumn_bind fun hb =>
    .checkReach_bind (ht.all_reaches (Nat.max_lt.2 ⟨ha, hb⟩)) (.answer _)

theorem guarded_onTable (ht : t.Shaped) (op : Operation) :
    Guarded t op.checks (op.onTable t) := by
  cases op with
  | cell i j => exact (guarded_cell ht i j).map _
  | setCell i j value => exact (guarded_setCell ht i j value).map _
  | cellsOf i => exact (guarded_cellsOf t i).map _
  | setRow i values => exact (guarded_setRow t i values).map _
  | insertRow i kind => exact (guarded_insertRow t i kind).map _
  | removeRow i => exact (guarded_removeRow t i).map _
  | swapRows a b => exact (guarded_swapRows t a b).map _
  | insertColumn j => exact (guarded_insertColumn ht j).map _
  | removeColumn j => exact (guarded_removeColumn ht j).map _
  | swapColumns a b => exact (guarded_swapColumns ht a b).map _
  | setAlignment j a => exact (guarded_setAlignment t j a).map _
  | addRow kind values => exact .answer _
  | addColumn => exact .answer _
  | refit => exact .answer _
  | addSeparator d line => exact .answer _

theorem run_read {α : Type} {x : InPlace α} {r : Except Fault α}
    (h : x.run (ofTable t) = InPlace.outcome t (do return (← r, t))) (f : α → Answer) :
    (do return f (← x) : InPlace Answer).run (ofTable t) =
      InPlace.outcome t (do return (f (← r), t)) := by
  rw [EStateM.run_bind, h]
  cases r <;> rfl

theorem run_change {x : InPlace Unit} {r : Except Fault Table}
    (h : x.run (ofTable t) = InPlace.outcome t (do return ((), ← r))) :
    (x *> pure .done : InPlace Answer).run (ofTable t) =
      InPlace.outcome t (do return (.done, ← r)) := by
  rw [seqRight_eq_bind, EStateM.run_bind, h]
  cases r <;> rfl

theorem run_inPlace (ht : t.Shaped) (op : Operation) :
    op.inPlace.run (ofTable t) = InPlace.outcome t (op.onTable t) := by
  cases op with
  | cell i j => exact run_read (InPlace.run_cell ht i j) .text
  | setCell i j value => exact run_change (InPlace.run_setCell ht i j value)
  | cellsOf i => exact run_read (InPlace.run_cellsOf t i) .texts
  | setRow i values => exact run_change (InPlace.run_setRow t i values)
  | insertRow i kind => exact run_change (InPlace.run_insertRow t i kind)
  | removeRow i => exact run_change (InPlace.run_removeRow t i)
  | swapRows a b => exact run_change (InPlace.run_swapRows t a b)
  | insertColumn j => exact run_change (InPlace.run_insertColumn ht j)
  | removeColumn j =>
    rw [inPlace, EStateM.run_bind, InPlace.run_removeColumn ht, onTable]
    cases t.removeColumn j <;> rfl
  | swapColumns a b => exact run_change (InPlace.run_swapColumns ht a b)
  | setAlignment j a => exact run_change (InPlace.run_setAlignment t j a)
  | addRow kind values => exact run_change (r := .ok _) (InPlace.run_addRow t kind values)
  | addColumn => exact run_change (r := .ok _) (InPlace.run_addColumn t)
  | refit => exact run_change (r := .ok _) (InPlace.run_refit t)
  | addSeparator d line => exact run_change (r := .ok _) (InPlace.run_addSeparator t d line)

theorem reachable_of_onTable (ht : t.Reachable) (h : op.onTable t = .ok (a, u)) :
    u.Reachable := by
  have hchange {r : Except Fault Table} (hr : ∀ v, r = .ok v → v.Reachable)
      (hu : (do return (.done, ← r) : Except Fault (Answer × Table)) = .ok (a, u)) :
      u.Reachable := by
    cases r with
    | error fault => cases hu
    | ok v =>
      cases hu
      exact hr _ rfl
  cases op with
  | cell i j =>
    obtain ⟨-, -, ⟨⟩⟩ := Table.bind_eq_ok_iff.1 h
    exact ht
  | setCell i j value => exact hchange (fun _ => .setCell ht) h
  | cellsOf i =>
    obtain ⟨-, -, ⟨⟩⟩ := Table.bind_eq_ok_iff.1 h
    exact ht
  | setRow i values => exact hchange (fun _ => .setRow ht) h
  | insertRow i kind => exact hchange (fun _ => .insertRow ht) h
  | removeRow i => exact hchange (fun _ => .removeRow ht) h
  | swapRows a b => exact hchange (fun _ => .swapRows ht) h
  | insertColumn j => exact hchange (fun _ => .insertColumn ht) h
  | removeColumn j =>
    obtain ⟨r, hr, hu⟩ := Table.bind_eq_ok_iff.1 h
    cases hu
    cases r with
    | none => exact ht
    | some v => exact .removeColumn ht hr
  | swapColumns a b => exact hchange (fun _ => .swapColumns ht) h
  | setAlignment j a => exact hchange (fun _ => .setAlignment ht) h
  | addRow kind values =>
    cases h
    exact ht.addRow kind values
  | addColumn =>
    cases h
    exact ht.addColumn
  | refit =>
    cases h
    exact ht.refit
  | addSeparator d line =>
    cases h
    exact ht.addSeparator d line

/-- On the lists of a reachable table an operation fails exactly if one of its checks does. The
fault then is in the words of the first check that fails, and nothing has changed; else the lists
are those of the table that the operation leaves. Operations that grow a table or fit its widths
have no checks and never fail. -/
theorem fails_clean (ht : t.Reachable) (op : Operation) :
    ((∃ fault s, op.inPlace.run (ofTable t) = .error fault s) ↔ ∃ c ∈ op.checks, ¬ c.Holds t) ∧
      (∀ fault s, op.inPlace.run (ofTable t) = .error fault s →
        s = ofTable t ∧ op.onTable t = .error fault ∧
          ∃ c, firstFailing t op.checks = some c ∧ fault.message = some (c.message t)) ∧
      (∀ a s, op.inPlace.run (ofTable t) = .ok a s →
        ∃ u, s = ofTable u ∧ op.onTable t = .ok (a, u)) := by
  have hshaped := ht.wellFormed.toShaped
  have hrun := run_inPlace hshaped op
  rcases (guarded_onTable hshaped op).outcome with ⟨hnone, ⟨a, u⟩, hok⟩ | ⟨c, hfirst, herror⟩
  · have hholds := firstFailing_eq_none_iff.1 hnone
    rw [hok, InPlace.outcome] at hrun
    refine ⟨⟨?_, ?_⟩, ?_, ?_⟩
    · rintro ⟨fault, s, hfault⟩
      cases hrun.symm.trans hfault
    · rintro ⟨c, hc, hfails⟩
      exact absurd (hholds c hc) hfails
    · intro fault s hfault
      cases hrun.symm.trans hfault
    · intro b s hb
      cases hrun.symm.trans hb
      exact ⟨u, rfl, hok⟩
  · rw [herror, InPlace.outcome] at hrun
    refine ⟨⟨fun _ => exists_of_firstFailing hfirst, fun _ => ⟨_, _, hrun⟩⟩, ?_, ?_⟩
    · intro fault s hfault
      cases hrun.symm.trans hfault
      exact ⟨rfl, herror, c, hfirst, c.message_fault t⟩
    · intro b s hb
      cases hrun.symm.trans hb

/-- Writing to the separator row of a table that has one: the row and the column are there. -/
theorem fails_clean_separator :
    (Table.withSize 1 2).Reachable ∧ ∃ fault,
      (setCell 1 0 ['a']).inPlace.run (ofTable (Table.withSize 1 2)) =
        .error fault (ofTable (Table.withSize 1 2)) ∧
      fault.message = some "cannot set cell (1, 0): row 1 is a separator" := by
  have ht : (Table.withSize 1 2).Reachable := .withSize 1 2
  obtain ⟨hiff, hfails, -⟩ := fails_clean ht (setCell 1 0 ['a'])
  have hseparator : ∃ c ∈ (setCell 1 0 ['a']).checks, ¬ c.Holds (Table.withSize 1 2) := by decide
  obtain ⟨fault, s, hrun⟩ := hiff.2 hseparator
  obtain ⟨rfl, -, c, hfirst, hmessage⟩ := hfails fault s hrun
  have hc : firstFailing (Table.withSize 1 2) (setCell 1 0 ['a']).checks =
      some (.writable 1 0) := by decide
  obtain rfl := Option.some.inj (hfirst.symm.trans hc)
  exact ⟨ht, fault, hrun, hmessage⟩

/-- The lists after an operation, whether it has failed or not. -/
def after (op : Operation) (s : Store) : Store :=
  match op.inPlace.run s with
  | .ok _ s => s
  | .error _ s => s

theorem exists_after_eq (ht : t.Reachable) (op : Operation) :
    ∃ u, u.Reachable ∧ op.after (ofTable t) = ofTable u := by
  rw [after, run_inPlace ht.wellFormed.toShaped]
  cases hop : op.onTable t with
  | error fault => exact ⟨t, ht, rfl⟩
  | ok p => exact ⟨p.2, reachable_of_onTable ht hop, rfl⟩

end Operation

end PipeTable
