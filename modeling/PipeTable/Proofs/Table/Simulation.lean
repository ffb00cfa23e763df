import PipeTable.Proofs.Table.InPlace
import PipeTable.Proofs.Table.Reversal

/-! # Tables changed in place and tables

The operations that change the lists of a table one after the other, against those that make a
new table. Carried out on the lists of a table, both find the same fault or the same answer, and
what is in the lists afterwards is the new table, or after a fault the old one. Where rows of one
length are needed so that no list lacks an entry, the table has to be `Shaped`.
-/

namespace PipeTable

open Text

section Entries

variable {α β : Type} {xs : List α} {i a b : Nat}

theorem modifyEntry_eq_some (hi : i < xs.length) (f : α → α) :
    modifyEntry i f xs = some (xs.modify i f) := if_pos hi

theorem setEntry_map (hi : i < xs.length) (x : α) (f : α → β) :
    setEntry i (f x) (xs.map f) = some ((xs.set i x).map f) := by
  rw [setEntry, if_pos (by simpa using hi), List.map_set]

theorem insertEntry_map (hi : i ≤ xs.length) (x : α) (f : α → β) :
    insertEntry i (f x) (xs.map f) = some ((xs.insertIdx i x).map f) := by
  rw [insertEntry, if_pos (by simpa using hi), List.map_insertIdx]

theorem removeEntry_map (hi : i < xs.length) (f : α → β) :
    removeEntry i (xs.map f) = some ((xs.eraseIdx i).map f) := by
  rw [removeEntry, if_pos (by simpa using hi), List.eraseIdx_map]

theorem exchangeEntries_map (ha : a < xs.length) (hb : b < xs.length) (f : α → β) :
    exchangeEntries a b (xs.map f) = some ((exchange xs a b).map f) := by
  rw [exchangeEntries, if_pos (by simpa using ⟨ha, hb⟩), map_exchange]

end Entries

namespace Store

variable {t : Table}

/-- The lists that hold a table. -/
def ofTable (t : Table) : Store where
  kinds := t.rows.map Row.kind
  columns := t.columns
  cells := t.rows.map Row.cells
  startLine := t.startLine

@[simp] theorem length_kinds_ofTable (t : Table) : (ofTable t).kinds.length = t.rowCount :=
  List.length_map _

@[simp] theorem length_columns_ofTable (t : Table) : (ofTable t).columns.length = t.colCount := rfl

@[simp] theorem getElem?_kinds_ofTable (t : Table) (i : Nat) :
    (ofTable t).kinds[i]? = t.rows[i]?.map Row.kind := List.getElem?_map

@[simp] theorem getElem?_cells_ofTable (t : Table) (i : Nat) :
    (ofTable t).cells[i]? = t.rows[i]?.map Row.cells := List.getElem?_map

theorem minWidth_ofTable (t : Table) : (ofTable t).minWidth = t.minWidth := by
  have hsep : (fun r : Row => r.kind == .separator) = Row.isSeparator := by
    funext r
    cases r <;> rfl
  rw [minWidth, ofTable, List.any_map]
  exact congrArg (if List.any t.rows · then 3 else 0) hsep

theorem zip_ofTable (t : Table) :
    (ofTable t).kinds.zip (ofTable t).cells = t.rows.map fun r => (r.kind, r.cells) :=
  List.zip_map' ..

theorem widenTo_zero (c : Column) : Table.widenTo 0 c = c := by
  simp [Table.widenTo]

theorem widen_eq (columns : List Column) (cells : List Text) :
    widen columns cells = columns.mapIdx fun j => Table.widenTo ((Row.data cells).cellWidth j) := by
  induction columns generalizing cells with
  | nil => cases cells <;> rfl
  | cons c columns ih =>
    cases cells with
    | nil =>
      have hnone (j : Nat) : (Row.data []).cellWidth j = 0 := rfl
      rw [widen]
      apply List.ext_getElem
      · simp
      · intro j _ _
        simp only [List.getElem_mapIdx, hnone, widenTo_zero]
      · simp
    | cons v cells =>
      rw [widen, ih, List.mapIdx_cons]
      rfl

theorem widenToRow_eq (columns : List Column) (r : Row) :
    widenToRow columns (r.kind, r.cells) =
      columns.mapIdx fun j => Table.widenTo (r.cellWidth j) := by
  cases r with
  | data cells => exact widen_eq columns cells
  | separator =>
    apply List.ext_getElem
    · simp [widenToRow, Row.kind]
    · intro j _ _
      simp [widenToRow, Row.kind, widenTo_zero]

theorem foldl_widenToRow (rows : List Row) (columns : List Column) :
    (rows.map fun r => (r.kind, r.cells)).foldl widenToRow columns =
      columns.mapIdx fun j => Table.widenTo (Table.contentWidth rows j) := by
  induction rows generalizing columns with
  | nil =>
    apply List.ext_getElem
    · simp
    · intro j _ _
      simp [widenTo_zero]
  | cons r rows ih =>
    rw [List.map_cons, List.foldl_cons, widenToRow_eq, ih, List.mapIdx_mapIdx]
    congr 1
    funext j c
    simp [Table.widenTo, Nat.max_assoc]

theorem refit_ofTable (t : Table) : (ofTable t).refit = ofTable t.refit := by
  rw [refit, zip_ofTable, foldl_widenToRow, minWidth_ofTable]
  simp only [ofTable, Table.refit, mk.injEq, true_and, and_true]
  apply List.ext_getElem
  · simp
  · intro j _ _
    simp [Table.widenTo, Table.fittedWidth]

theorem widest_eq {col : Nat} {rows : List Row}
    (h : ∀ cells, Row.data cells ∈ rows → col < cells.length) :
    widest col (rows.map fun r => (r.kind, r.cells)) = some (Table.contentWidth rows col) := by
  induction rows with
  | nil => rfl
  | cons r rows ih =>
    have hrest := ih fun cells hcells => h cells (List.mem_cons_of_mem _ hcells)
    cases r with
    | separator => simpa [widest, Row.kind, Row.cells] using hrest
    | data cells =>
      have hvalue := List.getElem?_eq_getElem (h cells List.mem_cons_self)
      rw [List.map_cons, Table.contentWidth_cons, Row.kind, Row.cells, widest, hvalue, hrest,
        Row.cellWidth, Row.cells, hvalue]
      rfl

end Store

namespace InPlace

variable {α β : Type} {t : Table} {s s' : Store}

open Store (ofTable)

theorem run_bind_of_ok {x : InPlace α} {f : α → InPlace β} {a : α} (h : x.run s = .ok a s') :
    (x >>= f).run s = (f a).run s' := by
  rw [EStateM.run_bind, h]

theorem run_get_bind (f : Store → InPlace β) : (get >>= f).run s = (f s).run s := rfl

theorem run_set_bind (f : PUnit → InPlace β) : (set s' >>= f).run s = (f ⟨⟩).run s' := rfl

theorem run_demand_bind {o : Option α} {a : α} (h : o = some a) (f : α → InPlace β) :
    (demand o >>= f).run s = (f a).run s := by
  rw [h]
  rfl

theorem run_refit (t : Table) : refit.run (ofTable t) = .ok () (ofTable t.refit) :=
  congrArg (EStateM.Result.ok ()) (Store.refit_ofTable t)

theorem run_editRows {f : List RowKind → Option (List RowKind)}
    {g : List (List Text) → Option (List (List Text))} {rows : List Row}
    (hf : f (t.rows.map Row.kind) = some (rows.map Row.kind))
    (hg : g (t.rows.map Row.cells) = some (rows.map Row.cells)) :
    (editRows f g).run (ofTable t) = .ok () (ofTable { t with rows := rows }) := by
  rw [editRows, run_get_bind, run_demand_bind (show f (ofTable t).kinds = _ from hf), run_set_bind,
    run_demand_bind (show g (ofTable t).cells = _ from hg)]
  rfl

theorem run_editColumns {f : List Column → Option (List Column)} {columns : List Column}
    (h : f t.columns = some columns) :
    (editColumns f).run (ofTable t) = .ok () (ofTable { t with columns := columns }) := by
  rw [editColumns, run_get_bind, run_demand_bind (show f (ofTable t).columns = _ from h)]
  rfl

/-- Going through the data rows changes the cells of each of them. The cells of the rows that lie
behind are in `before`. -/
theorem run_eachData {f : List Text → Option (List Text)} {h : List Text → List Text}
    (rows : List Row) (hf : ∀ cells, Row.data cells ∈ rows → f cells = some (h cells))
    (before : List (List Text)) (hs : s.cells = before ++ rows.map Row.cells) :
    (eachData f before.length (rows.map Row.kind)).run s =
      .ok () { s with cells := before ++ (rows.map (Row.mapCells h)).map Row.cells } := by
  induction rows generalizing s before with
  | nil =>
    rw [List.map_nil, List.append_nil] at hs
    simp [eachData, ← hs]
  | cons r rows ih =>
    have hrest := fun cells hcells => hf cells (List.mem_cons_of_mem r hcells)
    cases r with
    | separator =>
      have hnext := ih hrest (s := s) (before ++ [[]]) (by simp [hs, Row.cells])
      simp only [List.length_append, List.length_singleton] at hnext
      simp only [List.map_cons, Row.kind, eachData, hnext]
      simp [Row.mapCells, Row.cells]
    | data cells =>
      have hcell : s.cells[before.length]? = some cells := by simp [hs, Row.cells]
      have hnext := ih hrest (s := { s with cells := s.cells.set before.length (h cells) })
        (before ++ [h cells]) (by simp [hs, Row.cells])
      simp only [List.length_append, List.length_singleton] at hnext
      simp only [List.map_cons, Row.kind, eachData, run_get_bind, hcell]
      rw [run_demand_bind (hf cells List.mem_cons_self), run_set_bind, hnext]
      simp [Row.mapCells, Row.cells]

theorem run_eachData_ofTable {f : List Text → Option (List Text)} {h : List Text → List Text}
    (hf : ∀ cells, Row.data cells ∈ t.rows → f cells = some (h cells)) :
    (eachData f 0 (ofTable t).kinds).run (ofTable t) =
      .ok () (ofTable { t with rows := t.rows.map (Row.mapCells h) }) := by
  have hrun := run_eachData t.rows hf (s := ofTable t) [] rfl
  rw [List.length_nil] at hrun
  simp only [ofTable] at hrun ⊢
  rw [hrun]
  simp [Function.comp_def]

/-- What an operation in place comes to when it agrees with `r`: the answer with the lists of the
new table, or the fault with the lists as they were. -/
def outcome (t : Table) : Except Fault (α × Table) → EStateM.Result Fault Store α
  | .ok (a, u) => .ok a (ofTable u)
  | .error fault => .error fault (ofTable t)

section Checks

variable {f : Unit → InPlace α} {i j : Nat}

theorem run_require_bind {p : Prop} [Decidable p] {fault : Fault} {r : Except Fault (α × Table)}
    (hr : ¬ p → r = .error fault) (h : p → (f ()).run (ofTable t) = outcome t r) :
    (require p fault >>= f).run (ofTable t) = outcome t r := by
  by_cases hp : p
  · rw [require, if_pos hp]
    exact h hp
  · rw [require, if_neg hp, hr hp]
    rfl

theorem run_checkRow_bind {g : Unit → Except Fault (α × Table)}
    (h : i < t.rowCount → (f ()).run (ofTable t) = outcome t (g ())) :
    (checkRow i >>= f).run (ofTable t) = outcome t (t.checkRow i >>= g) := by
  rw [checkRow, bind_assoc, run_get_bind, Store.length_kinds_ofTable]
  refine run_require_bind (fun hi => ?_) fun hi => ?_
  · rw [Table.checkRow, if_neg hi]
    rfl
  · rw [h hi, Table.checkRow, if_pos hi]
    rfl

theorem run_checkRow_bind_row {g : Row → Except Fault (α × Table)}
    (h : ∀ r, t.rows[i]? = some r → (f ()).run (ofTable t) = outcome t (g r)) :
    (checkRow i >>= f).run (ofTable t) = outcome t (t.row i >>= g) := by
  rw [checkRow, bind_assoc, run_get_bind, Store.length_kinds_ofTable]
  refine run_require_bind (fun hi => ?_) fun hi => ?_
  · rw [Table.row, List.getElem?_eq_none (Nat.not_lt.1 hi)]
    rfl
  · rw [h _ (List.getElem?_eq_getElem hi), Table.row, List.getElem?_eq_getElem hi]
    rfl

theorem run_checkColumn_bind {g : Unit → Except Fault (α × Table)}
    (h : j < t.colCount → (f ()).run (ofTable t) = outcome t (g ())) :
    (checkColumn j >>= f).run (ofTable t) = outcome t (t.checkColumn j >>= g) := by
  rw [checkColumn, bind_assoc, run_get_bind, Store.length_columns_ofTable]
  refine run_require_bind (fun hj => ?_) fun hj => ?_
  · rw [Table.checkColumn, if_neg hj]
    rfl
  · rw [h hj, Table.checkColumn, if_pos hj]
    rfl

end Checks

variable {i j a b width : Nat} {kind : RowKind}

theorem run_removeRow (t : Table) (i : Nat) :
    (removeRow i).run (ofTable t) = outcome t (do return ((), ← t.removeRow i)) := by
  simp only [removeRow, Table.removeRow, bind_assoc, pure_bind]
  refine run_checkRow_bind fun hi => ?_
  rw [run_bind_of_ok (run_editRows (removeEntry_map hi _) (removeEntry_map hi _))]
  exact run_refit _

theorem run_swapRows (t : Table) (a b : Nat) :
    (swapRows a b).run (ofTable t) = outcome t (do return ((), ← t.swapRows a b)) := by
  simp only [swapRows, Table.swapRows, bind_assoc, pure_bind]
  refine run_checkRow_bind fun ha => run_checkRow_bind fun hb => ?_
  rw [run_bind_of_ok (run_editRows (exchangeEntries_map ha hb _) (exchangeEntries_map ha hb _))]
  exact run_refit _

theorem kinds_set {rows : List Row} {r u : Row} (hr : rows[i]? = some r) (hu : u.kind = r.kind) :
    (rows.set i u).map Row.kind = rows.map Row.kind := by
  apply List.ext_getElem?
  intro k
  rw [List.getElem?_map, List.getElem?_set, List.getElem?_map]
  split
  · next hk =>
    subst hk
    rw [if_pos (List.getElem?_eq_some_iff.1 hr).1, hr, Option.map_some, hu, Option.map_some]
  · rfl

theorem run_setRow (t : Table) (i : Nat) (values : List Text) :
    (setRow i values).run (ofTable t) = outcome t (do return ((), ← t.setRow i values)) := by
  simp only [setRow, Table.setRow, bind_assoc]
  refine run_checkRow_bind_row fun r hr => ?_
  rw [run_get_bind, run_demand_bind (a := r.kind) (by simp [hr])]
  cases r with
  | separator => rfl
  | data cells =>
    have hi := (List.getElem?_eq_some_iff.1 hr).1
    have hkinds := kinds_set (u := .data (fitCells t.colCount values)) hr rfl
    have hrows := run_editRows (f := some) (congrArg some hkinds.symm) (setEntry_map hi _ Row.cells)
    exact (run_bind_of_ok hrows).trans (run_refit _)

theorem run_addColumn (t : Table) : addColumn.run (ofTable t) = .ok () (ofTable t.addColumn) := by
  rw [addColumn, run_get_bind, Store.minWidth_ofTable, run_set_bind]
  exact run_eachData_ofTable (t := { t with columns := t.columns ++ [{ width := t.minWidth }] })
    (f := fun cells => some (cells ++ [[]])) fun _ _ => rfl

theorem run_ensureColumn (t : Table) :
    ensureColumn.run (ofTable t) =
      .ok () (ofTable (if t.columns.isEmpty then t.addColumn else t)) := by
  rw [ensureColumn, run_get_bind]
  change EStateM.run (if t.columns.isEmpty then _ else _) _ = _
  split
  · exact run_addColumn t
  · rfl

theorem run_insertRow (t : Table) (i : Nat) (kind : RowKind) :
    (insertRow i kind).run (ofTable t) = outcome t (do return ((), ← t.insertRow i kind)) := by
  rw [insertRow, run_get_bind, Store.length_kinds_ofTable]
  refine run_require_bind (fun hi => ?_) fun hi => ?_
  · rw [Table.insertRow, if_pos (Nat.not_le.1 hi)]
    rfl
  · -- in `v` a first column may have come, the rows are as many as before
    obtain ⟨v, hv⟩ : ∃ v, (if t.columns.isEmpty then t.addColumn else t) = v := ⟨_, rfl⟩
    have hlen : i ≤ v.rows.length := by
      rw [← hv]
      split
      · simpa [Table.addColumn, Table.rowCount] using hi
      · exact hi
    have hkind : (Table.blankRow v.colCount kind).kind = kind := by cases kind <;> rfl
    have hkinds := insertEntry_map hlen (Table.blankRow v.colCount kind) Row.kind
    rw [hkind] at hkinds
    have hrows := run_editRows hkinds (insertEntry_map hlen _ Row.cells)
    rw [Table.insertRow_eq_ok_iff.2 ⟨hi, rfl⟩, run_bind_of_ok (run_ensureColumn t), hv]
    exact (run_bind_of_ok hrows).trans (run_refit _)

theorem run_setAlignment (t : Table) (j : Nat) (al : Alignment) :
    (setAlignment j al).run (ofTable t) = outcome t (do return ((), ← t.setAlignment j al)) := by
  simp only [setAlignment, Table.setAlignment, bind_assoc, pure_bind]
  refine run_checkColumn_bind fun hj => ?_
  rw [run_editColumns (modifyEntry_eq_some hj _)]
  rfl

theorem run_insertColumn (ht : t.Shaped) (j : Nat) :
    (insertColumn j).run (ofTable t) = outcome t (do return ((), ← t.insertColumn j)) := by
  rw [insertColumn, run_get_bind, Store.length_columns_ofTable]
  refine run_require_bind (fun hj => ?_) fun hj => ?_
  · rw [Table.insertColumn, if_pos (Nat.not_le.1 hj)]
    rfl
  · have hcells : ∀ cells, Row.data cells ∈ t.rows →
        insertEntry j [] cells = some (cells.insertIdx j []) :=
      fun cells hcells => if_pos (ht.rectangular cells hcells ▸ hj)
    have hcolumns := run_editColumns (t := t) (show insertEntry j {} t.columns = _ from if_pos hj)
    have heach := run_eachData_ofTable (t := { t with columns := t.columns.insertIdx j {} }) hcells
    rw [Table.insertColumn_eq_ok_iff.2 ⟨hj, ht.all_reaches hj, rfl⟩, run_bind_of_ok hcolumns]
    exact (run_bind_of_ok heach).trans (run_refit _)

theorem run_removeColumn (ht : t.Shaped) (j : Nat) :
    (removeColumn j).run (ofTable t) = outcome t (do
      let r ← t.removeColumn j
      return (r.isSome, r.getD t)) := by
  by_cases hone : t.colCount = 1
  · simp only [removeColumn, Table.removeColumn, bind_assoc]
    refine run_checkColumn_bind fun hj => ?_
    rw [run_get_bind, Store.length_columns_ofTable, if_pos hone, if_pos hone]
    rfl
  · simp only [removeColumn, Table.removeColumn, bind_assoc]
    refine run_checkColumn_bind fun hj => ?_
    have hcells : ∀ cells, Row.data cells ∈ t.rows →
        removeEntry j cells = some (cells.eraseIdx j) :=
      fun cells hcells => if_pos (ht.rectangular cells hcells ▸ hj)
    have hcolumns := run_editColumns (t := t) (show removeEntry j t.columns = _ from if_pos hj)
    have heach := run_eachData_ofTable (t := { t with columns := t.columns.eraseIdx j }) hcells
    have hreach : t.checkReach (j + 1) = .ok () := if_pos (ht.all_reaches hj)
    rw [run_get_bind, Store.length_columns_ofTable, if_neg hone, if_neg hone, hreach,
      run_bind_of_ok hcolumns]
    exact (run_bind_of_ok heach).trans (run_bind_of_ok (run_refit _))

theorem run_swapColumns (ht : t.Shaped) (a b : Nat) :
    (swapColumns a b).run (ofTable t) = outcome t (do return ((), ← t.swapColumns a b)) := by
  simp only [swapColumns, Table.swapColumns, bind_assoc, pure_bind]
  refine run_checkColumn_bind fun ha => run_checkColumn_bind fun hb => ?_
  have hcells : ∀ cells, Row.data cells ∈ t.rows →
      exchangeEntries a b cells = some (exchange cells a b) := by
    intro cells hcells
    have hlen := ht.rectangular cells hcells
    exact if_pos ⟨hlen ▸ ha, hlen ▸ hb⟩
  have hcolumns := run_editColumns (t := t)
    (show exchangeEntries a b t.columns = _ from if_pos ⟨ha, hb⟩)
  have heach := run_eachData_ofTable (t := { t with columns := exchange t.columns a b }) hcells
  have hreach : t.checkReach (max a b + 1) = .ok () :=
    if_pos (ht.all_reaches (Nat.max_lt.2 ⟨ha, hb⟩))
  rw [hreach, run_bind_of_ok hcolumns, run_get_bind]
  exact (run_bind_of_ok heach).trans (run_refit _)

theorem run_cellsOf (t : Table) (i : Nat) :
    (cellsOf i).run (ofTable t) = outcome t (do return (← t.cellsOf i, t)) := by
  simp only [cellsOf, Table.cellsOf, bind_assoc]
  refine run_checkRow_bind_row fun r hr => ?_
  rw [run_get_bind, Store.getElem?_cells_ofTable, hr]
  rfl

theorem run_cell (ht : t.Shaped) (i j : Nat) :
    (cell i j).run (ofTable t) = outcome t (do return (← t.cell i j, t)) := by
  simp only [cell, Table.cell, bind_assoc]
  refine run_checkRow_bind_row fun r hr => run_checkColumn_bind fun hj => ?_
  rw [run_get_bind, run_demand_bind (a := r.kind) (by simp [hr])]
  cases r with
  | separator => rfl
  | data cells =>
    have hlen := ht.rectangular cells (List.mem_of_getElem? hr)
    have hvalue := List.getElem?_eq_getElem (hlen.symm ▸ hj)
    have hcells : (ofTable t).cells[i]? = some cells := by simp [hr, Row.cells]
    simp only [Row.kind, hvalue]
    rw [run_demand_bind hcells, hvalue]
    rfl

theorem modify_congr {xs : List α} {f g : α → α} (h : ∀ x, xs[i]? = some x → f x = g x) :
    xs.modify i f = xs.modify i g := by
  apply List.ext_getElem?
  intro k
  rw [List.getElem?_modify, List.getElem?_modify]
  split
  · next hk =>
    subst hk
    exact Option.map_congr fun x hx => h x hx
  · rfl

theorem run_setWidth (hj : j < t.colCount) {f : Column → Nat}
    (h : ∀ c, t.columns[j]? = some c → width = f c) :
    (setWidth j width).run (ofTable t) = .ok ()
      (ofTable { t with columns := t.columns.modify j fun c => { c with width := f c } }) := by
  rw [setWidth, run_editColumns (modifyEntry_eq_some hj _), modify_congr]
  intro c hc
  rw [h c hc]

theorem run_fitColumn (ht : t.Shaped) (hj : j < t.colCount) (old new : Nat) :
    (fitColumn j old new).run (ofTable t) = .ok () (ofTable { t with
      columns := t.columns.modify j fun c =>
        { c with width := t.widthAfter j old new c.width } }) := by
  have hc : t.columns[j]? = some t.columns[j] := List.getElem?_eq_getElem hj
  have hall {w : Nat} (hw : w = t.widthAfter j old new t.columns[j].width) :
      ∀ c, t.columns[j]? = some c → w = t.widthAfter j old new c.width := by
    intro c hc'
    obtain rfl := Option.some.inj (hc.symm.trans hc')
    exact hw
  rw [fitColumn, run_get_bind, run_demand_bind (show (ofTable t).columns[j]? = _ from hc)]
  -- the three cases of `widthAfter`; only the second looks at the other cells of the column
  split
  · next hwider => exact run_setWidth hj (hall (by rw [Table.widthAfter, if_pos hwider]))
  · next hwider =>
    split
    · next hnarrower =>
      have hwidest := Store.widest_eq fun cells hcells => ht.rectangular cells hcells ▸ hj
      rw [← Store.zip_ofTable] at hwidest
      rw [run_demand_bind hwidest, Store.minWidth_ofTable]
      refine run_setWidth hj (hall ?_)
      rw [Table.widthAfter, if_neg hwider, if_pos hnarrower]
      rfl
    · next hnarrower =>
      have hsame : t.columns.modify j
          (fun c => { c with width := t.widthAfter j old new c.width }) = t.columns := by
        rw [modify_congr (g := id), List.modify_id]
        intro c hc'
        have hwidth : c.width = t.widthAfter j old new c.width := by
          obtain rfl := Option.some.inj (hc.symm.trans hc')
          rw [Table.widthAfter, if_neg hwider, if_neg hnarrower]
        rw [← hwidth]
        rfl
      rw [hsame]
      rfl

theorem run_setCell (ht : t.Shaped) (i j : Nat) (value : Text) :
    (setCell i j value).run (ofTable t) = outcome t (do return ((), ← t.setCell i j value)) := by
  simp only [setCell, Table.setCell, bind_assoc]
  refine run_checkRow_bind_row fun r hr => run_checkColumn_bind fun hj => ?_
  rw [run_get_bind, run_demand_bind (a := r.kind) (by simp [hr])]
  cases r with
  | separator => rfl
  | data cells =>
    have hmem := List.mem_of_getElem? hr
    have hold := List.getElem?_eq_getElem ((ht.rectangular cells hmem).symm ▸ hj)
    have hcells : (ofTable t).cells[i]? = some cells := by simp [hr, Row.cells]
    have hstore : { ofTable t with cells := (ofTable t).cells.set i (cells.set j value) } =
        ofTable { t with rows := t.rows.set i (.data (cells.set j value)) } := by
      simp only [ofTable, Store.mk.injEq, true_and, and_true]
      refine ⟨(kinds_set (u := .data (cells.set j value)) hr rfl).symm, ?_⟩
      rw [List.map_set]
      rfl
    simp only [hold]
    rw [run_bind_of_ok (show (require _ _).run _ = .ok () (ofTable t) from rfl),
      run_demand_bind hcells, run_demand_bind hold, run_set_bind, hstore,
      run_fitColumn (ht.setData hmem List.length_set) hj]
    rfl

theorem run_addColumns (n : Nat) (t : Table) :
    (addColumns n).run (ofTable t) = .ok () (ofTable (t.addColumns n)) := by
  induction n generalizing t with
  | zero => rfl
  | succ n ih => rw [addColumns, run_bind_of_ok (run_addColumn t), ih, Table.addColumns]

theorem widen_eq_zipWith {columns : List Column} {cells : List Text}
    (h : cells.length = columns.length) :
    Store.widen columns cells =
      columns.zipWith (fun c v => Table.widenTo (displayWidth v) c) cells := by
  induction columns generalizing cells with
  | nil => cases cells <;> rfl
  | cons c columns ih =>
    cases cells with
    | nil => cases h
    | cons v cells => rw [Store.widen, ih (Nat.succ.inj h), List.zipWith_cons_cons]

theorem run_addRow (t : Table) (kind : RowKind) (values : List Text) :
    (addRow kind values).run (ofTable t) = .ok () (ofTable (t.addRow kind values)) := by
  have hgrown := run_addColumns ((t.rowValues values).length - t.colCount) t
  rw [addRow, run_get_bind]
  refine (run_bind_of_ok hgrown).trans ?_
  rw [run_get_bind]
  cases kind with
  | data =>
    have hwiden := widen_eq_zipWith (length_fitCells (t.grownFor values).colCount
      (t.rowValues values))
    rw [Table.addRow_data]
    simp only [ofTable, List.map_append, List.map_singleton, Row.kind, Row.cells, ← hwiden]
    rfl
  | separator =>
    rw [Table.addRow_separator]
    simp only [ofTable, List.map_append, List.map_singleton, Row.kind, Row.cells]
    rfl

theorem alignAs_concat (t : Table) (cells : List Text) (cell : Text) :
    t.alignAs (cells ++ [cell]) = { t.alignAs cells with
      columns := (t.alignAs cells).columns.modify cells.length fun c =>
        { c with alignment := (cellAlignment cell).getD c.alignment } } := by
  simp only [Table.alignAs, Table.mk.injEq, and_true]
  apply List.ext_getElem
  · simp
  · intro j _ _
    rw [List.getElem_modify, List.getElem_mapIdx, List.getElem_mapIdx, List.getElem?_append]
    rcases Nat.lt_trichotomy j cells.length with hj | rfl | hj
    · rw [if_pos hj, if_neg (Nat.ne_of_gt hj)]
    · simp
    · have hsub : j - cells.length ≠ 0 := by omega
      simp [Nat.not_lt.2 (Nat.le_of_lt hj), Nat.ne_of_lt hj, hsub]

theorem run_alignFrom (cells done : List Text) (h : done.length + cells.length ≤ t.colCount) :
    (alignFrom done.length cells).run (ofTable (t.alignAs done)) =
      .ok () (ofTable (t.alignAs (done ++ cells))) := by
  induction cells generalizing done with
  | nil =>
    rw [List.append_nil]
    rfl
  | cons cell cells ih =>
    rw [List.length_cons] at h
    have hnext := ih (done ++ [cell]) (by simp; omega)
    rw [List.length_append, List.length_singleton, ← List.append_cons, alignAs_concat] at hnext
    have hj : done.length < (t.alignAs done).colCount := by
      have hcount : (t.alignAs done).colCount = t.colCount := List.length_mapIdx
      omega
    rw [alignFrom]
    cases hcell : cellAlignment cell with
    | some al =>
      have hset := run_setAlignment (t.alignAs done) done.length al
      rw [Table.setAlignment_eq_ok_iff.2 ⟨hj, rfl⟩] at hset
      rw [hcell] at hnext
      exact (run_bind_of_ok hset).trans hnext
    | none =>
      have hsame : (t.alignAs done).columns.modify done.length (fun c =>
          { c with alignment := (none : Option Alignment).getD c.alignment }) =
          (t.alignAs done).columns := List.modify_id ..
      rw [hcell, hsame] at hnext
      exact hnext

/-- Cells behind the last column have no column to align. -/
theorem alignAs_take (t : Table) (cells : List Text) :
    t.alignAs (cells.take t.colCount) = t.alignAs cells := by
  simp only [Table.alignAs, Table.mk.injEq, and_true]
  apply List.ext_getElem
  · simp
  · intro j hj _
    rw [List.length_mapIdx] at hj
    have hcell : (cells.take t.colCount)[j]? = cells[j]? := List.getElem?_take_of_lt hj
    rw [List.getElem_mapIdx, List.getElem_mapIdx, hcell]

theorem alignAs_nil (t : Table) : t.alignAs [] = t := by
  simp only [Table.alignAs, List.getElem?_nil, Option.bind_none, Option.getD_none]
  rw [show t.columns.mapIdx (fun _ c => c) = t.columns from List.mapIdx_eq_iff.2 fun _ => by simp]

theorem run_addSeparator (t : Table) (d : Dialect) (line : Text) :
    (addSeparator d line).run (ofTable t) = .ok () (ofTable (t.addSeparator d line)) := by
  cases d with
  | markdown =>
    have hrow := run_addRow t .separator []
    have halign := run_alignFrom (t := t.addRow .separator [])
      ((splitCells line).take (t.addRow .separator []).colCount) []
      ((Nat.zero_add _).trans_le (List.length_take_le ..))
    rw [alignAs_nil, List.nil_append, alignAs_take] at halign
    exact (run_bind_of_ok hrow).trans halign
  | org => exact run_addRow t .separator []

end InPlace

end PipeTable
