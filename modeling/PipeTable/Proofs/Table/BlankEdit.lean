import PipeTable.Proofs.Navigation.Stop
import PipeTable.Proofs.Table.Legible

/-! # Edits that write blanks

Appending or inserting a row, inserting a column to the right of another one and clearing a cell
write empty cells and move no other cell into the first column. Separators keep their places
below the data rows they had above them, and new columns are left-aligned. So all of these
leave a legible table legible, and the cells that they leave are those of the table before and
the new ones.
-/

namespace PipeTable

theorem Settled.mono {j : Nat} {ks ls : List RowKind} (h : Settled j ks) (hsub : ks.Sublist ls) :
    Settled j ls := by
  unfold Settled at h ⊢
  by_cases hj : j = 0
  · rw [if_pos hj] at h ⊢
    exact hsub.subset h
  · rw [if_neg hj] at h ⊢
    exact h.trans hsub

theorem Settled.of_ne_zero {i j : Nat} {ks : List RowKind} (h : Settled i ks) (hi : i ≠ 0)
    (hj : j ≠ 0) : Settled j ks := by
  rw [Settled, if_neg hi] at h
  rwa [Settled, if_neg hj]

/-- The cells are old ones and empty ones, and no old one comes first but the first of them. -/
structure Blanked (old cells : List Text) : Prop where
  mem : ∀ v ∈ cells, v = [] ∨ v ∈ old
  head : ∀ v, cells.head? = some v → v = [] ∨ old.head? = some v

namespace Blanked

theorem refl (cells : List Text) : Blanked cells cells := ⟨fun _ => .inr, fun _ => .inr⟩

theorem replicate (n : Nat) : Blanked [] (List.replicate n []) where
  mem _ hv := .inl (List.eq_of_mem_replicate hv)
  head _ hv := .inl (List.eq_of_mem_replicate (List.mem_of_head? hv))

theorem set (cells : List Text) (col : Nat) : Blanked cells (cells.set col []) where
  mem _ hv := (List.mem_or_eq_of_mem_set hv).symm
  head v hv := by
    cases cells with
    | nil => cases hv
    | cons first rest =>
      cases col with
      | zero => exact .inl (Option.some.inj hv).symm
      | succ col => exact .inr hv

theorem insertIdx (cells : List Text) (col : Nat) :
    Blanked cells (cells.insertIdx (col + 1) []) where
  mem _ hv := List.eq_or_mem_of_mem_insertIdx hv
  head v hv := by
    cases cells with
    | nil => cases hv
    | cons first rest => exact .inr hv

end Blanked

namespace Table

variable {t u : Table} {d : Dialect}

theorem addRow_blank (hne : t.columns ≠ []) :
    t.addRow .data [] = { t with rows := t.rows ++ [blankRow t.colCount .data] } := by
  have hvalues : t.rowValues [] = [] := by simp [rowValues, hne]
  have hgrown : t.grownFor [] = t := by
    rw [grownFor, hvalues, List.length_nil, Nat.zero_sub]
    rfl
  have hcells : fitCells t.colCount [] = List.replicate t.colCount [] := by simp [fitCells]
  have hcolumns : t.columns.zipWith (fun c v => widenTo (Text.displayWidth v) c)
      (List.replicate t.colCount []) = t.columns := by
    apply List.ext_getElem
    · simp [colCount]
    · intro j _ _
      simp [widenTo]
  rw [addRow_data, hgrown, hvalues]
  simp only [hcells, hcolumns, blankRow]

theorem addRows_blank (hne : t.columns ≠ []) (n : Nat) :
    t.addRows .data [] n =
      { t with rows := t.rows ++ List.replicate n (blankRow t.colCount .data) } := by
  induction n generalizing t with
  | zero => simp [addRows]
  | succ n ih =>
    rw [addRows, ih (by rwa [addRow_blank hne]), addRow_blank hne, List.replicate_succ]
    simp [colCount]

theorem addRows_addRows (kind : RowKind) (values : List Text) (m n : Nat) (t : Table) :
    (t.addRows kind values m).addRows kind values n = t.addRows kind values (m + n) := by
  induction m generalizing t with
  | zero => rw [Nat.zero_add, addRows]
  | succ m ih => rw [addRows, ih, Nat.succ_add, addRows]

theorem renderLines_addRows_blank (hne : t.columns ≠ []) (n : Nat) (d : Dialect) (indent : Text) :
    (t.addRows .data [] n).renderLines d indent =
      t.renderLines d indent ++
        List.replicate n (indent ++ t.rowText d (blankRow t.colCount .data)) := by
  have hwidths : (t.addRows .data [] n).renderWidths = t.renderWidths := by
    simp [addRows_blank hne, renderWidths, minWidth, hasSeparator, blankRow, Row.isSeparator]
  have htext (r : Row) : (t.addRows .data [] n).rowText d r = t.rowText d r := by
    rw [rowText.eq_def, rowText.eq_def, hwidths, addRows_blank hne]
  simp only [renderLines, htext]
  rw [addRows_blank hne, List.map_append, List.map_replicate]

theorem insertRow_eq_ok_iff_of_columned (hne : t.columns ≠ []) {i : Nat} {kind : RowKind} :
    t.insertRow i kind = .ok u ↔ i ≤ t.rowCount ∧
      u = { t with rows := t.rows.insertIdx i (blankRow t.colCount kind) }.refit := by
  have hsame : (if t.columns.isEmpty then t.addColumn else t) = t := by simp [hne]
  rw [insertRow_eq_ok_iff, hsame]

theorem alignments_setCell {i col : Nat} {value : Text} (h : t.setCell i col value = .ok u) :
    u.alignments = t.alignments := by
  obtain ⟨cells, old, -, -, -, rfl⟩ := setCell_eq_ok_iff.1 h
  apply List.ext_getElem?
  intro j
  simp only [alignments, List.getElem?_map, List.getElem?_modify]
  cases t.columns[j]? with
  | none => rfl
  | some c => by_cases hj : col = j <;> simp [hj]

theorem kinds_setCell {i col : Nat} {value : Text} (h : t.setCell i col value = .ok u) :
    u.kinds = t.kinds := by
  obtain ⟨cells, old, hr, -, -, rfl⟩ := setCell_eq_ok_iff.1 h
  obtain ⟨hi, hr⟩ := List.getElem?_eq_some_iff.1 hr
  apply List.ext_getElem?
  intro k
  simp only [kinds, List.getElem?_map, List.getElem?_set]
  by_cases hk : i = k
  · subst hk
    simp [hi, hr, Row.kind]
  · simp [hk]

theorem hasData_of_mem_cellAddresses {a : CellAddress} (ha : a ∈ t.cellAddresses) : t.HasData := by
  obtain ⟨⟨cells, hr⟩, -⟩ := mem_cellAddresses.1 ha
  exact t.hasData_iff.2 ⟨cells, List.mem_of_getElem? hr⟩

/-- A row at the end adds its cells behind all others. -/
theorem cellAddresses_addRow_blank (hne : t.columns ≠ []) :
    (t.addRow .data []).cellAddresses =
      t.cellAddresses ++ (List.range t.colCount).map fun col => ⟨t.rowCount, col⟩ := by
  rw [addRow_blank hne, cellAddresses, List.mapIdx_append, List.flatten_append]
  simp [cellAddresses, blankRow, Row.addresses, colCount, rowCount]

theorem length_cellAddresses_addRows_blank (hne : t.columns ≠ []) (n : Nat) :
    (t.addRows .data [] n).cellAddresses.length = t.cellAddresses.length + n * t.colCount := by
  induction n generalizing t with
  | zero => simp [addRows]
  | succ n ih =>
    have hne' : (t.addRow .data []).columns ≠ [] := by rwa [addRow_blank hne]
    have hcount : (t.addRow .data []).colCount = t.colCount := by rw [addRow_blank hne]; rfl
    rw [addRows, ih hne', cellAddresses_addRow_blank hne, hcount, List.length_append,
      List.length_map, List.length_range, Nat.succ_mul]
    omega

theorem getElem?_cellAddresses_addRow_blank (hne : t.columns ≠ []) {col : Nat}
    (hcol : col < t.colCount) :
    (t.addRow .data []).cellAddresses[t.cellAddresses.length + col]? =
      some ⟨(t.addRow .data []).rowCount - 1, col⟩ := by
  have hcount : (t.addRow .data []).rowCount - 1 = t.rowCount := by
    simp [addRow_blank hne, rowCount]
  rw [hcount, cellAddresses_addRow_blank hne, List.getElem?_append_right (Nat.le_add_right _ _),
    Nat.add_sub_cancel_left, List.getElem?_map, List.getElem?_range hcol]
  rfl

theorem mem_cellAddresses_setCell {i col : Nat} {value : Text}
    (h : t.setCell i col value = .ok u) : ⟨i, col⟩ ∈ u.cellAddresses := by
  obtain ⟨cells, old, hr, hcol, -, rfl⟩ := setCell_eq_ok_iff.1 h
  have hi : i < t.rows.length := (List.getElem?_eq_some_iff.1 hr).1
  refine mem_cellAddresses.2 ⟨⟨_, List.getElem?_set_self hi⟩, ?_⟩
  exact Nat.lt_of_lt_of_eq hcol (List.length_modify _ _ _).symm

theorem mem_cellAddresses_insertRow (hne : t.columns ≠ []) {i col : Nat}
    (h : t.insertRow i .data = .ok u) (hcol : col < t.colCount) : ⟨i, col⟩ ∈ u.cellAddresses := by
  obtain ⟨hi, rfl⟩ := (insertRow_eq_ok_iff_of_columned hne).1 h
  rw [mem_cellAddresses, colCount_refit]
  refine ⟨⟨List.replicate t.colCount [], ?_⟩, hcol⟩
  rw [rows_refit, List.getElem?_insertIdx_self]
  exact if_pos hi

theorem mem_cellAddresses_insertColumn {a : CellAddress} (ha : a ∈ t.cellAddresses)
    (h : t.insertColumn (a.col + 1) = .ok u) : ⟨a.row, a.col + 1⟩ ∈ u.cellAddresses := by
  obtain ⟨hcol, -, rfl⟩ := insertColumn_eq_ok_iff.1 h
  obtain ⟨⟨cells, hr⟩, -⟩ := mem_cellAddresses.1 ha
  rw [mem_cellAddresses, colCount_refit]
  refine ⟨⟨cells.insertIdx (a.col + 1) [], ?_⟩, ?_⟩
  · rw [rows_refit, List.getElem?_map, hr]
    rfl
  · exact Nat.lt_of_lt_of_eq (Nat.lt_succ_of_le hcol)
      (List.length_insertIdx_of_le_length hcol _).symm

/-- The tables that an edit of `t` leaves if it writes blanks only. -/
inductive BlankEdit (t : Table) : Table → Prop
  | none : BlankEdit t t
  | appendRow : BlankEdit t (t.addRow .data [])
  | clearCell {row col : Nat} {u : Table} (h : t.setCell row col [] = .ok u) : BlankEdit t u
  | insertRow {index : Nat} {u : Table} (h : t.insertRow index .data = .ok u) : BlankEdit t u
  | insertColumn {col : Nat} {u : Table} (hdata : t.HasData)
      (h : t.insertColumn (col + 1) = .ok u) : BlankEdit t u

namespace BlankEdit

theorem wellFormed (h : BlankEdit t u) (ht : t.WellFormed) : u.WellFormed := by
  cases h with
  | none => exact ht
  | appendRow => exact ht.addRow _ _
  | clearCell hu => exact ht.setCell hu
  | insertRow hu => exact ht.insertRow hu
  | insertColumn _ hu => exact ht.insertColumn hu

theorem startLine_eq (h : BlankEdit t u) (hne : t.columns ≠ []) : u.startLine = t.startLine := by
  cases h with
  | none => rfl
  | appendRow => exact startLine_addRow t _ _
  | clearCell hu =>
    obtain ⟨cells, old, -, -, -, rfl⟩ := setCell_eq_ok_iff.1 hu
    rfl
  | insertRow hu =>
    obtain ⟨-, rfl⟩ := (insertRow_eq_ok_iff_of_columned hne).1 hu
    rfl
  | insertColumn _ hu =>
    obtain ⟨-, -, rfl⟩ := insertColumn_eq_ok_iff.1 hu
    rfl

theorem rows_ne_nil (h : BlankEdit t u) (hne : t.columns ≠ []) (hrows : t.rows ≠ []) :
    u.rows ≠ [] := by
  cases h with
  | none => exact hrows
  | appendRow => simp [addRow_blank hne]
  | clearCell hu =>
    obtain ⟨cells, old, -, -, -, rfl⟩ := setCell_eq_ok_iff.1 hu
    simpa using hrows
  | insertRow hu =>
    obtain ⟨hi, rfl⟩ := (insertRow_eq_ok_iff_of_columned hne).1 hu
    exact List.ne_nil_of_mem ((List.mem_insertIdx hi).2 (.inl rfl))
  | insertColumn _ hu =>
    obtain ⟨-, -, rfl⟩ := insertColumn_eq_ok_iff.1 hu
    simpa using hrows

theorem exists_blanked (h : BlankEdit t u) (hne : t.columns ≠ []) {cells : List Text}
    (hcells : Row.data cells ∈ u.rows) :
    ∃ old, (old = [] ∨ Row.data old ∈ t.rows) ∧ Blanked old cells := by
  have hblank : Row.data cells = blankRow t.colCount .data →
      ∃ old, (old = [] ∨ Row.data old ∈ t.rows) ∧ Blanked old cells := by
    intro hnew
    obtain rfl := Row.data.inj hnew
    exact ⟨[], .inl rfl, .replicate _⟩
  cases h with
  | none => exact ⟨cells, .inr hcells, .refl cells⟩
  | appendRow =>
    rw [addRow_blank hne] at hcells
    rcases List.mem_append.1 hcells with hold | hnew
    · exact ⟨cells, .inr hold, .refl cells⟩
    · exact hblank (List.mem_singleton.1 hnew)
  | clearCell hu =>
    obtain ⟨old, v, hr, -, -, rfl⟩ := setCell_eq_ok_iff.1 hu
    rcases List.mem_or_eq_of_mem_set hcells with hold | hnew
    · exact ⟨cells, .inr hold, .refl cells⟩
    · obtain rfl := Row.data.inj hnew
      exact ⟨old, .inr (List.mem_of_getElem? hr), .set old _⟩
  | insertRow hu =>
    obtain ⟨-, rfl⟩ := (insertRow_eq_ok_iff_of_columned hne).1 hu
    rcases List.eq_or_mem_of_mem_insertIdx hcells with hnew | hold
    · exact hblank hnew
    · exact ⟨cells, .inr hold, .refl cells⟩
  | insertColumn _ hu =>
    obtain ⟨-, -, rfl⟩ := insertColumn_eq_ok_iff.1 hu
    obtain ⟨r, hr, heq⟩ := List.mem_map.1 hcells
    cases r with
    | separator => cases heq
    | data old =>
      obtain rfl := Row.data.inj heq
      exact ⟨old, .inr hr, .insertIdx old _⟩

theorem columnsRead (h : BlankEdit t u) (hne : t.columns ≠ [])
    (ht : t.HasData ∨ t.colCount ≤ 1) : u.HasData ∨ u.colCount ≤ 1 := by
  cases h with
  | none => exact ht
  | appendRow => exact .inl (by simp [HasData, kinds_addRow])
  | clearCell hu =>
    obtain ⟨cells, old, hr, -⟩ := setCell_eq_ok_iff.1 hu
    have hdata : t.HasData := (hasData_iff t).2 ⟨cells, List.mem_of_getElem? hr⟩
    rw [HasData, ← kinds_setCell hu] at hdata
    exact .inl hdata
  | insertRow hu =>
    obtain ⟨hi, rfl⟩ := (insertRow_eq_ok_iff_of_columned hne).1 hu
    exact .inl ((hasData_iff _).2 ⟨_, (List.mem_insertIdx hi).2 (.inl rfl)⟩)
  | insertColumn hdata hu =>
    obtain ⟨-, -, rfl⟩ := insertColumn_eq_ok_iff.1 hu
    left
    unfold HasData at hdata ⊢
    simpa [kinds] using hdata

theorem exists_alignment (h : BlankEdit t u) (hne : t.columns ≠ []) {j : Nat} {a : Alignment}
    (ha : u.alignments[j]? = some a) (hleft : a ≠ .left) :
    ∃ i, t.alignments[i]? = some a ∧ (Settled i t.kinds → Settled j u.kinds) := by
  cases h with
  | none => exact ⟨j, ha, id⟩
  | appendRow =>
    refine ⟨j, alignments_addRow_of_ne_left ha hleft, fun hs => ?_⟩
    rw [kinds_addRow]
    exact hs.append _
  | clearCell hu =>
    rw [alignments_setCell hu] at ha
    exact ⟨j, ha, fun hs => kinds_setCell hu ▸ hs⟩
  | insertRow hu =>
    obtain ⟨-, rfl⟩ := (insertRow_eq_ok_iff_of_columned hne).1 hu
    rw [alignments_refit] at ha
    refine ⟨j, ha, fun hs => hs.mono ?_⟩
    exact (List.sublist_insertIdx t.rows _ _).map Row.kind
  | @insertColumn col _ _ hu =>
    obtain ⟨hcol, -, rfl⟩ := insertColumn_eq_ok_iff.1 hu
    have hkinds :
        (t.rows.map (Row.mapCells (·.insertIdx (col + 1) []))).map Row.kind = t.kinds := by
      simp [kinds]
    rw [alignments_refit, alignments, List.map_insertIdx, List.getElem?_insertIdx] at ha
    rw [kinds_refit]
    simp only [kinds, hkinds]
    split at ha
    · exact ⟨j, ha, id⟩
    · split at ha
      · split at ha
        · exact absurd (Option.some.inj ha).symm hleft
        · cases ha
      · exact ⟨j - 1, ha, fun hs => hs.of_ne_zero (by omega) (by omega)⟩

theorem legible (h : BlankEdit t u) (hne : t.columns ≠ []) (ht : t.Legible d) : u.Legible d where
  cellTexts cells hcells v hv := by
    obtain ⟨old, hold, hblanked⟩ := h.exists_blanked hne hcells
    rcases hblanked.mem v hv with rfl | hv
    · exact cellText_nil
    · rcases hold with rfl | hold
      · cases hv
      · exact ht.cellTexts old hold v hv
  columnsRead := h.columnsRead hne ht.columnsRead
  unruled hd v rest hcells := by
    obtain ⟨old, hold, hblanked⟩ := h.exists_blanked hne hcells
    rcases hblanked.head v rfl with rfl | hv
    · exact not_ruled_nil
    · obtain ⟨others, rfl⟩ := List.head?_eq_some_iff.1 hv
      exact ht.unruled hd v others (hold.resolve_left (List.cons_ne_nil v others))
  aligned j a ha hleft := by
    obtain ⟨i, hi, hsettled⟩ := h.exists_alignment hne ha hleft
    obtain ⟨hd, hs⟩ := ht.aligned i a hi hleft
    exact ⟨hd, hsettled hs⟩

end BlankEdit

end Table

end PipeTable
