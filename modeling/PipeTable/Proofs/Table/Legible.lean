import PipeTable.Proofs.Table.Invariant
import PipeTable.Proofs.Table.Line

/-! # Legible tables

What a table must be like to come from a text: its cells are trimmed and hold no marks of the
layout, columns beyond the first were asked for by a data row, and its alignments were read from
separator rows. A rule before all data rows tells of the first column alone, since the others
do not exist yet when it is read. Every line that is read keeps this, so every table that is
read from a text is legible.
-/

namespace PipeTable

open Text

/-- Rows of these kinds fix the alignment of column `j`: any separator row does so for the first
column, one below a data row for all of them. -/
def Settled (j : Nat) (kinds : List RowKind) : Prop :=
  if j = 0 then RowKind.separator ∈ kinds
  else [RowKind.data, RowKind.separator].Sublist kinds

instance (j : Nat) (kinds : List RowKind) : Decidable (Settled j kinds) := by
  unfold Settled
  infer_instance

theorem Settled.append {j : Nat} {ks : List RowKind} (h : Settled j ks) (ls : List RowKind) :
    Settled j (ks ++ ls) := by
  unfold Settled at h ⊢
  by_cases hj : j = 0
  · rw [if_pos hj] at h ⊢
    exact List.mem_append_left ls h
  · rw [if_neg hj] at h ⊢
    exact h.trans (List.sublist_append_left ks ls)

theorem settled_append_data {j : Nat} {ks : List RowKind} :
    Settled j (ks ++ [.data]) ↔ Settled j ks := by
  refine ⟨fun h => ?_, fun h => h.append _⟩
  unfold Settled at h ⊢
  by_cases hj : j = 0
  · rw [if_pos hj] at h ⊢
    simpa using h
  · rw [if_neg hj] at h ⊢
    rw [← List.reverse_sublist, List.reverse_append] at h
    rw [← List.reverse_sublist]
    simpa [List.sublist_cons_iff] using h

theorem settled_append_separator {j : Nat} {ks : List RowKind} (h : j = 0 ∨ RowKind.data ∈ ks) :
    Settled j (ks ++ [.separator]) := by
  unfold Settled
  split
  · simp
  · next hj =>
    have hdata : RowKind.data ∈ ks := h.resolve_left hj
    exact (List.singleton_sublist.2 hdata).append (List.Sublist.refl [RowKind.separator])

theorem Settled.data_mem {j : Nat} {ks : List RowKind} (h : Settled j ks) (hj : j ≠ 0) :
    RowKind.data ∈ ks := by
  rw [Settled, if_neg hj] at h
  exact h.subset (by simp)

namespace Table

def HasData (t : Table) : Prop := RowKind.data ∈ t.kinds

/-- The rows of the table can be told apart and cut into their cells when they are written. -/
structure RowsLegible (d : Dialect) (t : Table) : Prop where
  cellTexts : ∀ cells, Row.data cells ∈ t.rows → ∀ v ∈ cells, CellText v
  columnsRead : t.HasData ∨ t.colCount ≤ 1
  unruled : d = .markdown → ∀ v rest, Row.data (v :: rest) ∈ t.rows → ¬ Ruled v

/-- Besides, every alignment other than the one to the left stands in a separator row. -/
structure Legible (d : Dialect) (t : Table) : Prop extends RowsLegible d t where
  aligned : ∀ j a, t.alignments[j]? = some a → a ≠ .left → d = .markdown ∧ Settled j t.kinds

theorem hasData_iff (t : Table) : t.HasData ↔ ∃ cells, Row.data cells ∈ t.rows := by
  unfold HasData kinds
  rw [List.mem_map]
  constructor
  · rintro ⟨r, hr, hkind⟩
    cases r with
    | data cells => exact ⟨cells, hr⟩
    | separator => cases hkind
  · exact fun ⟨cells, hcells⟩ => ⟨.data cells, hcells, rfl⟩

theorem legible_empty (d : Dialect) : empty.Legible d where
  cellTexts cells h := by simp [empty] at h
  columnsRead := .inr (Nat.zero_le 1)
  unruled _ v rest h := by simp [empty] at h
  aligned j a h := by simp [empty, alignments] at h

variable {t : Table} {d : Dialect}

theorem Legible.congr (h : t.Legible d) {u : Table} (hrows : t.rows = u.rows)
    (hcount : t.colCount = u.colCount) (halign : t.alignments = u.alignments) : u.Legible d := by
  have hkinds : t.kinds = u.kinds := congrArg (List.map Row.kind) hrows
  refine ⟨⟨?_, ?_, ?_⟩, ?_⟩
  · exact hrows ▸ h.cellTexts
  · have hread := h.columnsRead
    unfold HasData at hread ⊢
    rwa [hkinds, hcount] at hread
  · exact hrows ▸ h.unruled
  · exact hkinds ▸ halign ▸ h.aligned

theorem mem_rows_grownFor {values cells : List Text}
    (h : Row.data cells ∈ (t.grownFor values).rows) :
    ∃ old n, Row.data old ∈ t.rows ∧ cells = old ++ List.replicate n [] := by
  rw [grownFor, rows_addColumns] at h
  obtain ⟨r, hr, heq⟩ := List.mem_map.1 h
  cases r with
  | separator => cases heq
  | data old => exact ⟨old, _, hr, (Row.data.inj heq).symm⟩

theorem RowsLegible.cellText_grownFor (h : t.RowsLegible d) {values cells : List Text}
    (hcells : Row.data cells ∈ (t.grownFor values).rows) : ∀ v ∈ cells, CellText v := by
  obtain ⟨old, n, hold, rfl⟩ := mem_rows_grownFor hcells
  intro v hv
  rcases List.mem_append.1 hv with hv | hv
  · exact h.cellTexts old hold v hv
  · rw [List.eq_of_mem_replicate hv]
    exact cellText_nil

theorem RowsLegible.unruled_grownFor (h : t.RowsLegible d) (hd : d = .markdown) {values : List Text}
    {v : Text} {rest : List Text} (hcells : Row.data (v :: rest) ∈ (t.grownFor values).rows) :
    ¬ Ruled v := by
  obtain ⟨old, n, hold, heq⟩ := mem_rows_grownFor hcells
  cases old with
  | nil =>
    have hv : v = [] := List.eq_of_mem_replicate (heq ▸ List.mem_cons_self)
    exact hv ▸ not_ruled_nil
  | cons first others =>
    obtain ⟨rfl, -⟩ := List.cons.inj heq
    exact h.unruled hd v others hold

theorem alignments_addRow_of_ne_left {kind : RowKind} {values : List Text} {j : Nat}
    {a : Alignment} (h : (t.addRow kind values).alignments[j]? = some a) (ha : a ≠ .left) :
    t.alignments[j]? = some a := by
  rw [alignments_addRow] at h
  by_cases hj : j < t.alignments.length
  · rwa [List.getElem?_append_left hj] at h
  · rw [List.getElem?_append_right (Nat.not_lt.1 hj)] at h
    exact absurd (List.eq_of_mem_replicate (List.mem_of_getElem? h)) ha

theorem Legible.aligned_addRow (h : t.Legible d) (kind : RowKind) (values : List Text) (j : Nat)
    (a : Alignment) (ha : (t.addRow kind values).alignments[j]? = some a) (hleft : a ≠ .left) :
    d = .markdown ∧ Settled j (t.addRow kind values).kinds := by
  obtain ⟨hd, hsettled⟩ := h.aligned j a (alignments_addRow_of_ne_left ha hleft) hleft
  rw [kinds_addRow]
  exact ⟨hd, hsettled.append _⟩

theorem rowValues_of_ne_nil {values : List Text} (h : values ≠ []) :
    t.rowValues values = values := by
  cases values with
  | nil => exact absurd rfl h
  | cons v vs => rfl

theorem fitCells_grownFor {values : List Text} (h : values ≠ []) :
    ∃ n, fitCells (t.grownFor values).colCount (t.rowValues values) =
      values ++ List.replicate n [] := by
  have hlen : values.length ≤ (t.grownFor values).colCount := by
    rw [colCount_grownFor, rowValues_of_ne_nil h]
    exact Nat.le_max_right _ _
  exact ⟨_, by rw [rowValues_of_ne_nil h, fitCells_of_length_le hlen]⟩

theorem Legible.addRow_data (h : t.Legible d) {values : List Text} (hne : values ≠ [])
    (hcells : ∀ v ∈ values, CellText v)
    (hfirst : d = .markdown → ∀ v rest, values = v :: rest → ¬ Ruled v) :
    (t.addRow .data values).Legible d where
  cellTexts cells hmem := by
    rw [rows_addRow] at hmem
    rcases List.mem_append.1 hmem with hold | hnew
    · exact h.cellText_grownFor hold
    · obtain ⟨n, hfit⟩ := fitCells_grownFor (t := t) hne
      rw [List.mem_singleton, Row.data.injEq, hfit] at hnew
      subst hnew
      intro v hv
      rcases List.mem_append.1 hv with hv | hv
      · exact hcells v hv
      · rw [List.eq_of_mem_replicate hv]
        exact cellText_nil
  columnsRead := .inl (by simp [HasData, kinds_addRow])
  unruled hd v rest hmem := by
    rw [rows_addRow] at hmem
    rcases List.mem_append.1 hmem with hold | hnew
    · exact h.unruled_grownFor hd hold
    · obtain ⟨n, hfit⟩ := fitCells_grownFor (t := t) hne
      rw [List.mem_singleton, Row.data.injEq, hfit] at hnew
      obtain ⟨first, others, rfl⟩ := List.exists_cons_of_ne_nil hne
      obtain ⟨rfl, -⟩ := List.cons.inj hnew
      exact hfirst hd v others rfl
  aligned := h.aligned_addRow .data values

theorem length_rowValues_nil (t : Table) : (t.rowValues []).length ≤ 1 := by
  unfold rowValues
  split <;> simp

theorem Legible.addRow_separator (h : t.Legible d) : (t.addRow .separator []).Legible d where
  cellTexts cells hmem := by
    rw [rows_addRow] at hmem
    rcases List.mem_append.1 hmem with hold | hnew
    · exact h.cellText_grownFor hold
    · simp at hnew
  columnsRead := by
    rw [HasData, kinds_addRow, colCount_addRow]
    have hone := length_rowValues_nil t
    rcases h.columnsRead with hdata | hcount
    · exact .inl (List.mem_append_left _ hdata)
    · exact .inr (Nat.max_le.2 ⟨hcount, hone⟩)
  unruled hd v rest hmem := by
    rw [rows_addRow] at hmem
    rcases List.mem_append.1 hmem with hold | hnew
    · exact h.unruled_grownFor hd hold
    · simp at hnew
  aligned := h.aligned_addRow .separator []

theorem alignments_alignAs (t : Table) (cells : List Text) :
    (t.alignAs cells).alignments =
      t.alignments.mapIdx fun j a => (cells[j]?.bind cellAlignment).getD a := by
  apply List.ext_getElem <;> simp [alignAs, alignments]

/-- When a separator row has just been read, every column there is may be aligned by it. -/
theorem settled_of_addRow_separator (h : t.RowsLegible d) {j : Nat}
    (hj : j < (t.addRow .separator []).colCount) : Settled j (t.addRow .separator []).kinds := by
  rw [kinds_addRow]
  apply settled_append_separator
  rcases h.columnsRead with hdata | hcount
  · exact .inr hdata
  · rw [colCount_addRow] at hj
    have hone := length_rowValues_nil t
    exact .inl (by omega)

theorem colCount_alignAs (t : Table) (cells : List Text) :
    (t.alignAs cells).colCount = t.colCount :=
  List.length_mapIdx

theorem Legible.alignAs (h : t.Legible .markdown) (cells : List Text)
    (hsettled : ∀ j, j < t.colCount → Settled j t.kinds) : (t.alignAs cells).Legible .markdown where
  cellTexts := h.cellTexts
  columnsRead := by
    rw [colCount_alignAs]
    exact h.columnsRead
  unruled := h.unruled
  aligned j a ha _ := by
    have hj := (List.getElem?_eq_some_iff.1 ha).1
    rw [length_alignments, colCount_alignAs] at hj
    exact ⟨rfl, hsettled j hj⟩

theorem Legible.addLine (h : t.Legible d) {rest : Text} (hrest : '\n' ∉ rest) :
    (t.addLine d (bar :: rest)).Legible d := by
  unfold Table.addLine
  split
  · cases d with
    | markdown =>
      apply h.addRow_separator.alignAs
      exact fun j hj => settled_of_addRow_separator h.toRowsLegible hj
    | org => exact h.addRow_separator
  · next hsep =>
    apply h.addRow_data (splitCells_ne_nil _)
    · exact fun v hv => cellText_of_mem_splitCells hrest hv
    · rintro rfl v others hv hruled
      exact hsep ((isSeparator_markdown_iff rest).2 (ruled_of_first_cell hv hruled))

theorem Legible.addLines (h : t.Legible d) {ls : List Text}
    (hls : ∀ l ∈ ls, ∃ rest, l = bar :: rest ∧ '\n' ∉ rest) :
    (ls.foldl (Table.addLine d) t).Legible d := by
  induction ls generalizing t with
  | nil => exact h
  | cons l ls ih =>
    obtain ⟨rest, rfl, hrest⟩ := hls l (by simp)
    exact ih (h.addLine hrest) fun m hm => hls m (List.mem_cons_of_mem _ hm)

@[simp] theorem alignments_refit (t : Table) : t.refit.alignments = t.alignments :=
  map_alignment_refit t

@[simp] theorem kinds_refit (t : Table) : t.refit.kinds = t.kinds := rfl

theorem Legible.refit (h : t.Legible d) : t.refit.Legible d :=
  h.congr rfl (colCount_refit t).symm (alignments_refit t).symm

theorem legible_of_parse {s : Text} (h : parse d s = some t) : t.Legible d := by
  rw [eq_of_parse h]
  exact ((legible_empty d).addLines fun _ hl => mem_tableLines hl).refit

end Table

end PipeTable
