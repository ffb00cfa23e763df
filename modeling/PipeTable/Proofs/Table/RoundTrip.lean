import PipeTable.Proofs.Table.Written

/-! # Writing a table and reading it back

A well-formed table with rows comes back from its written form exactly if it is legible. One
direction is that all tables read from texts are legible. For the other the lines are read one
by one: after some rows of the table the reader holds these rows, one column until the first data
row and all columns from then on, and the alignments that the rows so far have settled.
-/

namespace PipeTable.Table

open Text

variable {t u : Table} {d : Dialect}

theorem refit_eq (t : Table) :
    t.refit =
      { columns := t.alignments.mapIdx fun j a =>
          ⟨a, max (contentWidth t.rows j) (if t.rows.any Row.isSeparator then 3 else 0)⟩
        rows := t.rows
        startLine := t.startLine } := by
  rw [refit, mk.injEq]
  refine ⟨?_, rfl, rfl⟩
  apply List.ext_getElem
  · simp [alignments]
  · intro j _ _
    simp [alignments, fittedWidth, minWidth_eq]

theorem refit_congr (hrows : u.rows = t.rows) (halign : u.alignments = t.alignments)
    (hstart : u.startLine = t.startLine) : u.refit = t.refit := by
  rw [refit_eq, refit_eq, hrows, halign, hstart]

theorem kinds_alignAs (t : Table) (cells : List Text) : (t.alignAs cells).kinds = t.kinds := rfl

theorem kinds_addLine (t : Table) (d : Dialect) (line : Text) :
    (t.addLine d line).kinds =
      t.kinds ++ [if d.isSeparator line then .separator else .data] := by
  unfold addLine
  split
  · cases d with
    | markdown => rw [addSeparator, kinds_alignAs, kinds_addRow]
    | org => rw [addSeparator, kinds_addRow]
  · rw [kinds_addRow]

theorem kinds_addLines (t : Table) (d : Dialect) (ls : List Text) :
    (ls.foldl (addLine d) t).kinds =
      t.kinds ++ ls.map fun l => if d.isSeparator l then .separator else .data := by
  induction ls generalizing t with
  | nil => simp
  | cons l ls ih => rw [List.foldl_cons, ih, kinds_addLine, List.append_assoc]; rfl

theorem kinds_of_parse {s : Text} (h : parse d s = some t) :
    t.kinds = (tableLines s).map fun l => if d.isSeparator l then .separator else .data := by
  rw [eq_of_parse h, kinds_refit, kinds_addLines]
  rfl

theorem rowCount_of_parse_run {run : List Text} (hnew : ∀ l ∈ run, '\n' ∉ l)
    (hrun : ∀ l ∈ run, isTableLine l = true) (h : parse d (joinLines run) = some t) :
    t.rowCount = run.length := by
  have hkinds := congrArg List.length (kinds_of_parse h)
  rw [tableLines_joinLines_run hnew hrun] at hkinds
  simpa [kinds, rowCount] using hkinds

theorem length_le_rowCount_of_parse {run : List Text} (hrun : ∀ l ∈ run, isTableLine l = true)
    (h : parse d (joinLines run) = some t) : run.length ≤ t.rowCount := by
  have hkinds := congrArg List.length (kinds_of_parse h)
  rw [kinds, List.length_map, List.length_map] at hkinds
  rw [rowCount, hkinds]
  exact length_le_length_tableLines hrun

theorem startLine_addLine (t : Table) (d : Dialect) (line : Text) :
    (t.addLine d line).startLine = t.startLine := by
  unfold addLine
  split
  · cases d <;> exact startLine_addRow t .separator []
  · exact startLine_addRow t .data _

theorem startLine_addLines (t : Table) (d : Dialect) (ls : List Text) :
    (ls.foldl (addLine d) t).startLine = t.startLine := by
  induction ls generalizing t with
  | nil => rfl
  | cons l ls ih => rw [List.foldl_cons, ih, startLine_addLine]

theorem startLine_of_parse {s : Text} (h : parse d s = some t) : t.startLine = 0 := by
  rw [eq_of_parse h, startLine_refit, startLine_addLines]
  rfl

/-- `u` has been read from the rows `done` of `t`. -/
structure ReadBack (d : Dialect) (t u : Table) (done : List Row) : Prop where
  rows : u.rows = done
  colCount : u.colCount =
    if RowKind.data ∈ done.map Row.kind then t.colCount else min done.length 1
  aligned : ∀ j a b, u.alignments[j]? = some a → t.alignments[j]? = some b →
    a = if d = .markdown ∧ Settled j (done.map Row.kind) then b else .left

theorem readBack_empty (d : Dialect) (t : Table) : ReadBack d t empty [] where
  rows := rfl
  colCount := rfl
  aligned j a b ha := by simp [empty, alignments] at ha

variable {done : List Row}

theorem ReadBack.colCount_le (h : ReadBack d t u done) (hpos : 0 < t.colCount) :
    u.colCount ≤ t.colCount := by
  have hcount := h.colCount
  split at hcount <;> omega

theorem map_mapCells_of_not_data {rows : List Row} (h : RowKind.data ∉ rows.map Row.kind)
    (f : List Text → List Text) : rows.map (Row.mapCells f) = rows := by
  conv_rhs => rw [← List.map_id rows]
  apply List.map_congr_left
  intro r hr
  cases r with
  | separator => rfl
  | data cells => exact absurd (List.mem_map.2 ⟨_, hr, rfl⟩) h

theorem ReadBack.rows_grownFor (h : ReadBack d t u done) {values : List Text}
    (hlen : (u.rowValues values).length ≤ u.colCount ∨ RowKind.data ∉ done.map Row.kind) :
    (u.grownFor values).rows = done := by
  rcases hlen with hlen | hdata
  · rw [grownFor, Nat.sub_eq_zero_of_le hlen]
    exact h.rows
  · rw [grownFor, rows_addColumns, h.rows]
    exact map_mapCells_of_not_data hdata _

theorem ReadBack.not_settled (h : ReadBack d t u done) {j : Nat} (hj : u.colCount ≤ j)
    (hjt : j < t.colCount) : ¬ Settled j (done.map Row.kind) := by
  intro hs
  rw [h.colCount] at hj
  by_cases hdata : RowKind.data ∈ done.map Row.kind
  · rw [if_pos hdata] at hj
    exact Nat.not_le.2 hjt hj
  · have hzero : j = 0 := by
      by_contra hj0
      exact hdata (hs.data_mem hj0)
    rw [if_neg hdata] at hj
    rw [Settled, if_pos hzero] at hs
    have hdone : 0 < done.length := by
      simpa using List.length_pos_of_mem hs
    omega

theorem ReadBack.addRow_data (h : ReadBack d t u done) (hpos : 0 < t.colCount) {cells : List Text}
    (hlen : cells.length = t.colCount) :
    ReadBack d t (u.addRow .data cells) (done ++ [.data cells]) := by
  have hne : cells ≠ [] := by
    rintro rfl
    exact absurd hlen (Nat.ne_of_lt hpos)
  have hvalues := rowValues_of_ne_nil (t := u) hne
  have hle := h.colCount_le hpos
  have hkinds : (done ++ [Row.data cells]).map Row.kind = done.map Row.kind ++ [.data] :=
    List.map_append
  refine ⟨?_, ?_, ?_⟩
  · have hrows : (u.grownFor cells).rows = done := by
      apply h.rows_grownFor
      by_cases hdata : RowKind.data ∈ done.map Row.kind
      · left
        exact Nat.le_of_eq (by rw [hvalues, hlen, h.colCount, if_pos hdata])
      · exact .inr hdata
    rw [rows_addRow, hrows, hvalues, fitCells_of_length_le, colCount_grownFor, hvalues, hlen,
      Nat.max_eq_right hle, Nat.sub_self]
    · simp
    · rw [colCount_grownFor, hvalues]
      exact Nat.le_max_right _ _
  · rw [colCount_addRow, hvalues, hlen, Nat.max_eq_right hle, hkinds, if_pos (by simp)]
  · intro j a b ha hb
    rw [hkinds, if_congr (and_congr_right fun _ => settled_append_data) rfl rfl]
    rw [alignments_addRow] at ha
    by_cases hj : j < u.alignments.length
    · rw [List.getElem?_append_left hj] at ha
      exact h.aligned j a b ha hb
    · rw [List.getElem?_append_right (Nat.not_lt.1 hj)] at ha
      have hjt := (List.getElem?_eq_some_iff.1 hb).1
      rw [length_alignments] at hj hjt
      rw [if_neg fun hs => h.not_settled (Nat.not_lt.1 hj) hjt hs.2]
      exact List.eq_of_mem_replicate (List.mem_of_getElem? ha)

theorem max_length_rowValues_nil (u : Table) :
    max u.colCount (u.rowValues []).length = max u.colCount 1 := by
  unfold rowValues colCount
  cases u.columns with
  | nil => simp
  | cons c cs => simp

theorem data_mem_append_separator :
    RowKind.data ∈ (done ++ [Row.separator]).map Row.kind ↔ RowKind.data ∈ done.map Row.kind := by
  simp [Row.kind]

theorem ReadBack.rows_addRow_separator (h : ReadBack d t u done) (hpos : 0 < t.colCount) :
    (u.addRow .separator []).rows = done ++ [.separator] := by
  have hrows : (u.grownFor []).rows = done := by
    apply h.rows_grownFor
    by_cases hdata : RowKind.data ∈ done.map Row.kind
    · left
      have hone := length_rowValues_nil u
      rw [h.colCount, if_pos hdata]
      omega
    · exact .inr hdata
  rw [rows_addRow, hrows]

theorem ReadBack.colCount_addRow_separator (h : ReadBack d t u done) (hpos : 0 < t.colCount) :
    (u.addRow .separator []).colCount =
      if RowKind.data ∈ (done ++ [Row.separator]).map Row.kind then t.colCount
      else min (done ++ [Row.separator]).length 1 := by
  rw [colCount_addRow, max_length_rowValues_nil, h.colCount,
    if_congr data_mem_append_separator rfl rfl]
  by_cases hdata : RowKind.data ∈ done.map Row.kind
  · rw [if_pos hdata, if_pos hdata]
    omega
  · rw [if_neg hdata, if_neg hdata, List.length_append, List.length_singleton]
    omega

theorem ReadBack.settled_separator (h : ReadBack d t u done) (hpos : 0 < t.colCount) {j : Nat}
    (hj : j < (u.addRow .separator []).colCount) :
    Settled j ((done ++ [Row.separator]).map Row.kind) := by
  rw [h.colCount_addRow_separator hpos, if_congr data_mem_append_separator rfl rfl] at hj
  rw [List.map_append]
  apply settled_append_separator
  by_cases hdata : RowKind.data ∈ done.map Row.kind
  · exact .inr hdata
  · rw [if_neg hdata] at hj
    exact .inl (by omega)

theorem ReadBack.addSeparator (h : ReadBack d t u done) (hne : t.columns ≠ [])
    (hsep : Row.separator ∈ t.rows) :
    ReadBack d t (u.addSeparator d (t.rowText d .separator)) (done ++ [.separator]) := by
  have hpos : 0 < t.colCount := List.length_pos_iff.2 hne
  cases d with
  | markdown =>
    refine ⟨h.rows_addRow_separator hpos, ?_, ?_⟩
    · rw [← h.colCount_addRow_separator hpos]
      exact colCount_alignAs _ _
    · intro j a b ha hb
      rw [Table.addSeparator, alignments_alignAs, List.getElem?_mapIdx] at ha
      obtain ⟨before, hbefore, rfl⟩ := Option.map_eq_some_iff.1 ha
      have hj := (List.getElem?_eq_some_iff.1 hbefore).1
      rw [length_alignments] at hj
      rw [alignment_rowText_separator hsep hne, hb, if_pos ⟨rfl, h.settled_separator hpos hj⟩]
      rfl
  | org =>
    refine ⟨h.rows_addRow_separator hpos, h.colCount_addRow_separator hpos, ?_⟩
    intro j a b ha hb
    rw [if_neg fun hd => Dialect.noConfusion hd.1]
    by_contra hleft
    have hold := h.aligned j a b (alignments_addRow_of_ne_left ha hleft) hb
    rw [if_neg fun hd => Dialect.noConfusion hd.1] at hold
    exact hleft hold

/-- Reading the next row of a table from its line. -/
theorem ReadBack.addLine (h : ReadBack d t u done) (ht : t.WellFormed) (hl : t.RowsLegible d)
    {r : Row} (hr : r ∈ t.rows) : ReadBack d t (u.addLine d (t.rowText d r)) (done ++ [r]) := by
  have hne : t.columns ≠ [] := ht.columned (List.ne_nil_of_mem hr)
  have hpos : 0 < t.colCount := List.length_pos_iff.2 hne
  cases r with
  | separator =>
    rw [Table.addLine, if_pos (isSeparator_rowText_separator hne hr)]
    exact h.addSeparator hne hr
  | data cells =>
    have hlen := ht.rectangular cells hr
    have hdata : ¬ d.isSeparator (t.rowText d (.data cells)) = true := by
      obtain ⟨v, rest, rfl⟩ : ∃ v rest, cells = v :: rest :=
        List.exists_cons_of_length_pos (hlen ▸ hpos)
      rw [isSeparator_rowText_data hne]
      exact fun hruled => hl.unruled hruled.1 v rest hr hruled.2
    rw [Table.addLine, if_neg hdata, splitCells_rowText_data hlen hne (hl.cellTexts cells hr)]
    exact h.addRow_data hpos hlen

theorem ReadBack.addLines (h : ReadBack d t u done) (ht : t.WellFormed) (hl : t.RowsLegible d)
    {rest : List Row} (hrest : ∀ r ∈ rest, r ∈ t.rows) :
    ReadBack d t ((rest.map (t.rowText d)).foldl (Table.addLine d) u) (done ++ rest) := by
  induction rest generalizing u done with
  | nil => simpa using h
  | cons r rest ih =>
    have hnext := ih (h.addLine ht hl (hrest r (by simp)))
      fun s hs => hrest s (List.mem_cons_of_mem _ hs)
    simpa using hnext

theorem ReadBack.refit (h : ReadBack d t u done) : ReadBack d t u.refit done where
  rows := h.rows
  colCount := by
    rw [colCount_refit]
    exact h.colCount
  aligned := by
    rw [alignments_refit]
    exact h.aligned

theorem ReadBack.colCount_eq (h : ReadBack d t u t.rows) (hl : t.RowsLegible d)
    (hpos : 0 < t.colCount) (hrows : t.rows ≠ []) : u.colCount = t.colCount := by
  rw [h.colCount]
  rcases hl.columnsRead with hdata | hone
  · exact if_pos hdata
  · have hlen : 0 < t.rows.length := List.length_pos_iff.2 hrows
    split <;> omega

theorem ReadBack.alignments_eq (h : ReadBack d t u t.rows) (hl : t.Legible d)
    (hcount : u.colCount = t.colCount) : u.alignments = t.alignments := by
  apply List.ext_getElem
  · rw [length_alignments, length_alignments, hcount]
  · intro j hj hj'
    have haligned := h.aligned j _ _ (List.getElem?_eq_getElem hj) (List.getElem?_eq_getElem hj')
    rw [haligned]
    by_cases hleft : t.alignments[j] = .left
    · rw [hleft, ite_self]
    · exact if_pos (hl.aligned j _ (List.getElem?_eq_getElem hj') hleft)

theorem newline_not_mem_cells (h : ∀ cells, Row.data cells ∈ t.rows → ∀ v ∈ cells, CellText v) :
    ∀ r ∈ t.rows, ∀ v ∈ r.cells, '\n' ∉ v := by
  intro r hr v hv
  cases r with
  | data cells => exact (h cells hr v hv).2.2
  | separator => cases hv

section Written

variable {indent : Text}

theorem render_ne_nil (hrows : t.rows ≠ []) (hblank : Blank indent) (hline : '\n' ∉ indent)
    (hcells : ∀ r ∈ t.rows, ∀ v ∈ r.cells, '\n' ∉ v) : t.render d indent ≠ [] := by
  intro hnil
  have h := tableLines_render (d := d) hblank hline hcells
  rw [hnil] at h
  exact hrows (List.map_eq_nil_iff.1 h.symm)

theorem exists_readBack (ht : t.WellFormed) (hl : t.RowsLegible d) (hrows : t.rows ≠ [])
    (hblank : Blank indent) (hline : '\n' ∉ indent) :
    ∃ u, parse d (t.render d indent) = some u ∧ ReadBack d t u t.rows := by
  have hcells := newline_not_mem_cells hl.cellTexts
  refine ⟨_, parse_of_ne_nil (render_ne_nil hrows hblank hline hcells), ReadBack.refit ?_⟩
  rw [tableLines_render hblank hline hcells]
  exact (readBack_empty d t).addLines ht hl fun r hr => hr

theorem parse_render_of_legible (ht : t.WellFormed) (hl : t.Legible d) (hrows : t.rows ≠ [])
    (hblank : Blank indent) (hline : '\n' ∉ indent) :
    parse d (t.render d indent) = some { t with startLine := 0 } := by
  have hpos : 0 < t.colCount := List.length_pos_iff.2 (ht.columned hrows)
  obtain ⟨u, hu, hread⟩ := exists_readBack ht hl.toRowsLegible hrows hblank hline
  have hcount := hread.colCount_eq hl.toRowsLegible hpos hrows
  have hfit : u.refit = ({ t with startLine := 0 } : Table).refit :=
    refit_congr hread.rows (hread.alignments_eq hl hcount) (startLine_of_parse hu)
  rw [(refit_eq_self_iff u).2 (wellFormed_of_parse hu).fitted,
    (refit_eq_self_iff _).2 (ht.withStartLine 0).fitted] at hfit
  rw [hu, hfit]

/-- A table that has been read back is the written one exactly if that was legible. -/
theorem readBack_eq_iff_legible (ht : t.WellFormed) (hrows : t.rows ≠ []) (hblank : Blank indent)
    (hline : '\n' ∉ indent) (hu : parse d (t.render d indent) = some u) :
    u.rows = t.rows ∧ u.colCount = t.colCount ∧ u.alignments = t.alignments ↔ t.Legible d := by
  constructor
  · rintro ⟨hrows', hcount, halign⟩
    exact (legible_of_parse hu).congr hrows' hcount halign
  · intro hl
    rw [parse_render_of_legible ht hl hrows hblank hline, Option.some.injEq] at hu
    rw [← hu]
    exact ⟨rfl, rfl, rfl⟩

theorem kind_readBack_eq_iff (ht : t.WellFormed) {r : Row} (hr : r ∈ t.rows) :
    (if d.isSeparator (t.rowText d r) then RowKind.separator else .data) = r.kind ↔
      (d = .markdown → ∀ v rest, r = .data (v :: rest) → ¬ Ruled v) := by
  have hne : t.columns ≠ [] := ht.columned (List.ne_nil_of_mem hr)
  cases r with
  | separator => simp [isSeparator_rowText_separator hne hr, Row.kind]
  | data cells =>
    obtain ⟨v, rest, rfl⟩ : ∃ v rest, cells = v :: rest :=
      List.exists_cons_of_length_pos (ht.rectangular cells hr ▸ List.length_pos_iff.2 hne)
    have hsep : d.isSeparator (t.rowText d (.data (v :: rest))) = true ↔
        d = .markdown ∧ Ruled v := isSeparator_rowText_data hne
    constructor
    · intro hkind hd w ws heq hruled
      cases heq
      rw [if_pos (hsep.2 ⟨hd, hruled⟩)] at hkind
      cases hkind
    · intro hunruled
      rw [if_neg fun h => hunruled (hsep.1 h).1 v rest rfl (hsep.1 h).2]
      rfl

/-- The kinds of the rows come back exactly if no data row looks like a rule. -/
theorem kinds_readBack_eq_iff (ht : t.WellFormed) (hblank : Blank indent) (hline : '\n' ∉ indent)
    (hcells : ∀ r ∈ t.rows, ∀ v ∈ r.cells, '\n' ∉ v)
    (hu : parse d (t.render d indent) = some u) :
    u.kinds = t.kinds ↔
      (d = .markdown → ∀ v rest, Row.data (v :: rest) ∈ t.rows → ¬ Ruled v) := by
  rw [kinds_of_parse hu, tableLines_render hblank hline hcells, List.map_map, kinds,
    List.map_inj_left]
  constructor
  · intro h hd v rest hr
    exact (kind_readBack_eq_iff ht hr).1 (h _ hr) hd v rest rfl
  · intro h r hr
    exact (kind_readBack_eq_iff ht hr).2 fun hd v rest hv => h hd v rest (hv ▸ hr)

theorem rows_eq_of_kinds_eq (hkinds : u.kinds = t.kinds) (hdata : ¬ t.HasData) :
    u.rows = t.rows := by
  have hrules (w : Table) (hw : ¬ w.HasData) :
      w.rows = List.replicate w.kinds.length .separator := by
    refine List.eq_replicate_iff.2 ⟨(List.length_map _).symm, fun r hr => ?_⟩
    cases r with
    | separator => rfl
    | data cells => exact absurd ((hasData_iff w).2 ⟨cells, hr⟩) hw
  have hu : ¬ u.HasData := by
    unfold HasData at hdata ⊢
    rwa [hkinds]
  rw [hrules t hdata, hrules u hu, hkinds]

theorem rows_readBack (ht : t.WellFormed) (hrows : t.rows ≠ []) (hblank : Blank indent)
    (hline : '\n' ∉ indent) (hcells : ∀ cells, Row.data cells ∈ t.rows → ∀ v ∈ cells, CellText v)
    (hunruled : d = .markdown → ∀ v rest, Row.data (v :: rest) ∈ t.rows → ¬ Ruled v)
    (hu : parse d (t.render d indent) = some u) : u.rows = t.rows := by
  by_cases hdata : t.HasData
  · obtain ⟨v, hv, hread⟩ := exists_readBack ht ⟨hcells, .inl hdata, hunruled⟩ hrows hblank hline
    obtain rfl : u = v := Option.some.inj (hu.symm.trans hv)
    exact hread.rows
  · refine rows_eq_of_kinds_eq ?_ hdata
    exact (kinds_readBack_eq_iff ht hblank hline (newline_not_mem_cells hcells) hu).2 hunruled

theorem colCount_readBack_eq_iff (ht : t.WellFormed) (hrows : t.rows ≠ []) (hblank : Blank indent)
    (hline : '\n' ∉ indent) (hcells : ∀ cells, Row.data cells ∈ t.rows → ∀ v ∈ cells, CellText v)
    (hunruled : d = .markdown → ∀ v rest, Row.data (v :: rest) ∈ t.rows → ¬ Ruled v)
    (hu : parse d (t.render d indent) = some u) :
    u.colCount = t.colCount ↔ t.HasData ∨ t.colCount ≤ 1 := by
  constructor
  · intro hcount
    have hread := (legible_of_parse hu).columnsRead
    unfold HasData kinds at hread ⊢
    rwa [rows_readBack ht hrows hblank hline hcells hunruled hu, hcount] at hread
  · intro hcolumns
    have hpos : 0 < t.colCount := List.length_pos_iff.2 (ht.columned hrows)
    have hl : t.RowsLegible d := ⟨hcells, hcolumns, hunruled⟩
    obtain ⟨v, hv, hread⟩ := exists_readBack ht hl hrows hblank hline
    obtain rfl : u = v := Option.some.inj (hu.symm.trans hv)
    exact hread.colCount_eq hl hpos hrows

end Written

/-- A reachable table comes back from its written form exactly if its cells are trimmed and hold
neither bar nor line feed, it has a data row or is one column wide, and its dialect can tell its
alignments and its data rows from what stands in the lines. -/
theorem parse_render_eq_some_iff (ht : Reachable t) (hrows : t.rows ≠ [])
    (hstart : t.startLine = 0) (d : Dialect) {indent : Text}
    (hindent : ∀ c ∈ indent, isBlank c = true ∧ c ≠ '\n') :
    parse d (t.render d indent) = some t ↔
      (∀ cells, .data cells ∈ t.rows → ∀ v ∈ cells, trim v = v ∧ '|' ∉ v ∧ '\n' ∉ v) ∧
      ((∃ cells, .data cells ∈ t.rows) ∨ t.colCount = 1) ∧
      (d = .org → ∀ c ∈ t.columns, c.alignment = .left) ∧
      (d = .markdown → ∀ v rest, .data (v :: rest) ∈ t.rows →
        ¬ (['-'] <+: compact v ∨ [':', '-'] <+: compact v)) ∧
      (d = .markdown → ∀ j c, t.columns[j]? = some c → c.alignment ≠ .left →
        if j = 0 then RowKind.separator ∈ t.kinds
        else [RowKind.data, RowKind.separator].Sublist t.kinds) := by
  have hwf := ht.wellFormed
  have hpos : 0 < t.colCount := List.length_pos_iff.2 (hwf.columned hrows)
  have hblank : Blank indent := fun c hc => (hindent c hc).1
  have hline : '\n' ∉ indent := fun hc => (hindent _ hc).2 rfl
  have hround : parse d (t.render d indent) = some t ↔ t.Legible d := by
    constructor
    · exact legible_of_parse
    · intro hl
      rw [parse_render_of_legible hwf hl hrows hblank hline, ← hstart]
  rw [hround]
  constructor
  · intro hl
    have haligned : ∀ j c, t.columns[j]? = some c → c.alignment ≠ .left →
        d = .markdown ∧ Settled j t.kinds := by
      intro j c hc
      exact hl.aligned j _ (by rw [alignments, List.getElem?_map, hc]; rfl)
    refine ⟨hl.cellTexts, ?_, ?_, hl.unruled, fun _ j c hc hleft => (haligned j c hc hleft).2⟩
    · exact hl.columnsRead.imp (hasData_iff t).1 fun hone => Nat.le_antisymm hone hpos
    · intro hd c hc
      obtain ⟨j, hj⟩ := List.getElem?_of_mem hc
      by_contra hleft
      exact Dialect.noConfusion (hd.symm.trans (haligned j c hj hleft).1)
  · rintro ⟨hcells, hcolumns, horg, hruled, hsettled⟩
    refine ⟨⟨hcells, ?_, hruled⟩, ?_⟩
    · exact hcolumns.imp (hasData_iff t).2 Nat.le_of_eq
    · intro j a ha hleft
      rw [alignments, List.getElem?_map] at ha
      obtain ⟨c, hc, rfl⟩ := Option.map_eq_some_iff.1 ha
      cases d with
      | markdown => exact ⟨rfl, hsettled rfl j c hc hleft⟩
      | org => exact absurd (horg rfl c (List.mem_of_getElem? hc)) hleft

/-- The right alignment of a new table's second column stands below a data row, so it is kept. -/
theorem parse_render_withSize_right :
    ∃ t, (withSize 2 2).setAlignment 1 .right = .ok t ∧ t.alignments = [.left, .right] ∧
      parse .markdown (t.render .markdown [' ']) = some t := by
  have ht : Reachable _ := .setAlignment (.withSize 2 2)
    (show (withSize 2 2).setAlignment 1 .right = .ok _ from rfl)
  have hblank : ∀ cells, Row.data cells ∈ (withSize 2 2).rows → cells = [[], []] := by
    intro cells hcells
    have hrows : (withSize 2 2).rows = [.data [[], []], .separator, .data [[], []]] := rfl
    rw [hrows] at hcells
    simpa using hcells
  refine ⟨_, rfl, rfl, ?_⟩
  have hindent : ∀ c ∈ [' '], isBlank c = true ∧ c ≠ '\n' := by simp [isBlank_space]
  apply (parse_render_eq_some_iff ht (by decide) rfl .markdown hindent).2
  refine ⟨?_, .inl ⟨_, .head _⟩, by decide, ?_, ?_⟩
  · intro cells hcells
    rw [hblank cells hcells]
    decide
  · intro _ v rest hcells
    obtain ⟨rfl, -⟩ := List.cons.inj (hblank _ hcells)
    decide
  · intro _ j c _ _
    split <;> decide

end PipeTable.Table
