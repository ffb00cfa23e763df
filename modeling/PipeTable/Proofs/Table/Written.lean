import PipeTable.Proofs.Table.Legible
import PipeTable.Table.Printer

/-! # What a written row is read as

A written line starts and ends with a bar, so the indentation in front of it is trimmed away. A
data row is cut into its padded cells. It is taken for a separator in one case only: in Markdown,
when its first cell looks like a rule. A written separator is always a separator, and in Markdown
its cells encode the alignments of the columns.
-/

namespace PipeTable

open Text

theorem exists_of_mem_zipWith {α β γ : Type} {f : α → β → γ} {as : List α} {bs : List β} {c : γ}
    (h : c ∈ as.zipWith f bs) : ∃ a ∈ as, ∃ b ∈ bs, c = f a b := by
  obtain ⟨i, hi⟩ := List.getElem?_of_mem h
  obtain ⟨a, b, ha, hb, rfl⟩ := List.getElem?_zipWith_eq_some.1 hi
  exact ⟨a, List.mem_of_getElem? ha, b, List.mem_of_getElem? hb, rfl⟩

/-- A cell between its bars. -/
def paddedCell (width : Nat) (value : Text) : Text := ' ' :: pad width value ++ [' ']

/-- A rule over one column between its bars. -/
def ruleCell (c : Column) (width : Nat) : Text :=
  ' ' :: (c.alignment.marks.1 :: List.replicate (width - 2) '-' ++ [c.alignment.marks.2]) ++ [' ']

theorem dataCellText_eq (width : Nat) (value : Text) :
    dataCellText width value = paddedCell width value ++ [bar] := by
  simp [dataCellText, paddedCell]

theorem ruleCellText_eq (c : Column) (width : Nat) :
    ruleCellText c width = ruleCell c width ++ [bar] := by
  simp [ruleCellText, ruleCell]

theorem trim_paddedCell (width : Nat) (value : Text) :
    trim (paddedCell width value) = trim value := by
  have hspace : Blank [' '] := blank_replicate_space 1
  have heq : paddedCell width value =
      [' '] ++ (value ++ (padding ' ' width value ++ [' '])) := by
    simp [paddedCell, pad, padWith]
  have hpadding : Blank (padding ' ' width value ++ [' ']) :=
    (blank_replicate_space _).append hspace
  rw [heq, trim_append_left hspace, trim_append_right hpadding]

theorem compact_paddedCell (width : Nat) (value : Text) :
    compact (paddedCell width value) = compact value := by
  rw [← compact_trim, trim_paddedCell, compact_trim]

theorem length_paddedCell (width : Nat) (value : Text) :
    (paddedCell width value).length = value.length + (width - displayWidth value) + 2 := by
  simp [paddedCell, pad, padWith, padding, Nat.add_assoc]

theorem mem_paddedCell {c : Char} {width : Nat} {value : Text} (h : c ∈ paddedCell width value) :
    c = ' ' ∨ c ∈ value := by
  simp only [paddedCell, pad, padWith, padding, List.cons_append, List.mem_cons,
    List.mem_append, List.mem_replicate, List.not_mem_nil, or_false] at h
  rcases h with h | (h | h) | h
  · exact .inl h
  · exact .inr h
  · exact .inl h.2
  · exact .inl h

theorem isBlank_marks (a : Alignment) : isBlank a.marks.1 = false ∧ isBlank a.marks.2 = false := by
  cases a <;> decide

theorem trim_ruleCell (c : Column) (width : Nat) :
    trim (ruleCell c width) =
      c.alignment.marks.1 :: List.replicate (width - 2) '-' ++ [c.alignment.marks.2] := by
  have hspace : Blank [' '] := blank_replicate_space 1
  have hmarks := isBlank_marks c.alignment
  have heq : ruleCell c width = [' '] ++
      ((c.alignment.marks.1 :: List.replicate (width - 2) '-' ++ [c.alignment.marks.2]) ++ [' ']) :=
    rfl
  rw [heq, trim_append_left hspace, trim_append_right hspace]
  apply trim_of_ends
  · intro m hm
    simp only [List.cons_append, List.head?_cons, Option.some.injEq] at hm
    exact hm ▸ hmarks.1
  · intro m hm
    rw [List.getLast?_concat, Option.some.injEq] at hm
    exact hm ▸ hmarks.2

theorem ruled_ruleCell (c : Column) {width : Nat} (h : 3 ≤ width) : Ruled (ruleCell c width) := by
  rw [← ruled_trim, trim_ruleCell]
  obtain ⟨n, rfl⟩ : ∃ n, width = n + 3 := ⟨width - 3, by omega⟩
  have hdashes : n + 3 - 2 = n + 1 := by omega
  rw [hdashes, List.replicate_succ]
  have hdash : isBlank '-' = false := by decide
  have hcolon : isBlank ':' = false := by decide
  unfold Ruled
  cases c.alignment with
  | left => exact .inl (by simp [Alignment.marks, compact_cons_solid hdash])
  | right => exact .inl (by simp [Alignment.marks, compact_cons_solid hdash])
  | center =>
    exact .inr (by simp [Alignment.marks, compact_cons_solid hdash, compact_cons_solid hcolon])

theorem cellAlignment_ruleCell (c : Column) {width : Nat} (h : 3 ≤ width) :
    cellAlignment (trim (ruleCell c width)) = some c.alignment := by
  rw [trim_ruleCell]
  have hlen : ¬ width - 2 + 1 + 1 < 3 := by omega
  cases c.alignment <;> simp [cellAlignment, Alignment.marks, hlen, List.getLast?_cons]

theorem mem_ruleCell {m : Char} {c : Column} {width : Nat} (h : m ∈ ruleCell c width) :
    m = ' ' ∨ m = '-' ∨ m = ':' := by
  simp only [ruleCell, List.cons_append, List.mem_cons, List.mem_append, List.mem_replicate,
    List.not_mem_nil, or_false] at h
  rcases h with h | h | (h | h) | h
  · exact .inl h
  · cases halign : c.alignment <;> simp [halign, Alignment.marks] at h <;> simp [h]
  · exact .inr (.inl h.2)
  · cases halign : c.alignment <;> simp [halign, Alignment.marks] at h <;> simp [h]
  · exact .inl h

namespace Table

variable {t : Table} {d : Dialect}

theorem rowText_data (t : Table) (d : Dialect) (cells : List Text) :
    t.rowText d (.data cells) = bar :: closedCells (t.renderWidths.zipWith paddedCell cells) := by
  have hcell : dataCellText = fun w v => paddedCell w v ++ [bar] := by
    funext w v
    exact dataCellText_eq w v
  simp [rowText, closedCells, List.map_zipWith, hcell]

theorem rowText_separator_markdown (t : Table) :
    t.rowText .markdown .separator =
      bar :: closedCells (t.columns.zipWith ruleCell t.renderWidths) := by
  have hcell : ruleCellText = fun c w => ruleCell c w ++ [bar] := by
    funext c w
    exact ruleCellText_eq c w
  simp [rowText, Dialect.ruleText, closedCells, List.map_zipWith, hcell]

theorem rowText_separator_org (t : Table) :
    t.rowText .org .separator = bar ::
      if t.renderWidths.isEmpty then []
      else
        ['+'].intercalate (t.renderWidths.map fun w => List.replicate (w + 2) '-') ++ [bar] := rfl

@[simp] theorem length_renderWidths (t : Table) : t.renderWidths.length = t.colCount :=
  List.length_map _

theorem three_le_of_mem_renderWidths (h : Row.separator ∈ t.rows) {w : Nat}
    (hw : w ∈ t.renderWidths) : 3 ≤ w := by
  obtain ⟨c, -, rfl⟩ := List.mem_map.1 hw
  rw [minWidth_eq, (any_isSeparator_iff t.rows).2 h]
  exact Nat.le_max_right _ _

theorem bar_not_mem_paddedCells {cells : List Text} (h : ∀ v ∈ cells, bar ∉ v) :
    ∀ p ∈ t.renderWidths.zipWith paddedCell cells, bar ∉ p := by
  intro p hp hbar
  obtain ⟨w, -, v, hv, rfl⟩ := exists_of_mem_zipWith hp
  rcases mem_paddedCell hbar with hspace | hmem
  · cases hspace
  · exact h v hv hmem

theorem splitCells_rowText_data {cells : List Text} (hlen : cells.length = t.colCount)
    (hne : t.columns ≠ []) (h : ∀ v ∈ cells, CellText v) :
    splitCells (t.rowText d (.data cells)) = cells := by
  have hpos : 0 < t.colCount := List.length_pos_iff.2 hne
  rw [rowText_data, splitCells_closedCells]
  · apply List.ext_getElem
    · simp [hlen]
    · intro i _ hi
      simp only [List.getElem_map, List.getElem_zipWith, trim_paddedCell]
      exact (h _ (List.getElem_mem hi)).1
  · rw [← List.length_pos_iff, List.length_zipWith, length_renderWidths, hlen]
    exact Nat.lt_min.2 ⟨hpos, hpos⟩
  · exact bar_not_mem_paddedCells fun v hv => (h v hv).2.1

/-- A written data row is taken for a separator exactly in Markdown and for its first cell. -/
theorem isSeparator_rowText_data {v : Text} {rest : List Text} (hne : t.columns ≠ []) :
    d.isSeparator (t.rowText d (.data (v :: rest))) = true ↔ d = .markdown ∧ Ruled v := by
  obtain ⟨c, cs, hcols⟩ := List.exists_cons_of_ne_nil hne
  rw [rowText_data, renderWidths, hcols, List.map_cons, List.zipWith_cons_cons]
  cases d with
  | markdown =>
    rw [isSeparator_markdown_iff, ruled_closedCells, Ruled, compact_paddedCell, Ruled]
    exact (and_iff_right rfl).symm
  | org =>
    rw [isSeparator_org_iff]
    simp [closedCells, paddedCell]

theorem isSeparator_rowText_separator (hne : t.columns ≠ []) (h : Row.separator ∈ t.rows) :
    d.isSeparator (t.rowText d .separator) = true := by
  obtain ⟨c, cs, hcols⟩ := List.exists_cons_of_ne_nil hne
  cases d with
  | markdown =>
    rw [rowText_separator_markdown, isSeparator_markdown_iff, hcols]
    have hwidths : t.renderWidths = max c.width t.minWidth ::
        cs.map fun c => max c.width t.minWidth := by simp [renderWidths, hcols]
    have hw := three_le_of_mem_renderWidths h (hwidths ▸ List.mem_cons_self)
    rw [hwidths, List.zipWith_cons_cons, ruled_closedCells]
    exact ruled_ruleCell c hw
  | org =>
    rw [rowText, isSeparator_org_iff]
    cases cs with
    | nil => simp [Dialect.ruleText, renderWidths, hcols, List.intercalate, List.replicate_succ]
    | cons e es =>
      simp [Dialect.ruleText, renderWidths, hcols, List.intercalate, List.replicate_succ]

/-- In Markdown a written separator row tells the alignment of every column. -/
theorem alignment_rowText_separator (h : Row.separator ∈ t.rows) (hne : t.columns ≠ []) (j : Nat) :
    (splitCells (t.rowText .markdown .separator))[j]?.bind cellAlignment = t.alignments[j]? := by
  have hbars : ∀ p ∈ t.columns.zipWith ruleCell t.renderWidths, bar ∉ p := by
    intro p hp hbar
    obtain ⟨c, -, w, -, rfl⟩ := exists_of_mem_zipWith hp
    rcases mem_ruleCell hbar with hm | hm | hm <;> cases hm
  have hcells : t.columns.zipWith ruleCell t.renderWidths ≠ [] := by
    rw [← List.length_pos_iff] at hne ⊢
    simpa [colCount] using hne
  rw [rowText_separator_markdown, splitCells_closedCells hcells hbars, List.getElem?_map,
    alignments, List.getElem?_map]
  cases hc : t.columns[j]? with
  | none => simp [List.getElem?_zipWith, hc]
  | some c =>
    have hw : t.renderWidths[j]? = some (max c.width t.minWidth) := by
      simp [renderWidths, hc]
    have hwidth := three_le_of_mem_renderWidths h (List.mem_of_getElem? hw)
    simp [List.getElem?_zipWith, hc, hw, cellAlignment_ruleCell c hwidth]

theorem head_rowText (t : Table) (d : Dialect) (r : Row) : (t.rowText d r).head? = some bar := by
  cases r <;> rfl

theorem getLast_closedCells (ps : List Text) : (bar :: closedCells ps).getLast? = some bar := by
  cases ps with
  | nil => rfl
  | cons p ps =>
    rw [closedCells_eq (by simp), ← List.cons_append, List.getLast?_concat]

theorem getLast_rowText (t : Table) (d : Dialect) (r : Row) :
    (t.rowText d r).getLast? = some bar := by
  cases r with
  | data cells =>
    rw [rowText_data]
    exact getLast_closedCells _
  | separator =>
    cases d with
    | markdown =>
      rw [rowText_separator_markdown]
      exact getLast_closedCells _
    | org =>
      rw [rowText_separator_org]
      split
      · rfl
      · rw [← List.cons_append, List.getLast?_concat]

theorem trim_indented_rowText {indent : Text} (h : Blank indent) (r : Row) :
    trim (indent ++ t.rowText d r) = t.rowText d r := by
  rw [trim_append_left h]
  apply trim_of_ends
  · intro c hc
    rw [head_rowText, Option.some.injEq] at hc
    exact hc ▸ bar_not_blank
  · intro c hc
    rw [getLast_rowText, Option.some.injEq] at hc
    exact hc ▸ bar_not_blank

theorem mem_closedCells {c : Char} {ps : List Text} (h : c ∈ closedCells ps) :
    c = bar ∨ ∃ p ∈ ps, c ∈ p := by
  obtain ⟨q, hq, hc⟩ := List.mem_flatten.1 h
  obtain ⟨p, hp, rfl⟩ := List.mem_map.1 hq
  rcases List.mem_append.1 hc with hc | hc
  · exact .inr ⟨p, hp, hc⟩
  · exact .inl (List.mem_singleton.1 hc)

theorem mem_rowText_data {c : Char} {cells : List Text} (h : c ∈ t.rowText d (.data cells)) :
    c = bar ∨ c = ' ' ∨ ∃ v ∈ cells, c ∈ v := by
  rw [rowText_data] at h
  rcases List.mem_cons.1 h with h | h
  · exact .inl h
  · rcases mem_closedCells h with h | ⟨p, hp, hc⟩
    · exact .inl h
    · obtain ⟨w, -, v, hv, rfl⟩ := exists_of_mem_zipWith hp
      rcases mem_paddedCell hc with hspace | hmem
      · exact .inr (.inl hspace)
      · exact .inr (.inr ⟨v, hv, hmem⟩)

theorem mem_intercalate {c sep : Char} {ls : List Text} (h : c ∈ [sep].intercalate ls) :
    c = sep ∨ ∃ l ∈ ls, c ∈ l := by
  induction ls with
  | nil => simp [List.intercalate] at h
  | cons l ls ih =>
    cases ls with
    | nil => exact .inr ⟨l, by simp, by simpa [List.intercalate] using h⟩
    | cons m ms =>
      rw [List.intercalate_cons_cons, List.append_assoc, List.singleton_append] at h
      rcases List.mem_append.1 h with h | h
      · exact .inr ⟨l, by simp, h⟩
      · rcases List.mem_cons.1 h with h | h
        · exact .inl h
        · exact (ih h).imp_right fun ⟨k, hk, hc⟩ => ⟨k, List.mem_cons_of_mem l hk, hc⟩

theorem mem_rowText_separator {c : Char} (h : c ∈ t.rowText d .separator) :
    c ∈ ['|', ' ', '-', ':', '+'] := by
  cases d with
  | markdown =>
    rw [rowText_separator_markdown] at h
    rcases List.mem_cons.1 h with rfl | h
    · simp [bar]
    · rcases mem_closedCells h with rfl | ⟨p, hp, hc⟩
      · simp [bar]
      · obtain ⟨column, -, w, -, rfl⟩ := exists_of_mem_zipWith hp
        rcases mem_ruleCell hc with rfl | rfl | rfl <;> simp
  | org =>
    rw [rowText_separator_org] at h
    rcases List.mem_cons.1 h with rfl | h
    · simp [bar]
    · split at h
      · simp at h
      · rcases List.mem_append.1 h with h | h
        · rcases mem_intercalate h with rfl | ⟨l, hl, hc⟩
          · simp
          · obtain ⟨w, -, rfl⟩ := List.mem_map.1 hl
            rw [List.eq_of_mem_replicate hc]
            simp
        · rw [List.mem_singleton.1 h]
          simp [bar]

theorem newline_not_mem_rowText {r : Row} (h : ∀ v ∈ r.cells, '\n' ∉ v) :
    '\n' ∉ t.rowText d r := by
  intro hnew
  cases r with
  | data cells =>
    rcases mem_rowText_data hnew with hc | hc | ⟨v, hv, hc⟩
    · cases hc
    · cases hc
    · exact h v hv hc
  | separator => exact absurd (mem_rowText_separator hnew) (by decide)

section Lines

variable {indent : Text}

theorem newline_not_mem_renderLines (hline : '\n' ∉ indent)
    (hcells : ∀ r ∈ t.rows, ∀ v ∈ r.cells, '\n' ∉ v) : ∀ l ∈ t.renderLines d indent, '\n' ∉ l := by
  intro l hl
  obtain ⟨r, hr, rfl⟩ := List.mem_map.1 hl
  rw [List.mem_append, not_or]
  exact ⟨hline, newline_not_mem_rowText (hcells r hr)⟩

theorem tableLines_render (hblank : Blank indent) (hline : '\n' ∉ indent)
    (hcells : ∀ r ∈ t.rows, ∀ v ∈ r.cells, '\n' ∉ v) :
    tableLines (t.render d indent) = t.rows.map (t.rowText d) := by
  rw [render, tableLines_joinLines (newline_not_mem_renderLines hline hcells)]
  have htrim : (t.renderLines d indent).map trim = t.rows.map (t.rowText d) := by
    rw [renderLines, List.map_map]
    exact List.map_congr_left fun r _ => trim_indented_rowText hblank r
  rw [htrim, List.filter_eq_self]
  intro l hl
  obtain ⟨r, -, rfl⟩ := List.mem_map.1 hl
  rw [startsWithBar, head_rowText]
  rfl

theorem lines_render (hline : '\n' ∉ indent) (hcells : ∀ r ∈ t.rows, ∀ v ∈ r.cells, '\n' ∉ v) :
    lines (t.render d indent) = t.renderLines d indent := by
  apply lines_joinLines (newline_not_mem_renderLines hline hcells)
  intro l hl
  obtain ⟨r, -, rfl⟩ := List.mem_map.1 hl
  refine ⟨bar, ?_, by decide⟩
  rw [List.getLast?_append, getLast_rowText]
  rfl

theorem leadingBlanks_headD_renderLines (hblank : Blank indent) (hrows : t.rows ≠ []) :
    leadingBlanks ((t.renderLines d indent).headD []) = indent := by
  obtain ⟨r, rs, hr⟩ := List.exists_cons_of_ne_nil hrows
  have hhead : (t.renderLines d indent).headD [] = indent ++ t.rowText d r := by
    simp [renderLines, hr]
  obtain ⟨rest, hrest⟩ := startsWithBar_iff.1 (show startsWithBar (t.rowText d r) by
    rw [startsWithBar, head_rowText]
    rfl)
  rw [hhead, hrest, leadingBlanks, List.takeWhile_append_of_pos hblank,
    List.takeWhile_cons_of_neg (by simp [bar_not_blank]), List.append_nil]

theorem isTableLine_of_mem_renderLines (hblank : Blank indent) {l : Text}
    (hl : l ∈ t.renderLines d indent) : isTableLine l = true := by
  obtain ⟨r, -, rfl⟩ := List.mem_map.1 hl
  rw [← startsWithBar_trim, trim_indented_rowText hblank, startsWithBar, head_rowText]
  rfl

end Lines

end Table

end PipeTable
