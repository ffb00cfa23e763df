import PipeTable.Proofs.Text.Fields
import PipeTable.Table.Reader

/-! # What a table line is read as

The cells of a line are trimmed and hold no bar, a line made of closed cells is cut at their
bars, and in Markdown it is the text behind the opening bar, blanks apart, that makes a line a
separator. A line whose first cell looks like a rule is therefore a separator as a whole.
-/

namespace PipeTable

open Text

/-- Blanks apart, the text starts with `-` or `:-`. -/
def Ruled (s : Text) : Prop :=
  ['-'] <+: compact s ∨ [':', '-'] <+: compact s

instance (s : Text) : Decidable (Ruled s) := by
  unfold Ruled
  infer_instance

theorem bar_not_blank : isBlank bar = false := isBlank_bar

theorem Text.Blank.bar_not_mem {s : Text} (h : Blank s) : bar ∉ s := by
  intro hbar
  have hblank := h bar hbar
  rw [bar_not_blank] at hblank
  cases hblank

theorem isSeparator_markdown_iff (s : Text) :
    Dialect.markdown.isSeparator (bar :: s) = true ↔ Ruled s := by
  simp only [Dialect.isSeparator, compact_cons_solid bar_not_blank, Bool.or_eq_true,
    List.isPrefixOf_iff_prefix]
  simp [Ruled, bar, List.cons_prefix_cons]

theorem isSeparator_org_iff (s : Text) :
    Dialect.org.isSeparator (bar :: s) = true ↔ s.head? = some '-' := by
  simp [Dialect.isSeparator]

theorem Ruled.of_isPrefix {s t : Text} (h : Ruled s) (hst : compact s <+: compact t) : Ruled t :=
  h.imp (·.trans hst) (·.trans hst)

theorem compact_isPrefix {s t : Text} (h : s <+: t) : compact s <+: compact t := by
  obtain ⟨rest, rfl⟩ := h
  rw [compact_append]
  exact List.prefix_append _ _

theorem ruled_append_bar (s t : Text) : Ruled (s ++ bar :: t) ↔ Ruled s := by
  constructor
  · unfold Ruled
    rw [compact_append, compact_cons_solid bar_not_blank]
    rcases compact s with _ | ⟨a, _ | ⟨b, rest⟩⟩ <;> simp [bar]
  · intro h
    exact h.of_isPrefix (compact_isPrefix (List.prefix_append _ _))

theorem ruled_trim (s : Text) : Ruled (trim s) ↔ Ruled s := by
  rw [Ruled, Ruled, compact_trim]

theorem not_ruled_nil : ¬ Ruled [] := by decide

theorem dropOpening_bar (s : Text) : dropOpening (bar :: s) = s := rfl

theorem dropClosing_bar (s : Text) : dropClosing (s ++ [bar]) = s := by
  simp [dropClosing]

theorem dropClosing_isPrefix (s : Text) : dropClosing s <+: s := by
  unfold dropClosing
  split
  · exact List.dropLast_prefix s
  · exact List.prefix_refl s

theorem splitCells_ne_nil (line : Text) : splitCells line ≠ [] := by
  simp [splitCells, fields_ne_nil]

/-- A value that is written and read back unchanged: nothing to trim, no bar, no line feed. -/
def CellText (v : Text) : Prop :=
  trim v = v ∧ bar ∉ v ∧ '\n' ∉ v

theorem cellText_nil : CellText [] := ⟨trim_of_blank blank_nil, by simp, by simp⟩

theorem cellText_of_mem_splitCells {s v : Text} (hs : '\n' ∉ s)
    (hv : v ∈ splitCells (bar :: s)) : CellText v := by
  obtain ⟨f, hf, rfl⟩ := List.mem_map.1 hv
  rw [dropOpening_bar] at hf
  refine ⟨trim_trim f, fun hbar => ?_, fun hnew => ?_⟩
  · exact not_mem_of_mem_fields hf (mem_of_mem_trim hbar)
  · have hmem := (mem_of_mem_fields hf (mem_of_mem_trim hnew)).1
    exact hs ((dropClosing_isPrefix s).subset hmem)

/-- In Markdown a line is a separator as soon as its first cell looks like a rule. -/
theorem ruled_of_first_cell {s v : Text} {vs : List Text} (h : splitCells (bar :: s) = v :: vs)
    (hv : Ruled v) : Ruled s := by
  rw [splitCells, dropOpening_bar] at h
  obtain ⟨f, fs, hf⟩ := List.exists_cons_of_ne_nil (fields_ne_nil bar (dropClosing s))
  rw [hf, List.map_cons, List.cons.injEq] at h
  rw [← h.1, ruled_trim] at hv
  exact hv.of_isPrefix (compact_isPrefix ((prefix_of_fields hf).trans (dropClosing_isPrefix s)))

/-- Cells, each with its closing bar. -/
def closedCells (ps : List Text) : Text :=
  (ps.map (· ++ [bar])).flatten

theorem closedCells_cons (p : Text) (ps : List Text) :
    closedCells (p :: ps) = p ++ bar :: closedCells ps := by
  simp [closedCells]

theorem closedCells_append (ps qs : List Text) :
    closedCells (ps ++ qs) = closedCells ps ++ closedCells qs := by
  simp [closedCells]

theorem closedCells_eq {ps : List Text} (hne : ps ≠ []) :
    closedCells ps = [bar].intercalate ps ++ [bar] := by
  induction ps with
  | nil => exact absurd rfl hne
  | cons p ps ih =>
    cases ps with
    | nil => simp [closedCells, List.intercalate]
    | cons q qs =>
      rw [closedCells, List.map_cons, List.flatten_cons]
      change p ++ [bar] ++ closedCells (q :: qs) = _
      rw [ih (by simp)]
      simp [List.intercalate]

theorem splitCells_closedCells {ps : List Text} (hne : ps ≠ []) (h : ∀ p ∈ ps, bar ∉ p) :
    splitCells (bar :: closedCells ps) = ps.map trim := by
  rw [splitCells, dropOpening_bar, closedCells_eq hne, dropClosing_bar, fields_intercalate h hne]

theorem ruled_closedCells (p : Text) (ps : List Text) :
    Ruled (closedCells (p :: ps)) ↔ Ruled p := by
  rw [closedCells_cons, ruled_append_bar]

theorem startsWithBar_iff {line : Text} : startsWithBar line = true ↔ ∃ s, line = bar :: s := by
  cases line with
  | nil => simp [startsWithBar]
  | cons c s => simp [startsWithBar]

theorem startsWithBar_trim (line : Text) : startsWithBar (trim line) = isTableLine line := by
  unfold isTableLine
  rw [Bool.eq_iff_iff, startsWithBar_iff, startsWithBar_iff]
  constructor
  · rintro ⟨rest, hrest⟩
    obtain ⟨after, hafter⟩ := trimEnd_isPrefix (trimStart line)
    rw [← trim, hrest] at hafter
    exact ⟨rest ++ after, hafter.symm⟩
  · rintro ⟨rest, hrest⟩
    -- the bar is not blank, so the trimmed line begins with it
    have hsolid : compact (trim line) = bar :: compact rest := by
      rw [compact_trim, ← compact_trimStart, hrest, compact_cons_solid bar_not_blank]
    cases htrim : trim line with
    | nil =>
      rw [htrim] at hsolid
      cases hsolid
    | cons c after =>
      have hfront := trimEnd_isPrefix (trimStart line)
      rw [← trim, htrim, hrest, List.cons_prefix_cons] at hfront
      exact ⟨after, by rw [hfront.1]⟩

theorem tableLines_joinLines {ls : List Text} (h : ∀ l ∈ ls, '\n' ∉ l) :
    Table.tableLines (joinLines ls) = (ls.map trim).filter startsWithBar :=
  filter_trim_lines_joinLines rfl h

theorem tableLines_joinLines_run {ls : List Text} (hnew : ∀ l ∈ ls, '\n' ∉ l)
    (hrun : ∀ l ∈ ls, isTableLine l = true) : Table.tableLines (joinLines ls) = ls.map trim := by
  rw [tableLines_joinLines hnew, List.filter_eq_self]
  intro line hline
  obtain ⟨l, hl, rfl⟩ := List.mem_map.1 hline
  rw [startsWithBar_trim, hrun l hl]

theorem tableLines_eq (s : Text) :
    Table.tableLines s = ((fields '\n' s).map trim).filter startsWithBar :=
  filter_trim_lines rfl s

theorem tableLines_append (s rest : Text) :
    Table.tableLines (s ++ '\n' :: rest) = Table.tableLines s ++ Table.tableLines rest := by
  simp only [tableLines_eq, fields_append_sep, List.map_append, List.filter_append]

theorem exists_field_of_tableLine {line : Text} (h : isTableLine line = true) :
    ∃ f ∈ fields '\n' line, isTableLine f = true := by
  induction line with
  | nil => cases h
  | cons c line ih =>
    obtain ⟨first, others, hfields⟩ := List.exists_cons_of_ne_nil (fields_ne_nil '\n' line)
    cases hblank : isBlank c with
    | true =>
      have hstart (s : Text) : isTableLine (c :: s) = isTableLine s := by
        simp [isTableLine, trimStart, hblank]
      rw [hstart] at h
      obtain ⟨f, hf, hbar⟩ := ih h
      by_cases hc : c = '\n'
      · exact ⟨f, by simp [fields, hc, hf], hbar⟩
      · -- the blank goes to the first field, where it makes no difference
        rw [hfields, List.mem_cons] at hf
        rcases hf with rfl | hf
        · exact ⟨c :: f, by simp [fields, hc, hfields], (hstart f).trans hbar⟩
        · exact ⟨f, by simp [fields, hc, hfields, hf], hbar⟩
    | false =>
      have hstart (s : Text) : isTableLine (c :: s) = (c == bar) := by
        simp [isTableLine, startsWithBar, trimStart, hblank]
      have hc : c ≠ '\n' := by
        rintro rfl
        cases isBlank_newline.symm.trans hblank
      refine ⟨c :: first, by simp [fields, hc, hfields], ?_⟩
      rwa [hstart, ← hstart line]

theorem length_tableLines_pos {line : Text} (h : isTableLine line = true) :
    0 < (Table.tableLines line).length := by
  obtain ⟨f, hf, hbar⟩ := exists_field_of_tableLine h
  rw [tableLines_eq]
  apply List.length_pos_of_mem (a := trim f)
  exact List.mem_filter.2 ⟨List.mem_map_of_mem hf, (startsWithBar_trim f).trans hbar⟩

/-- Each of the lines is read as one row at least, even if there are line feeds in it. -/
theorem length_le_length_tableLines {ls : List Text} (h : ∀ l ∈ ls, isTableLine l = true) :
    ls.length ≤ (Table.tableLines (joinLines ls)).length := by
  induction ls with
  | nil => exact Nat.zero_le _
  | cons l ls ih =>
    obtain ⟨hl, hls⟩ := List.forall_mem_cons.1 h
    have hpos := length_tableLines_pos hl
    have hrest := ih hls
    cases ls with
    | nil =>
      have hjoin : joinLines [l] = l := by simp [joinLines, List.intercalate]
      rw [hjoin]
      exact hpos
    | cons m ms =>
      have hjoin : joinLines (l :: m :: ms) = l ++ '\n' :: joinLines (m :: ms) := by
        simp [joinLines, List.intercalate]
      rw [hjoin, tableLines_append, List.length_append, List.length_cons]
      omega

theorem mem_tableLines {s l : Text} (h : l ∈ Table.tableLines s) :
    ∃ rest, l = bar :: rest ∧ '\n' ∉ rest := by
  obtain ⟨hl, hbar⟩ := List.mem_filter.1 h
  obtain ⟨line, hline, rfl⟩ := List.mem_map.1 hl
  obtain ⟨rest, hrest⟩ := startsWithBar_iff.1 hbar
  refine ⟨rest, hrest, fun hnew => newline_not_mem_lines hline (mem_of_mem_trim ?_)⟩
  rw [hrest]
  exact List.mem_cons_of_mem _ hnew

end PipeTable
