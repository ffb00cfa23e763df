import PipeTable.Proofs.Table.Reading

/-! # Layout that does not show

What a table line is read as depends on its trimmed text alone, and of this on the cells and on
whether it is a separator. Blanks around a line are trimmed away, and a missing closing bar ends
the last cell all the same: it comes behind at least one character that is no blank, so it hides
no dash at the start. In Markdown the first cell tells whether a line is a separator, so there
the cells decide everything.
-/

namespace PipeTable

open Text

variable {d : Dialect} {l m x y : Text} {ls ms : List Text}

/-- In Markdown the first cell of a line tells whether the line is a separator. -/
theorem isSeparator_markdown_iff_first_cell (s : Text) :
    Dialect.markdown.isSeparator (bar :: s) = true ↔ Ruled ((splitCells (bar :: s)).headD []) := by
  have hclosing : Ruled s ↔ Ruled (dropClosing s) := by
    unfold dropClosing
    split
    · next hlast =>
      obtain ⟨front, rfl⟩ := List.getLast?_eq_some_iff.1 hlast
      rw [List.dropLast_concat, ruled_append_bar]
    · exact Iff.rfl
  have hfirst : Ruled (dropClosing s) ↔ Ruled ((fields bar (dropClosing s)).headD []) := by
    induction dropClosing s using field_induction bar with
    | last f hf => rw [fields_of_not_mem hf, List.headD_cons]
    | field f rest hf ih => rw [fields_append hf, List.headD_cons, ruled_append_bar]
  rw [isSeparator_markdown_iff, hclosing, hfirst, splitCells, dropOpening_bar]
  obtain ⟨f, fs, hfields⟩ := List.exists_cons_of_ne_nil (fields_ne_nil bar (dropClosing s))
  rw [hfields, List.map_cons, List.headD_cons, List.headD_cons, ruled_trim]

/-- Two trimmed table lines that reading does not tell apart. -/
structure ReadsAlike (d : Dialect) (x y : Text) : Prop where
  separator : d.isSeparator x = d.isSeparator y
  cells : splitCells x = splitCells y

theorem ReadsAlike.addLine (h : ReadsAlike d x y) (t : Table) : t.addLine d x = t.addLine d y := by
  cases d with
  | markdown => simp only [Table.addLine, Table.addSeparator, h.separator, h.cells]
  | org => simp only [Table.addLine, Table.addSeparator, h.separator, h.cells]

theorem foldl_addLine_congr (h : List.Forall₂ (ReadsAlike d) ls ms) (t : Table) :
    ls.foldl (Table.addLine d) t = ms.foldl (Table.addLine d) t := by
  induction h generalizing t with
  | nil => rfl
  | cons hl _ ih => rw [List.foldl_cons, List.foldl_cons, hl.addLine, ih]

theorem readsAlike_close {text b : Text} (hb : Blank b)
    (hlast : (bar :: text).getLast? ≠ some bar) :
    ReadsAlike d (bar :: text) (bar :: (text ++ b ++ [bar])) := by
  obtain ⟨c, rest, rfl⟩ : ∃ c rest, text = c :: rest :=
    List.exists_cons_of_ne_nil fun hnil => hlast (hnil ▸ rfl)
  have hopen : dropClosing (c :: rest) = c :: rest :=
    if_neg fun h => hlast (by rw [List.getLast?_cons, h, Option.getD_some])
  constructor
  · rw [Bool.eq_iff_iff]
    cases d with
    | markdown =>
      have hblank : compact b = [] := List.filter_eq_nil_iff.2 fun a ha => by simp [hb a ha]
      rw [isSeparator_markdown_iff, isSeparator_markdown_iff, ruled_append_bar, Ruled, Ruled,
        compact_append, hblank, List.append_nil]
    | org => rw [isSeparator_org_iff, isSeparator_org_iff]; rfl
  · rw [splitCells, splitCells, dropOpening_bar, dropOpening_bar, hopen, dropClosing_bar,
      map_trim_fields_append hb hb.bar_not_mem]

/-- A line may be written as another one: with blanks on either side, with the closing bar that it
lacks, and in Markdown as any table line with the same cells. -/
inductive Relaid (d : Dialect) : Text → Text → Prop
  | blanks {a b : Text} (ha : Blank a) (hb : Blank b) (l : Text) : Relaid d l (a ++ l ++ b)
  | closed {l : Text} (hopening : (trim l).head? = some '|')
      (hlast : (trim l).getLast? ≠ some '|') : Relaid d l (l ++ ['|'])
  | cells {l m : Text} (hd : d = .markdown) (hl : (trim l).head? = some '|')
      (hm : (trim m).head? = some '|') (h : splitCells (trim m) = splitCells (trim l)) :
      Relaid d l m

/-- Both lines are skipped, or both are read and alike. -/
structure SameLine (d : Dialect) (l m : Text) : Prop where
  tableLine : startsWithBar (trim l) = startsWithBar (trim m)
  alike : startsWithBar (trim l) = true → ReadsAlike d (trim l) (trim m)

theorem sameLine_of_trim_eq (h : trim l = trim m) : SameLine d l m where
  tableLine := by rw [h]
  alike _ := by rw [h]; exact ⟨rfl, rfl⟩

theorem sameLine_closed (hopening : (trim l).head? = some bar)
    (hlast : (trim l).getLast? ≠ some bar) : SameLine d l (l ++ [bar]) := by
  have hl : isTableLine l = true := by
    rw [← startsWithBar_trim, startsWithBar, hopening]
    rfl
  obtain ⟨lead, body, hlead, rfl⟩ := exists_bar_of_tableLine hl
  obtain ⟨b, hb, hbody⟩ := exists_trimEnd_append body
  have hclosed : trim (lead ++ bar :: body ++ [bar]) = bar :: (trimEnd body ++ b ++ [bar]) := by
    rw [List.append_assoc, List.cons_append, trim_bar hlead, trimEnd_of_getLast, hbody]
    intro c hc
    rw [List.getLast?_concat, Option.some.injEq] at hc
    exact hc ▸ bar_not_blank
  rw [trim_bar hlead] at hlast
  constructor
  · rw [trim_bar hlead, hclosed]
    rfl
  · intro _
    rw [trim_bar hlead, hclosed]
    exact readsAlike_close hb hlast

theorem sameLine_cells (hl : (trim l).head? = some bar) (hm : (trim m).head? = some bar)
    (h : splitCells (trim m) = splitCells (trim l)) : SameLine .markdown l m := by
  obtain ⟨s, hs⟩ := List.head?_eq_some_iff.1 hl
  obtain ⟨t, ht⟩ := List.head?_eq_some_iff.1 hm
  rw [hs, ht] at h
  constructor
  · rw [startsWithBar, startsWithBar, hl, hm]
  · intro _
    rw [hs, ht]
    refine ⟨?_, h.symm⟩
    rw [Bool.eq_iff_iff, isSeparator_markdown_iff_first_cell, isSeparator_markdown_iff_first_cell,
      h]

theorem Relaid.sameLine (h : Relaid d l m) : SameLine d l m := by
  cases h with
  | blanks ha hb l =>
    apply sameLine_of_trim_eq
    rw [trim_append_right hb, trim_append_left ha]
  | closed hopening hlast => exact sameLine_closed hopening hlast
  | cells hd hl hm h =>
    subst hd
    exact sameLine_cells hl hm h

theorem Relaid.ne_nil (h : Relaid d l m) (hl : l ≠ []) : m ≠ [] := by
  cases h with
  | blanks ha hb l => simp [hl]
  | closed hopening hlast => simp
  | cells hd _ hm h =>
    rintro rfl
    cases hm

theorem readsAlike_tableLines (h : List.Forall₂ (SameLine d) ls ms) :
    List.Forall₂ (ReadsAlike d) ((ls.map trim).filter startsWithBar)
      ((ms.map trim).filter startsWithBar) := by
  induction h with
  | nil => exact .nil
  | @cons l m ls ms hl _ ih =>
    rw [List.map_cons, List.map_cons, List.filter_cons, List.filter_cons, ← hl.tableLine]
    split
    · next hbar => exact .cons (hl.alike hbar) ih
    · exact ih

theorem joinLines_ne_nil_of_relaid (h : List.Forall₂ (Relaid d) ls ms)
    (hls : joinLines ls ≠ []) : joinLines ms ≠ [] := by
  cases h with
  | nil => exact hls
  | cons hl h =>
    cases h with
    | nil =>
      have hjoin (k : Text) : joinLines [k] = k := by simp [joinLines, List.intercalate]
      rw [hjoin] at hls ⊢
      exact hl.ne_nil hls
    | cons _ _ => simp [joinLines, List.intercalate]

namespace Table

/-- Writing any of its lines in another way changes nothing in the table that a text is read as. -/
theorem parse_relaid (d : Dialect) {ls ms : List Text} (h : List.Forall₂ (Relaid d) ls ms)
    (hls : ∀ l ∈ ls, '\n' ∉ l) (hms : ∀ m ∈ ms, '\n' ∉ m) (hne : joinLines ls ≠ []) :
    ∃ t, parse d (joinLines ls) = some t ∧ parse d (joinLines ms) = some t := by
  refine ⟨_, parse_of_ne_nil hne, ?_⟩
  rw [parse_of_ne_nil (joinLines_ne_nil_of_relaid h hne), tableLines_joinLines hls,
    tableLines_joinLines hms]
  have halike := readsAlike_tableLines (h.imp fun _ _ hl => hl.sameLine)
  rw [foldl_addLine_congr halike empty]

/-- Blanks of several kinds around a data row, a rule that gets its closing bar, a rule written in
another way, and prose that is moved. -/
theorem parse_relaid_unclosed :
    ∃ t, parse .markdown (joinLines ["| a |b".toList, "|-|:-:".toList, "|--:|-".toList,
          "a | b".toList]) = some t ∧
      parse .markdown (joinLines ["\u3000| a |b\t\r".toList, "|-|:-:|".toList, " | --: |-|".toList,
          " a | b ".toList]) = some t ∧
      t = { columns := [⟨.right, 3⟩, ⟨.center, 3⟩]
            rows := [.data [['a'], ['b']], .separator, .separator] } := by
  have hblank : Blank ['\u3000'] ∧ Blank ['\t', '\r'] ∧ Blank [' '] := by
    simp only [Blank, List.mem_cons, List.not_mem_nil, or_false, forall_eq_or_imp, forall_eq]
    decide
  obtain ⟨t, hread, hrelaid⟩ := parse_relaid .markdown
    (.cons (.blanks hblank.1 hblank.2.1 "| a |b".toList)
      (.cons (.closed (l := "|-|:-:".toList) (by decide) (by decide))
      (.cons (.cells (l := "|--:|-".toList) (m := " | --: |-|".toList) rfl (by decide) (by decide)
        (by decide))
      (.cons (.blanks hblank.2.2 hblank.2.2 "a | b".toList) .nil))))
    (by decide) (by decide) (by decide)
  refine ⟨t, hread, hrelaid, Option.some.inj (hread.symm.trans ?_)⟩
  decide +kernel

end Table

end PipeTable
