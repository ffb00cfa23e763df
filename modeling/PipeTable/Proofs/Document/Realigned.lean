import PipeTable.Document.Formatting
import PipeTable.Proofs.Command.Focus
import PipeTable.Proofs.Document.Region
import PipeTable.Proofs.Table.RoundTrip

/-! # Realigned documents

A document some of whose tables have been realigned. The lines between the tables are as they
were, and a run of table lines is either as it was or as its table is written. Both have the same
number of lines, and lines of a table both, so the document has the same regions all the time and
each of its tables can be realigned at any time.
-/

namespace PipeTable

open Text Region

variable {d : Dialect} {run written : List Text}

/-- Lines that a table can be read from, one row from each. -/
structure TableRun (run : List Text) : Prop where
  ne_nil : run ≠ []
  isTableLine : ∀ l ∈ run, isTableLine l = true
  newline : ∀ l ∈ run, '\n' ∉ l

/-- The lines `written` are those that the table on the lines `run` is written on. -/
def WrittenRun (d : Dialect) (run written : List Text) : Prop :=
  ∃ t, Table.parse d (joinLines run) = some t ∧
    written = t.renderLines d (leadingBlanks (run.headD []))

namespace TableRun

theorem exists_parse (h : TableRun run) (d : Dialect) :
    ∃ t, Table.parse d (joinLines run) = some t := by
  have hread := tableLines_joinLines_run h.newline h.isTableLine
  have hne : joinLines run ≠ [] := by
    intro hnil
    rw [hnil] at hread
    exact h.ne_nil (List.map_eq_nil_iff.1 hread.symm)
  exact ⟨_, Table.parse_of_ne_nil hne⟩

theorem exists_written (h : TableRun run) (d : Dialect) : ∃ written, WrittenRun d run written := by
  obtain ⟨t, ht⟩ := h.exists_parse d
  exact ⟨_, t, ht, rfl⟩

theorem newline_not_mem_indent (h : TableRun run) : '\n' ∉ leadingBlanks (run.headD []) := by
  intro hmem
  obtain ⟨l, ls, rfl⟩ := List.exists_cons_of_ne_nil h.ne_nil
  exact h.newline l List.mem_cons_self ((List.takeWhile_sublist _).subset hmem)

theorem rows_ne_nil (h : TableRun run) {t : Table}
    (ht : Table.parse d (joinLines run) = some t) : t.rows ≠ [] := by
  have hcount := Table.rowCount_of_parse_run h.newline h.isTableLine ht
  rw [← List.length_pos_iff]
  exact Nat.lt_of_lt_of_eq (List.length_pos_iff.2 h.ne_nil) hcount.symm

theorem runLength_ne_zero (h : TableRun run) (rest : List Text) : runLength (run ++ rest) ≠ 0 := by
  intro hzero
  have hlength := runLength_of_append hzero
  rw [runLength_of_tableLines h.isTableLine] at hlength
  exact h.ne_nil (List.length_eq_zero_iff.1 hlength)

theorem regionsFrom_append (h : TableRun run) {rest : List Text} (hrest : runLength rest = 0)
    (n : Nat) :
    regionsFrom n (run ++ rest) = ⟨n, n + run.length - 1⟩ :: regionsFrom (n + run.length) rest :=
  regionsFrom_run_append h.ne_nil h.isTableLine hrest n

end TableRun

namespace WrittenRun

theorem length_eq (h : WrittenRun d run written) (hrun : TableRun run) :
    written.length = run.length := by
  obtain ⟨t, ht, rfl⟩ := h
  exact (List.length_map _).trans
    (Table.rowCount_of_parse_run hrun.newline hrun.isTableLine ht)

theorem getLast (h : WrittenRun d run written) : ∀ l ∈ written, l.getLast? = some bar := by
  obtain ⟨t, -, rfl⟩ := h
  intro l hl
  obtain ⟨r, -, rfl⟩ := List.mem_map.1 hl
  rw [List.getLast?_append, Table.getLast_rowText]
  rfl

theorem tableRun (h : WrittenRun d run written) (hrun : TableRun run) : TableRun written := by
  have hlength := h.length_eq hrun
  obtain ⟨t, ht, rfl⟩ := h
  have hlegible := Table.legible_of_parse ht
  refine ⟨?_, fun l => Table.isTableLine_of_mem_renderLines (blank_leadingBlanks _), ?_⟩
  · rw [← List.length_pos_iff, hlength]
    exact List.length_pos_iff.2 hrun.ne_nil
  · exact Table.newline_not_mem_renderLines hrun.newline_not_mem_indent
      (Table.newline_not_mem_cells hlegible.cellTexts)

theorem again (h : WrittenRun d run written) (hrun : TableRun run) :
    WrittenRun d written written := by
  obtain ⟨t, ht, rfl⟩ := h
  have hrows := hrun.rows_ne_nil ht
  have hblank := blank_leadingBlanks (run.headD [])
  refine ⟨_, Table.parse_render_of_legible (Table.wellFormed_of_parse ht)
    (Table.legible_of_parse ht) hrows hblank hrun.newline_not_mem_indent, ?_⟩
  rw [Table.leadingBlanks_headD_renderLines hblank hrows]
  rfl

/-- Formatting from the first line of a run finds its table, and what comes in its place does not
depend on the lines below. -/
theorem exists_format {pre rest : List Text} (h : WrittenRun d run written) (hrun : TableRun run)
    (hplace : IsRun pre run rest) (options : CommandOptions) :
    ∃ e, Command.run .format options d (pre ++ (run ++ rest)) ⟨pre.length, 0⟩ = .ok (some e) ∧
      ∀ below, e.apply (pre ++ (run ++ below)) = .ok (pre ++ (written ++ below)) := by
  obtain ⟨t, ht, rfl⟩ := h
  have hpos : 0 < run.length := List.length_pos_iff.2 hrun.ne_nil
  have hload := Focus.load_eq_ok_some_iff.2
    ⟨_, _, t, hplace.locate hpos, linesOf_run hrun.ne_nil, ht, rfl⟩
  obtain ⟨anchor, hanchor⟩ := Focus.exists_anchorAt (p := ⟨pre.length, 0⟩)
    (f := ⟨d, ⟨pre.length, pre.length + run.length - 1⟩, run, { t with startLine := pre.length }⟩)
    (Nat.le_refl _)
  refine ⟨_, Command.run_eq_ok_some_iff.2 ⟨_, anchor, hload, hanchor, rfl⟩, fun below => ?_⟩
  have hlines : lines (t.render d (leadingBlanks (run.headD []))) =
      t.renderLines d (leadingBlanks (run.headD [])) :=
    Table.lines_render hrun.newline_not_mem_indent
      (Table.newline_not_mem_cells (Table.legible_of_parse ht).cellTexts)
  rw [← hlines]
  exact Replacement.apply_run hrun.ne_nil rfl below

theorem formatRegion_eq {pre rest : List Text} (h : WrittenRun d run written) (hrun : TableRun run)
    (hplace : IsRun pre run rest) (below : List Text) :
    formatRegion d (pre ++ (run ++ rest)) ⟨pre.length, pre.length + run.length - 1⟩
      (pre ++ (run ++ below)) = .ok (pre ++ (written ++ below)) := by
  obtain ⟨e, he, happly⟩ := h.exists_format hrun hplace {}
  rw [formatRegion, he]
  exact happly below

end WrittenRun

/-- The lines `out` are those of `doc`, the first of which is line `n` of a document, but the
tables of the regions `done` have been realigned. -/
inductive Realigned (d : Dialect) (done : List Region) : Nat → List Text → List Text → Prop
  | nil {n : Nat} : Realigned d done n [] []
  | line {n : Nat} {l : Text} {doc out : List Text} (hl : isTableLine l = false)
      (h : Realigned d done (n + 1) doc out) : Realigned d done n (l :: doc) (l :: out)
  | run {n : Nat} {run written rest out : List Text} (hrun : TableRun run)
      (hrest : runLength rest = 0)
      (hwritten : if (⟨n, n + run.length - 1⟩ : Region) ∈ done then WrittenRun d run written
        else written = run)
      (h : Realigned d done (n + run.length) rest out) :
      Realigned d done n (run ++ rest) (written ++ out)

theorem TableRun.of_written {p : Prop} [Decidable p] (hrun : TableRun run)
    (h : if p then WrittenRun d run written else written = run) :
    TableRun written ∧ written.length = run.length := by
  split at h
  · exact ⟨h.tableRun hrun, h.length_eq hrun⟩
  · subst h
    exact ⟨hrun, rfl⟩

theorem TableRun.exists_written_of {p : Prop} [Decidable p] (hrun : TableRun run)
    (h : if p then WrittenRun d run written else written = run) :
    ∃ next, WrittenRun d run next ∧ WrittenRun d written next := by
  split at h
  · exact ⟨written, h, h.again hrun⟩
  · subst h
    obtain ⟨next, hnext⟩ := hrun.exists_written d
    exact ⟨next, hnext, hnext⟩

theorem Region.mem_cons_iff {done : List Region} {r r' : Region}
    (h : r.startLine ≠ r'.startLine) : r ∈ r' :: done ↔ r ∈ done := by
  rw [List.mem_cons, or_iff_right]
  exact fun heq => h (congrArg Region.startLine heq)

namespace Realigned

variable {done : List Region} {n : Nat} {doc out : List Text}

theorem exists_out (d : Dialect) (done : List Region) (hdoc : ∀ l ∈ doc, '\n' ∉ l) (n : Nat) :
    ∃ out, Realigned d done n doc out := by
  induction doc using run_induction generalizing n with
  | nil => exact ⟨[], .nil⟩
  | line l ls hl ih =>
    obtain ⟨out, hout⟩ := ih (fun m hm => hdoc m (List.mem_cons_of_mem _ hm)) (n + 1)
    exact ⟨l :: out, .line hl hout⟩
  | run l ls rest hrun hrest ih =>
    obtain ⟨hnew, hnew'⟩ := List.forall_mem_append.1 hdoc
    have htable : TableRun (l :: ls) := ⟨List.cons_ne_nil l ls, hrun, hnew⟩
    obtain ⟨out, hout⟩ := ih hnew' (n + (l :: ls).length)
    by_cases hdone : (⟨n, n + (l :: ls).length - 1⟩ : Region) ∈ done
    · obtain ⟨written, hwritten⟩ := htable.exists_written d
      exact ⟨written ++ out, .run htable hrest ((if_pos hdone).symm ▸ hwritten) hout⟩
    · exact ⟨l :: ls ++ out, .run htable hrest ((if_neg hdone).symm ▸ rfl) hout⟩

theorem of_nil (hdoc : ∀ l ∈ doc, '\n' ∉ l) (n : Nat) : Realigned d [] n doc doc := by
  obtain ⟨out, h⟩ := exists_out d [] hdoc n
  have heq : out = doc := by
    clear hdoc
    induction h with
    | nil => rfl
    | line hl h ih => rw [ih]
    | run hrun hrest hwritten h ih =>
      rw [if_neg List.not_mem_nil] at hwritten
      rw [hwritten, ih]
  exact heq ▸ h

theorem congr (h : Realigned d done n doc out) {done' : List Region}
    (hdone : ∀ r : Region, n ≤ r.startLine → (r ∈ done ↔ r ∈ done')) :
    Realigned d done' n doc out := by
  induction h with
  | nil => exact .nil
  | line hl h ih => exact .line hl (ih fun r hr => hdone r (Nat.le_of_succ_le hr))
  | @run n run written rest out hrun hrest hwritten h ih =>
    have hregion := hdone ⟨n, n + run.length - 1⟩ (Nat.le_refl n)
    simp only [hregion] at hwritten
    exact .run hrun hrest hwritten (ih fun r hr => hdone r (Nat.le_of_add_right_le hr))

theorem runLength_eq_zero (h : Realigned d done n doc out) (hdoc : runLength doc = 0) :
    runLength out = 0 := by
  cases h with
  | nil => rfl
  | line hl h => exact runLength_cons_of_not_tableLine hl _
  | run hrun hrest hwritten h =>
    exact absurd hdoc (hrun.runLength_ne_zero _)

/-- Realigning moves no region. -/
theorem regionsFrom_eq (h : Realigned d done n doc out) :
    regionsFrom n out = regionsFrom n doc := by
  induction h with
  | nil => rfl
  | line hl h ih =>
    rw [regionsFrom_cons_of_not_tableLine hl, regionsFrom_cons_of_not_tableLine hl, ih]
  | run hrun hrest hwritten h ih =>
    obtain ⟨hrun', hlength⟩ := hrun.of_written hwritten
    have hbelow := h.runLength_eq_zero hrest
    rw [hrun.regionsFrom_append hrest, hrun'.regionsFrom_append hbelow, hlength, ih]

/-- Each region can be realigned, be it for the first time or once more: its lines stand between
lines that do not continue them, and once they have given way to the written ones, the region is
among those that are done. -/
theorem exists_step (h : Realigned d done n doc out) {r : Region} (hr : r ∈ regionsFrom n doc) :
    ∃ pre run written rest, out = pre ++ (run ++ rest) ∧ IsRun pre run rest ∧ TableRun run ∧
      WrittenRun d run written ∧ r.startLine = n + pre.length ∧
      Realigned d (r :: done) n doc (pre ++ (written ++ rest)) := by
  induction h with
  | nil => cases hr
  | @line n l doc out hl h ih =>
    rw [regionsFrom_cons_of_not_tableLine hl] at hr
    obtain ⟨pre, run, written, rest, rfl, hplace, hrun, hwritten, hstart, hnext⟩ := ih hr
    have hplace' : IsRun (l :: pre) run rest :=
      hplace.append_left [l] fun _ => runLength_cons_of_not_tableLine hl []
    refine ⟨l :: pre, run, written, rest, rfl, hplace', hrun, hwritten, ?_, .line hl hnext⟩
    rw [hstart, List.length_cons]
    omega
  | @run n run written rest out hrun hrest hwritten h ih =>
    have hpos : 0 < run.length := List.length_pos_iff.2 hrun.ne_nil
    obtain ⟨hrun', hlength⟩ := hrun.of_written hwritten
    have hbelow := h.runLength_eq_zero hrest
    rw [hrun.regionsFrom_append hrest] at hr
    rcases List.mem_cons.1 hr with rfl | hr
    · obtain ⟨next, hnext, hnext'⟩ := hrun.exists_written_of hwritten
      have hstep : Realigned d (⟨n, n + run.length - 1⟩ :: done) n (run ++ rest) (next ++ out) := by
        refine .run hrun hrest (by rwa [if_pos List.mem_cons_self]) (h.congr fun r hr => ?_)
        exact (mem_cons_iff (by simp only; omega)).symm
      exact ⟨[], written, next, out, rfl, ⟨rfl, hrun'.isTableLine, hbelow⟩, hrun', hnext', rfl,
        hstep⟩
    · obtain ⟨pre, run₁, written₁, rest₁, rfl, hplace, hrun₁, hwritten₁, hstart, hnext⟩ := ih hr
      have hplace' : IsRun (written ++ pre) run₁ rest₁ := by
        refine hplace.append_left written fun hnil => ?_
        subst hnil
        exact absurd hbelow (hrun₁.runLength_ne_zero rest₁)
      have hkept : (⟨n, n + run.length - 1⟩ : Region) ∈ r :: done ↔
          (⟨n, n + run.length - 1⟩ : Region) ∈ done :=
        mem_cons_iff (by simp only; omega)
      simp only [← hkept] at hwritten
      refine ⟨written ++ pre, run₁, written₁, rest₁, (List.append_assoc _ _ _).symm, hplace', hrun₁,
        hwritten₁, ?_, ?_⟩
      · rw [hstart, List.length_append, hlength, Nat.add_assoc]
      · rw [List.append_assoc]
        exact .run hrun hrest hwritten hnext

/-- Formatting the regions from some line on keeps the lines before it. A run that ends at this
line would go on after it, so the lines before or those after end with another kind of line. -/
theorem foldrM_formatRegion (h : Realigned d done n doc out) (pre : List Text)
    (hn : n = pre.length) (hdone : ∀ r ∈ regionsFrom n doc, r ∈ done)
    (hpre : runLength pre.reverse = 0 ∨ runLength doc = 0) :
    (regionsFrom n doc).foldrM (formatRegion d (pre ++ doc)) (pre ++ doc) = .ok (pre ++ out) := by
  induction h generalizing pre with
  | nil => rfl
  | @line n l doc out hl h ih =>
    have hnext : runLength (pre ++ [l]).reverse = 0 := by
      rw [List.reverse_append]
      exact runLength_cons_of_not_tableLine hl _
    rw [regionsFrom_cons_of_not_tableLine hl] at hdone ⊢
    have hout := ih (pre ++ [l]) (by rw [hn, List.length_append]; rfl) hdone (.inl hnext)
    simpa using hout
  | @run n run written rest out hrun hrest hwritten h ih =>
    have hplace : IsRun pre run rest :=
      ⟨hpre.resolve_right (hrun.runLength_ne_zero rest), hrun.isTableLine, hrest⟩
    rw [hrun.regionsFrom_append hrest] at hdone ⊢
    obtain ⟨hfirst, hdone'⟩ := List.forall_mem_cons.1 hdone
    rw [if_pos hfirst] at hwritten
    have hout := ih (pre ++ run) (by rw [hn, List.length_append]) hdone' (.inr hrest)
    simp only [List.append_assoc] at hout
    rw [List.foldrM_cons, hout, hn]
    exact hwritten.formatRegion_eq hrun hplace out

/-- Formatting a document realigns all of its tables. -/
theorem formatLines_eq (h : Realigned d done 0 doc out) (hdone : ∀ r ∈ findAll doc, r ∈ done) :
    formatLines d doc = .ok out :=
  h.foldrM_formatRegion [] rfl hdone (.inl rfl)

theorem again (h : Realigned d done n doc out) (hdone : ∀ r ∈ regionsFrom n doc, r ∈ done) :
    Realigned d done n out out := by
  induction h with
  | nil => exact .nil
  | line hl h ih =>
    rw [regionsFrom_cons_of_not_tableLine hl] at hdone
    exact .line hl (ih hdone)
  | run hrun hrest hwritten h ih =>
    rw [hrun.regionsFrom_append hrest] at hdone
    obtain ⟨hfirst, hdone'⟩ := List.forall_mem_cons.1 hdone
    obtain ⟨hrun', hlength⟩ := hrun.of_written hwritten
    rw [if_pos hfirst] at hwritten
    refine .run hrun' (h.runLength_eq_zero hrest) ?_ ?_
    · rw [hlength, if_pos hfirst]
      exact hwritten.again hrun
    · rw [hlength]
      exact ih hdone'

end Realigned

theorem exists_realigned (d : Dialect) (s : Text) :
    ∃ out, Realigned d (findAll (lines s)) 0 (lines s) out ∧
      formatDocument d s = .ok (joinDocument out (endsWithNewline s)) := by
  have hlines : ∀ l ∈ lines s, '\n' ∉ l := fun l hl => newline_not_mem_lines hl
  obtain ⟨out, hout⟩ := Realigned.exists_out d (findAll (lines s)) hlines 0
  refine ⟨out, hout, ?_⟩
  rw [formatDocument, hout.formatLines_eq fun _ => id]
  rfl

end PipeTable
