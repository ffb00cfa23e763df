import PipeTable.Proofs.Document.Realigned
import PipeTable.Proofs.Table.Content

/-! # What formatting a document keeps

Formatting goes through the regions of a document from the last to the first. Each of them gives
way to the written lines of its table, which hold what the table was told, and all lines between
the regions stay. The content of a document therefore comes through in order, all but what
stands on table lines that the dialect takes for separators: these are written anew as rules.
-/

namespace PipeTable

open Text Region

variable {d : Dialect} {l : Text}

/-- The line is read as a separator row. -/
def isRule (d : Dialect) (line : Text) : Bool :=
  isTableLine line && d.isSeparator (trim line)

/-- What formatting keeps of the content of a line. -/
def keptContent (d : Dialect) (line : Text) : Text :=
  if isRule d line then [] else content line

theorem keptContent_of_not_tableLine (h : isTableLine l = false) :
    keptContent d l = content l := by
  rw [keptContent, isRule, h, Bool.false_and, if_neg Bool.false_ne_true]

theorem keptContent_of_tableLine (h : isTableLine l = true) :
    keptContent d l = lineContent d (trim l) := by
  rw [keptContent, isRule, h, Bool.true_and, lineContent, content_trim]

theorem WrittenRun.content {run written : List Text} (h : WrittenRun d run written)
    (hrun : TableRun run) : written.flatMap content = run.flatMap (keptContent d) := by
  obtain ⟨t, ht, rfl⟩ := h
  have hrender : Text.content (t.render d (leadingBlanks (run.headD []))) = t.content :=
    Table.content_render (Table.wellFormed_of_parse ht) (blank_leadingBlanks _)
  rw [← content_joinLines, ← Table.render, hrender, Table.content_of_parse ht,
    tableLines_joinLines_run hrun.newline hrun.isTableLine, List.flatMap_map]
  exact List.flatMap_congr fun m hm => (keptContent_of_tableLine (hrun.isTableLine m hm)).symm

/-- A document all of whose tables have been realigned holds what its lines keep. -/
theorem Realigned.content {done : List Region} {n : Nat} {doc out : List Text}
    (h : Realigned d done n doc out) (hdone : ∀ r ∈ regionsFrom n doc, r ∈ done) :
    out.flatMap content = doc.flatMap (keptContent d) := by
  induction h with
  | nil => rfl
  | line hl h ih =>
    rw [regionsFrom_cons_of_not_tableLine hl] at hdone
    rw [List.flatMap_cons, List.flatMap_cons, keptContent_of_not_tableLine hl, ih hdone]
  | run hrun hrest hwritten h ih =>
    rw [hrun.regionsFrom_append hrest] at hdone
    obtain ⟨hfirst, hdone'⟩ := List.forall_mem_cons.1 hdone
    rw [if_pos hfirst] at hwritten
    rw [List.flatMap_append, List.flatMap_append, hwritten.content hrun, ih hdone']

theorem exists_formatDocument (d : Dialect) (s : Text) :
    ∃ out, formatDocument d s = .ok out ∧
      content out = (lines s).flatMap (keptContent d) := by
  obtain ⟨out, hout, hformat⟩ := exists_realigned d s
  refine ⟨_, hformat, ?_⟩
  rw [content_joinDocument, hout.content fun _ => id]

theorem length_flatMap_keptContent_le (d : Dialect) (doc : List Text) :
    (doc.flatMap (keptContent d)).length ≤ (doc.flatMap content).length := by
  induction doc with
  | nil => exact Nat.le_refl _
  | cons l ls ih =>
    have hline : (keptContent d l).length ≤ (content l).length := by
      unfold keptContent
      split
      · exact Nat.zero_le _
      · exact Nat.le_refl _
    rw [List.flatMap_cons, List.flatMap_cons, List.length_append, List.length_append]
    exact Nat.add_le_add hline ih

/-- Lines make up for nothing that is lost on another one. -/
theorem flatMap_keptContent_eq_iff (d : Dialect) (doc : List Text) :
    doc.flatMap (keptContent d) = doc.flatMap content ↔
      ∀ l ∈ doc, isRule d l = true → content l = [] := by
  induction doc with
  | nil => simp
  | cons l ls ih =>
    rw [List.flatMap_cons, List.flatMap_cons, List.forall_mem_cons, ← ih]
    by_cases hrule : isRule d l = true
    · rw [keptContent, if_pos hrule, List.nil_append]
      constructor
      · intro h
        have hlen := length_flatMap_keptContent_le d ls
        rw [h, List.length_append] at hlen
        have hl : content l = [] := List.length_eq_zero_iff.1 (by omega)
        rw [hl, List.nil_append] at h
        exact ⟨fun _ => hl, h⟩
      · rintro ⟨hl, h⟩
        rw [hl hrule, h, List.nil_append]
    · rw [keptContent, if_neg hrule, List.append_cancel_left_eq]
      exact ⟨fun h => ⟨fun hr => absurd hr hrule, h⟩, And.right⟩

/-- Formatting goes through for every text. It keeps the content of all lines but those that are
read as separator rows, and so keeps all content exactly if those lines have none. -/
theorem content_formatDocument (d : Dialect) (s : Text) :
    ∃ out, formatDocument d s = .ok out ∧
      content out = (lines s).flatMap (keptContent d) ∧
      (content out = content s ↔
        ∀ l ∈ lines s, isTableLine l = true → d.isSeparator (trim l) = true → content l = []) := by
  obtain ⟨out, hout, hcontent⟩ := exists_formatDocument d s
  refine ⟨out, hout, hcontent, ?_⟩
  rw [hcontent, ← flatMap_content_lines s, flatMap_keptContent_eq_iff]
  refine forall₂_congr fun l _ => ?_
  rw [isRule, Bool.and_eq_true, and_imp]

/-- A negative number in the first cell makes its row a separator, and the number is gone. -/
theorem content_formatDocument_negative :
    formatDocument .markdown "|x|\n|-5|".toList = .ok "| x   |\n| --- |".toList ∧
      content "| x   |\n| --- |".toList ≠ content "|x|\n|-5|".toList := by
  decide

end PipeTable
