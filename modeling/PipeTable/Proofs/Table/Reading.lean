import Mathlib.Data.List.GetD
import PipeTable.Proofs.Table.Legible
import PipeTable.Proofs.Text.Documents

/-! # What the rows of a table are read from

The cells of a line are the pieces between its bars, trimmed. Indentation, blanks at the end and
a bar before them do not change any of them, and past the last piece all cells are empty. Reading
a text gives one row for each of its table lines, and the cells of a data row are those of its
line, with empty ones behind them where another line has more.
-/

namespace PipeTable

open Text

section Line

variable {lead : Text} {sep : Char}

theorem trimEnd_cons_solid {c : Char} (h : isBlank c = false) (s : Text) :
    trimEnd (c :: s) = c :: trimEnd s := by
  unfold trimEnd
  rw [List.reverse_cons, List.dropWhile_append]
  by_cases hs : s.reverse.dropWhile isBlank = [] <;> simp [hs, h]

theorem exists_trimEnd_append (s : Text) : ∃ b, Blank b ∧ trimEnd s ++ b = s := by
  refine ⟨(leadingBlanks s.reverse).reverse, (blank_leadingBlanks _).reverse, ?_⟩
  rw [← List.reverse_inj, List.reverse_append, List.reverse_reverse, reverse_trimEnd,
    leadingBlanks_append_trimStart]

theorem trim_bar (hlead : Blank lead) (body : Text) :
    trim (lead ++ bar :: body) = bar :: trimEnd body := by
  have hhead : trimStart (bar :: body) = bar :: body :=
    List.dropWhile_cons_of_neg (by simp [bar_not_blank])
  rw [trim_append_left hlead, trim, hhead, trimEnd_cons_solid bar_not_blank]

theorem exists_bar_of_tableLine {line : Text} (h : isTableLine line = true) :
    ∃ lead body, Blank lead ∧ line = lead ++ bar :: body := by
  obtain ⟨body, hbody⟩ := startsWithBar_iff.1 h
  refine ⟨leadingBlanks line, body, blank_leadingBlanks line, ?_⟩
  rw [← hbody, leadingBlanks_append_trimStart]

/-- Blanks at the end of a text go to its last field, where trimming drops them. -/
theorem map_trim_fields_append {b : Text} (hb : Blank b) (hsep : sep ∉ b) (s : Text) :
    (fields sep (s ++ b)).map trim = (fields sep s).map trim := by
  induction s using field_induction sep with
  | last f hf =>
    have hmem : sep ∉ f ++ b := by simp [hf, hsep]
    rw [fields_of_not_mem hmem, fields_of_not_mem hf]
    simp [trim_append_right hb]
  | field f rest hf ih =>
    rw [List.append_assoc, List.cons_append, fields_append hf, fields_append hf, List.map_cons,
      List.map_cons, ih]

theorem getD_append_replicate {α : Type} {a : α} (as : List α) (n j : Nat) :
    (as ++ List.replicate n a).getD j a = as.getD j a := by
  simp only [List.getD_eq_getElem?_getD, List.getElem?_append, List.getElem?_replicate]
  by_cases hj : j < as.length
  · simp [hj]
  · by_cases hn : j - as.length < n <;> simp [hj, hn]

theorem getD_fields_dropClosing (s : Text) (j : Nat) :
    (fields bar (dropClosing s)).getD j [] = (fields bar s).getD j [] := by
  unfold dropClosing
  split
  · next h =>
    obtain ⟨front, rfl⟩ := List.getLast?_eq_some_iff.1 h
    rw [List.dropLast_concat, fields_append_sep]
    exact (getD_append_replicate (fields bar front) 1 j).symm
  · rfl

theorem getD_splitCells (hlead : Blank lead) (body : Text) (j : Nat) :
    (splitCells (trim (lead ++ bar :: body))).getD j [] =
      trim ((fields bar body).getD j []) := by
  obtain ⟨b, hb, hbody⟩ := exists_trimEnd_append body
  have htrim (fs : List Text) : (fs.map trim).getD j [] = trim (fs.getD j []) := by
    have hnil : trim [] = [] := trim_of_blank blank_nil
    simpa only [hnil] using List.getD_map fs [] trim
  calc (splitCells (trim (lead ++ bar :: body))).getD j []
      = trim ((fields bar (dropClosing (trimEnd body))).getD j []) := by
        rw [trim_bar hlead, splitCells, dropOpening_bar, htrim]
    _ = ((fields bar (trimEnd body)).map trim).getD j [] := by
        rw [getD_fields_dropClosing, htrim]
    _ = ((fields bar body).map trim).getD j [] := by
        rw [← map_trim_fields_append hb hb.bar_not_mem, hbody]
    _ = trim ((fields bar body).getD j []) := htrim _

end Line

namespace Table

variable {t : Table} {d : Dialect} {line : Text} {ls : List Text}

/-- The row that a trimmed table line is read as, filled up to the cells of other lines. -/
inductive ReadAs (d : Dialect) (line : Text) : Row → Prop
  | separator (h : d.isSeparator line = true) : ReadAs d line .separator
  | data (h : d.isSeparator line = false) (n : Nat) :
      ReadAs d line (.data (splitCells line ++ List.replicate n []))

theorem ReadAs.append {r : Row} (h : ReadAs d line r) (n : Nat) :
    ReadAs d line (r.mapCells (· ++ List.replicate n [])) := by
  cases h with
  | separator h => exact .separator h
  | data h m =>
    have hfill : splitCells line ++ List.replicate m [] ++ List.replicate n [] =
        splitCells line ++ List.replicate (m + n) [] := by
      rw [List.append_assoc, List.replicate_append_replicate]
    rw [Row.mapCells, hfill]
    exact .data h (m + n)

theorem ReadAs.getD_cells {cells : List Text} (h : ReadAs d line (.data cells)) (j : Nat) :
    cells.getD j [] = (splitCells line).getD j [] := by
  cases h with
  | data _ n => exact getD_append_replicate _ n j

theorem readAs_grownFor (h : List.Forall₂ (ReadAs d) ls t.rows) (values : List Text) :
    List.Forall₂ (ReadAs d) ls (t.grownFor values).rows := by
  rw [grownFor, rows_addColumns, List.forall₂_map_right_iff]
  exact h.imp fun _ _ hr => hr.append _

theorem readAs_addLine (h : List.Forall₂ (ReadAs d) ls t.rows) (line : Text) :
    List.Forall₂ (ReadAs d) (ls ++ [line]) (t.addLine d line).rows := by
  unfold addLine
  by_cases hsep : d.isSeparator line = true
  · have hrows : (t.addSeparator d line).rows = (t.addRow .separator []).rows := by
      cases d <;> rfl
    rw [if_pos hsep, hrows, rows_addRow]
    exact List.rel_append (readAs_grownFor h []) (.cons (.separator hsep) .nil)
  · obtain ⟨n, hfit⟩ := fitCells_grownFor (t := t) (splitCells_ne_nil line)
    have hnew := ReadAs.data (Bool.eq_false_iff.2 hsep) n
    rw [if_neg hsep, rows_addRow, hfit]
    exact List.rel_append (readAs_grownFor h _) (.cons hnew .nil)

theorem readAs_addLines (h : List.Forall₂ (ReadAs d) ls t.rows) (more : List Text) :
    List.Forall₂ (ReadAs d) (ls ++ more) (more.foldl (addLine d) t).rows := by
  induction more generalizing t ls with
  | nil => simpa using h
  | cons line more ih =>
    rw [List.append_cons]
    exact ih (readAs_addLine h line)

theorem readAs_of_parse {s : Text} (h : parse d s = some t) :
    List.Forall₂ (ReadAs d) (tableLines s) t.rows := by
  have hempty : List.Forall₂ (ReadAs d) [] empty.rows := .nil
  rw [eq_of_parse h, rows_refit]
  exact readAs_addLines hempty (tableLines s)

end Table

end PipeTable
