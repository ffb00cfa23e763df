import PipeTable.Proofs.Text.Trimming
import PipeTable.Text.Lines

/-! # Fields and lines

Cutting a text at a character and putting the fields together again are inverse to each other,
as long as no field holds the character. Lines differ from the fields at line feeds only in
carriage returns and in an empty last field, which trimming and the search for lines with
something on them do not see.
-/

namespace PipeTable.Text

theorem fields_eq_splitOn (sep : Char) (s : Text) : fields sep s = s.splitOn sep := by
  induction s with
  | nil => rfl
  | cons c s ih =>
    rw [List.splitOn_cons_eq_if_modifyHead, ← ih, fields]
    simp only [beq_iff_eq]
    split
    · rfl
    · obtain ⟨f, fs, hf⟩ := List.exists_cons_of_ne_nil (fields_ne_nil sep s)
      simp [hf]

theorem fields_intercalate {sep : Char} {fs : List Text} (h : ∀ f ∈ fs, sep ∉ f) (hne : fs ≠ []) :
    fields sep ([sep].intercalate fs) = fs := by
  rw [fields_eq_splitOn, List.splitOn_intercalate sep h hne]

theorem fields_append_sep (sep : Char) (s rest : Text) :
    fields sep (s ++ sep :: rest) = fields sep s ++ fields sep rest := by
  induction s with
  | nil => simp [fields]
  | cons c s ih =>
    by_cases hc : c = sep
    · simp [fields, hc, ih]
    · obtain ⟨f, fs, hf⟩ := List.exists_cons_of_ne_nil (fields_ne_nil sep s)
      simp [fields, hc, ih, hf]

theorem flatten_fields (sep : Char) (s : Text) :
    (fields sep s).flatten = s.filter (fun c => c != sep) := by
  induction s with
  | nil => rfl
  | cons c s ih =>
    by_cases hc : c = sep
    · simp [fields, hc, ih]
    · obtain ⟨f, fs, hf⟩ := List.exists_cons_of_ne_nil (fields_ne_nil sep s)
      rw [hf] at ih
      simp [fields, hc, hf] at ih ⊢
      exact ih

theorem mem_of_mem_fields {sep c : Char} {s f : Text} (hf : f ∈ fields sep s) (hc : c ∈ f) :
    c ∈ s ∧ c ≠ sep := by
  have h : c ∈ (fields sep s).flatten := List.mem_flatten.2 ⟨f, hf, hc⟩
  rw [flatten_fields, List.mem_filter] at h
  exact ⟨h.1, by simpa using h.2⟩

theorem not_mem_of_mem_fields {sep : Char} {s f : Text} (hf : f ∈ fields sep s) : sep ∉ f :=
  fun hc => (mem_of_mem_fields hf hc).2 rfl

theorem prefix_of_fields {sep : Char} {s f : Text} {fs : List Text} (h : fields sep s = f :: fs) :
    f <+: s := by
  have hs := intercalate_fields sep s
  rw [h] at hs
  rw [← hs]
  cases fs with
  | nil => simp [List.intercalate]
  | cons g gs => exact ⟨sep :: [sep].intercalate (g :: gs), by simp [List.intercalate]⟩

theorem trim_dropReturn (line : Text) : trim (dropReturn line) = trim line := by
  unfold dropReturn
  split
  · next h =>
    have hreturn : Blank ['\r'] := by
      intro c hc
      rw [List.mem_singleton.1 hc]
      decide
    obtain ⟨front, rfl⟩ := List.getLast?_eq_some_iff.1 h
    rw [List.dropLast_concat, trim_append_right hreturn]
  · rfl

/-- A search that passes over empty lines finds in the trimmed lines what it finds in the
trimmed fields at line feeds. -/
theorem filter_trim_linesOfFields {p : Text → Bool} (hp : p [] = false) (fs : List Text) :
    ((linesOfFields fs).map trim).filter p = (fs.map trim).filter p := by
  induction fs with
  | nil => rfl
  | cons f fs ih =>
    cases fs with
    | nil =>
      by_cases hf : f = []
      · simp [linesOfFields, hf, trim_of_blank blank_nil, hp]
      · simp [linesOfFields, hf]
    | cons g gs =>
      simp only [linesOfFields, List.map_cons, List.filter_cons, trim_dropReturn] at ih ⊢
      rw [ih]

theorem filter_trim_lines {p : Text → Bool} (hp : p [] = false) (s : Text) :
    ((lines s).map trim).filter p = ((fields '\n' s).map trim).filter p :=
  filter_trim_linesOfFields hp _

theorem filter_trim_lines_joinLines {p : Text → Bool} (hp : p [] = false) {ls : List Text}
    (h : ∀ l ∈ ls, '\n' ∉ l) :
    ((lines (joinLines ls)).map trim).filter p = (ls.map trim).filter p := by
  rw [filter_trim_lines hp]
  cases ls with
  | nil => simp [joinLines, List.intercalate, fields, trim_of_blank blank_nil, hp]
  | cons l ls => rw [joinLines, fields_intercalate h (by simp)]

/-- A field that ends with something else than a carriage return is a line as it stands. -/
theorem linesOfFields_eq_self {fs : List Text}
    (h : ∀ f ∈ fs, ∃ c, f.getLast? = some c ∧ c ≠ '\r') : linesOfFields fs = fs := by
  induction fs with
  | nil => rfl
  | cons f fs ih =>
    obtain ⟨⟨c, hc, hreturn⟩, hfs⟩ := List.forall_mem_cons.1 h
    cases fs with
    | nil =>
      have hf : f ≠ [] := by
        rintro rfl
        cases hc
      rw [linesOfFields, if_neg hf]
    | cons g gs =>
      have hkeep : dropReturn f = f := by
        rw [dropReturn, hc, if_neg]
        simpa using hreturn
      rw [linesOfFields, hkeep, ih hfs]
      exact nofun

theorem lines_joinLines {ls : List Text} (hnew : ∀ l ∈ ls, '\n' ∉ l)
    (hend : ∀ l ∈ ls, ∃ c, l.getLast? = some c ∧ c ≠ '\r') : lines (joinLines ls) = ls := by
  cases ls with
  | nil => rfl
  | cons l ls =>
    rw [lines, joinLines, fields_intercalate hnew (List.cons_ne_nil l ls)]
    exact linesOfFields_eq_self hend

theorem mem_of_mem_dropReturn {c : Char} {line : Text} (h : c ∈ dropReturn line) : c ∈ line := by
  unfold dropReturn at h
  split at h
  · exact List.dropLast_subset line h
  · exact h

theorem newline_not_mem_linesOfFields {fs : List Text} (h : ∀ f ∈ fs, '\n' ∉ f) :
    ∀ l ∈ linesOfFields fs, '\n' ∉ l := by
  induction fs with
  | nil => simp [linesOfFields]
  | cons f fs ih =>
    cases fs with
    | nil =>
      intro l hl
      by_cases hf : f = [] <;> simp [linesOfFields, hf] at hl
      exact hl ▸ h f (by simp)
    | cons g gs =>
      intro l hl
      rcases List.mem_cons.1 hl with rfl | hl
      · exact fun hc => h f (by simp) (mem_of_mem_dropReturn hc)
      · exact ih (fun e he => h e (List.mem_cons_of_mem _ he)) l hl

theorem newline_not_mem_lines {s l : Text} (hl : l ∈ lines s) : '\n' ∉ l :=
  newline_not_mem_linesOfFields (fun _ hf => not_mem_of_mem_fields hf) l hl

end PipeTable.Text
