import PipeTable.Proofs.Text.Fields

/-! # The content of a text

Blanks, bars, dashes, colons and crossings make up the layout of tables, all other characters
are content. Cutting a text into fields or lines, trimming it and joining lines move the layout
only.
-/

namespace PipeTable.Text

/-- The character is no blank and no mark of a table's layout. -/
def isContent (c : Char) : Bool :=
  !isBlank c && !(['|', '-', ':', '+'].contains c)

/-- The characters of a text that no layout explains, in order. -/
def content (s : Text) : Text :=
  s.filter isContent

@[simp] theorem content_nil : content [] = [] := rfl

@[simp] theorem content_append (s t : Text) : content (s ++ t) = content s ++ content t :=
  List.filter_append ..

theorem content_cons_layout {c : Char} (h : isContent c = false) (s : Text) :
    content (c :: s) = content s := by
  rw [content, List.filter_cons_of_neg (by simp [h])]
  rfl

theorem content_eq_nil_iff {s : Text} : content s = [] ↔ ∀ c ∈ s, isContent c = false := by
  simp [content]

theorem isContent_of_blank {c : Char} (h : isBlank c = true) : isContent c = false := by
  simp [isContent, h]

theorem content_of_blank {s : Text} (h : Blank s) : content s = [] :=
  content_eq_nil_iff.2 fun c hc => isContent_of_blank (h c hc)

@[simp] theorem content_trim (s : Text) : content (trim s) = content s := by
  apply filter_trim
  intro c hc
  cases hblank : isBlank c with
  | false => rfl
  | true =>
    rw [isContent_of_blank hblank] at hc
    cases hc

theorem content_intercalate {sep : Char} (h : isContent sep = false) (ls : List Text) :
    content ([sep].intercalate ls) = ls.flatMap content := by
  have hsep : content [sep] = [] := content_cons_layout h []
  induction ls with
  | nil => rfl
  | cons l ls ih =>
    cases ls with
    | nil => simp [List.intercalate]
    | cons m ms =>
      rw [List.intercalate_cons_cons, content_append, content_append, ih, hsep, List.append_nil]
      rfl

theorem content_joinLines (ls : List Text) : content (joinLines ls) = ls.flatMap content :=
  content_intercalate (isContent_of_blank isBlank_newline) ls

theorem flatMap_content_fields {sep : Char} (h : isContent sep = false) (s : Text) :
    (fields sep s).flatMap content = content s := by
  rw [← content_intercalate h, intercalate_fields]

theorem content_dropReturn (line : Text) : content (dropReturn line) = content line := by
  rw [← content_trim (dropReturn line), trim_dropReturn, content_trim]

theorem flatMap_content_linesOfFields (fs : List Text) :
    (linesOfFields fs).flatMap content = fs.flatMap content := by
  induction fs with
  | nil => rfl
  | cons f fs ih =>
    cases fs with
    | nil => by_cases hf : f = [] <;> simp [linesOfFields, hf]
    | cons g gs =>
      have hcons : linesOfFields (f :: g :: gs) = dropReturn f :: linesOfFields (g :: gs) := rfl
      rw [hcons, List.flatMap_cons, ih, content_dropReturn]
      rfl

theorem flatMap_content_lines (s : Text) : (lines s).flatMap content = content s := by
  rw [lines, flatMap_content_linesOfFields,
    flatMap_content_fields (isContent_of_blank isBlank_newline)]

theorem content_joinDocument (ls : List Text) (final : Bool) :
    content (joinDocument ls final) = ls.flatMap content := by
  have hfinal : content (if final then ['\n'] else []) = [] := by
    cases final
    · rfl
    · exact content_cons_layout (isContent_of_blank isBlank_newline) []
  rw [joinDocument, content_append, content_joinLines, hfinal, List.append_nil]

end PipeTable.Text
