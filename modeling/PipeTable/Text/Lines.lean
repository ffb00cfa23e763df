import PipeTable.Text.Blank

/-! # Fields and lines

A text is cut at every occurrence of a character into fields. Its lines are the fields at line
feeds: a carriage return before a line feed belongs to the line's end, and a final line feed
ends the last line instead of starting an empty one.
-/

namespace PipeTable.Text

/-- The pieces between occurrences of `sep`, in order; always one more than occurrences. -/
def fields (sep : Char) : Text → List Text
  | [] => [[]]
  | c :: rest =>
    if c = sep then [] :: fields sep rest
    else
      match fields sep rest with
      | [] => [[c]]
      | first :: others => (c :: first) :: others

theorem fields_ne_nil (sep : Char) (s : Text) : fields sep s ≠ [] := by
  cases s with
  | nil => simp [fields]
  | cons c rest =>
    by_cases hc : c = sep
    · simp [fields, hc]
    · simp only [fields, hc, if_false]
      split <;> simp

/-- A line that a line feed ends, without the carriage return before the line feed. -/
def dropReturn (line : Text) : Text :=
  if line.getLast? = some '\r' then line.dropLast else line

/-- Every field but the last one was ended by a line feed. -/
def linesOfFields : List Text → List Text
  | [] => []
  | [last] => if last = [] then [] else [last]
  | line :: rest => dropReturn line :: linesOfFields rest

def lines (s : Text) : List Text :=
  linesOfFields (fields '\n' s)

/-- Lines put together, a line feed between two neighbours. -/
def joinLines (ls : List Text) : Text :=
  ['\n'].intercalate ls

def endsWithNewline (s : Text) : Bool :=
  s.getLast? == some '\n'

/-- Lines put together, with a line feed at the end when `final` asks for one. -/
def joinDocument (ls : List Text) (final : Bool) : Text :=
  joinLines ls ++ if final then ['\n'] else []

/-- The fields of a text put together again give the text. -/
theorem intercalate_fields (sep : Char) (s : Text) : [sep].intercalate (fields sep s) = s := by
  induction s with
  | nil => rfl
  | cons c rest ih =>
    by_cases hc : c = sep
    · subst hc
      obtain ⟨f, fs, hf⟩ := List.exists_cons_of_ne_nil (fields_ne_nil c rest)
      rw [hf] at ih
      simp [fields, hf, List.intercalate] at ih ⊢
      simpa using ih
    · obtain ⟨f, fs, hf⟩ := List.exists_cons_of_ne_nil (fields_ne_nil sep rest)
      rw [hf] at ih
      simp only [fields, hc, if_false, hf]
      cases fs with
      | nil => simpa [List.intercalate, List.intersperse] using ih
      | cons g gs => simpa [List.intercalate, List.intersperse] using ih

end PipeTable.Text
