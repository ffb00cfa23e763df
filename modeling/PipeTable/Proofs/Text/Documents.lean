import Mathlib.Data.List.Forall2
import PipeTable.Proofs.Text.Fields

/-! # Texts and their lines

A text is a last piece without line feeds behind pieces that line feeds end. Putting lines
together to a text and taking the text apart again gives these lines, if those that a line feed
ends do not end with a carriage return and one that is not ended is not empty. The lines of a
text are like this unless two carriage returns stand before a line feed: only one of them is
dropped.
-/

namespace PipeTable.Text

variable {s l rest : Text} {final : Bool} {ls out : List Text}

/-- Induction on a text by the pieces that a separator ends. -/
theorem field_induction (sep : Char) {motive : Text → Prop} (last : ∀ f, sep ∉ f → motive f)
    (field : ∀ f rest, sep ∉ f → motive rest → motive (f ++ sep :: rest)) (s : Text) :
    motive s := by
  induction hlen : s.length using Nat.strongRecOn generalizing s with
  | ind n ih =>
    by_cases hs : sep ∈ s
    · obtain ⟨f, rest, rfl, hf⟩ := List.eq_append_cons_of_mem hs
      rw [List.length_append, List.length_cons] at hlen
      exact field f rest hf (ih _ (by omega) rest rfl)
    · exact last s hs

/-- Induction on a text by the pieces that line feeds end. -/
theorem line_induction {motive : Text → Prop} (last : ∀ l, '\n' ∉ l → motive l)
    (line : ∀ l rest, '\n' ∉ l → motive rest → motive (l ++ '\n' :: rest)) (s : Text) :
    motive s :=
  field_induction '\n' last line s

theorem fields_of_not_mem {sep : Char} (h : sep ∉ s) : fields sep s = [s] := by
  have hfields := @fields_intercalate sep [s] (by simpa using h) (by simp)
  simpa [List.intercalate] using hfields

theorem fields_append {sep : Char} (h : sep ∉ l) (rest : Text) :
    fields sep (l ++ sep :: rest) = l :: fields sep rest := by
  rw [fields_append_sep, fields_of_not_mem h, List.singleton_append]

theorem lines_of_not_mem (h : '\n' ∉ s) : lines s = if s = [] then [] else [s] := by
  rw [lines, fields_of_not_mem h]
  rfl

theorem lines_append (h : '\n' ∉ l) (rest : Text) :
    lines (l ++ '\n' :: rest) = dropReturn l :: lines rest := by
  obtain ⟨f, fs, hfields⟩ := List.exists_cons_of_ne_nil (fields_ne_nil '\n' rest)
  rw [lines, lines, fields_append h, hfields]
  rfl

theorem endsWithNewline_of_not_mem (h : '\n' ∉ s) : endsWithNewline s = false := by
  rw [endsWithNewline, beq_eq_false_iff_ne]
  exact fun hlast => h (List.mem_of_getLast? hlast)

theorem endsWithNewline_append (l : Text) (h : rest ≠ []) :
    endsWithNewline (l ++ '\n' :: rest) = endsWithNewline rest := by
  have hlast := List.getLast?_eq_some_getLast h
  simp [endsWithNewline, List.getLast?_append, List.getLast?_cons, hlast]

theorem lines_ne_nil (h : s ≠ []) : lines s ≠ [] := by
  induction s using line_induction with
  | last l hl => simp [lines_of_not_mem hl, h]
  | line l rest hl ih => simp [lines_append hl]

theorem joinDocument_cons (l m : Text) (ls : List Text) (final : Bool) :
    joinDocument (l :: m :: ls) final = l ++ '\n' :: joinDocument (m :: ls) final := by
  simp [joinDocument, joinLines, List.intercalate]

theorem joinLines_concat (h : ls ≠ []) (l : Text) :
    joinLines (ls ++ [l]) = joinLines ls ++ '\n' :: l := by
  unfold joinLines
  induction ls with
  | nil => exact absurd rfl h
  | cons m ms ih =>
    cases ms with
    | nil => simp
    | cons n ns =>
      have hrest := ih (List.cons_ne_nil n ns)
      simp only [List.cons_append, List.intercalate_cons_cons] at hrest ⊢
      rw [hrest]
      simp

theorem endsWithNewline_joinDocument (hnew : ∀ l ∈ ls, '\n' ∉ l)
    (hlast : final = false → ls.getLast? ≠ some []) :
    endsWithNewline (joinDocument ls final) = final := by
  cases final with
  | true => simp [joinDocument, endsWithNewline]
  | false =>
    have hjoin : joinDocument ls false = joinLines ls := List.append_nil _
    rw [hjoin]
    rcases List.eq_nil_or_concat ls with rfl | ⟨front, l, rfl⟩
    · rfl
    · rw [List.concat_eq_append] at hnew hlast ⊢
      have hl : endsWithNewline l = false := endsWithNewline_of_not_mem (hnew l (by simp))
      by_cases hfront : front = []
      · simpa [hfront, joinLines] using hl
      · rw [joinLines_concat hfront, endsWithNewline_append _ (by simpa using hlast rfl), hl]

/-- The lines are those of a text, which ends with a line feed if `final` says so. -/
def IsLines (final : Bool) : List Text → Prop
  | [] => final = false
  | [l] => '\n' ∉ l ∧ if final then l.getLast? ≠ some '\r' else l ≠ []
  | l :: m :: ls => ('\n' ∉ l ∧ l.getLast? ≠ some '\r') ∧ IsLines final (m :: ls)

theorem dropReturn_eq_self (h : l.getLast? ≠ some '\r') : dropReturn l = l :=
  if_neg h

theorem getLast?_dropReturn (h : ¬ ['\r', '\r'] <:+ l) : (dropReturn l).getLast? ≠ some '\r' := by
  unfold dropReturn
  split
  · next hlast =>
    obtain ⟨front, rfl⟩ := List.getLast?_eq_some_iff.1 hlast
    rw [List.dropLast_concat]
    intro hfront
    obtain ⟨front, rfl⟩ := List.getLast?_eq_some_iff.1 hfront
    exact h ⟨front, by simp⟩
  · next hlast => exact hlast

theorem isLines_lines (h : ¬ "\r\r\n".toList <:+: s) : IsLines (endsWithNewline s) (lines s) := by
  induction s using line_induction with
  | last l hl =>
    rw [lines_of_not_mem hl, endsWithNewline_of_not_mem hl]
    by_cases hnil : l = []
    · rw [if_pos hnil]
      rfl
    · rw [if_neg hnil]
      exact ⟨hl, hnil⟩
  | line l rest hl ih =>
    have hrest : ¬ "\r\r\n".toList <:+: rest := by
      rintro ⟨before, after, hinfix⟩
      exact h ⟨l ++ '\n' :: before, after, by simp [← hinfix]⟩
    have hreturn : (dropReturn l).getLast? ≠ some '\r' := by
      refine getLast?_dropReturn ?_
      rintro ⟨front, rfl⟩
      exact h ⟨front, rest, by simp⟩
    have hnew : '\n' ∉ dropReturn l := fun hmem => hl (mem_of_mem_dropReturn hmem)
    rw [lines_append hl]
    by_cases hnil : rest = []
    · subst hnil
      have hfinal : endsWithNewline (l ++ ['\n']) = true := by simp [endsWithNewline]
      rw [hfinal]
      exact ⟨hnew, by simpa using hreturn⟩
    · obtain ⟨m, ms, hlines⟩ := List.exists_cons_of_ne_nil (lines_ne_nil hnil)
      rw [endsWithNewline_append l hnil, hlines]
      exact ⟨⟨hnew, hreturn⟩, hlines ▸ ih hrest⟩

theorem IsLines.lines_joinDocument (h : IsLines final ls) :
    lines (joinDocument ls final) = ls ∧ endsWithNewline (joinDocument ls final) = final := by
  induction ls with
  | nil =>
    obtain rfl : final = false := h
    exact ⟨rfl, rfl⟩
  | cons l ls ih =>
    cases ls with
    | nil =>
      obtain ⟨hnew, hend⟩ := h
      cases final with
      | false =>
        have hjoin : joinDocument [l] false = l := by
          simp [joinDocument, joinLines, List.intercalate]
        have hl : l ≠ [] := by simpa using hend
        rw [hjoin, lines_of_not_mem hnew, if_neg hl]
        exact ⟨rfl, endsWithNewline_of_not_mem hnew⟩
      | true =>
        have hjoin : joinDocument [l] true = l ++ ['\n'] := by
          simp [joinDocument, joinLines, List.intercalate]
        rw [hjoin, lines_append hnew, dropReturn_eq_self (by simpa using hend)]
        exact ⟨rfl, by simp [endsWithNewline]⟩
    | cons m ms =>
      obtain ⟨⟨hnew, hreturn⟩, hrest⟩ := h
      obtain ⟨hlines, hfinal⟩ := ih hrest
      have hne : joinDocument (m :: ms) final ≠ [] := by
        intro hnil
        rw [hnil] at hlines
        cases hlines
      rw [joinDocument_cons, lines_append hnew, dropReturn_eq_self hreturn, hlines,
        endsWithNewline_append l hne]
      exact ⟨rfl, hfinal⟩

/-- A line may be another one if that is on one line too and has something else than a carriage
return at its end. -/
def StandsFor (l m : Text) : Prop :=
  m = l ∨ ('\n' ∉ m ∧ ∃ c, m.getLast? = some c ∧ c ≠ '\r')

namespace StandsFor

variable {m : Text}

theorem newline (h : StandsFor l m) (hl : '\n' ∉ l) : '\n' ∉ m := by
  rcases h with rfl | ⟨hm, -⟩
  · exact hl
  · exact hm

theorem getLast? (h : StandsFor l m) (hl : l.getLast? ≠ some '\r') :
    m.getLast? ≠ some '\r' := by
  rcases h with rfl | ⟨-, c, hc, hreturn⟩
  · exact hl
  · rw [hc, ne_eq, Option.some.injEq]
    exact hreturn

theorem ne_nil (h : StandsFor l m) (hl : l ≠ []) : m ≠ [] := by
  rcases h with rfl | ⟨-, c, hc, -⟩
  · exact hl
  · rintro rfl
    cases hc

end StandsFor

theorem IsLines.replace (h : IsLines final ls) (hout : List.Forall₂ StandsFor ls out) :
    IsLines final out := by
  induction hout with
  | nil => exact h
  | cons hm hms ih =>
    cases hms with
    | nil =>
      refine ⟨hm.newline h.1, ?_⟩
      cases final with
      | false => exact hm.ne_nil h.2
      | true => exact hm.getLast? h.2
    | cons hm' hms =>
      obtain ⟨⟨hnew, hreturn⟩, hrest⟩ := h
      exact ⟨⟨hm.newline hnew, hm.getLast? hreturn⟩, ih hrest⟩

end PipeTable.Text
