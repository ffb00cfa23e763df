import PipeTable.Proofs.Document.Stability

/-! # Prose around tables

Formatting takes a text apart into lines and puts line feeds between them again, whatever ended
them before. So the lines outside all tables come back in their places and character for
character, but where a carriage return and a line feed ended a line, only the line feed is left.
-/

namespace PipeTable

open Text Region

namespace Text

variable {s l rest : Text} {final : Bool} {ls : List Text}

/-- The lines of a text, each with the line feed that ends it. -/
def endedLines : Text → List Text
  | [] => []
  | c :: rest =>
    if c = '\n' then [c] :: endedLines rest
    else
      match endedLines rest with
      | [] => [[c]]
      | l :: ls => (c :: l) :: ls

/-- The line with a line feed alone in the place of a carriage return and a line feed. -/
def plainEnd (l : Text) : Text :=
  if "\r\n".toList <:+ l then l.dropLast.dropLast ++ ['\n'] else l

/-- Put a line feed behind each line, behind the last one only if `final` asks for it. -/
def endLines (final : Bool) : List Text → List Text
  | [] => []
  | [l] => [l ++ if final then ['\n'] else []]
  | l :: m :: ls => (l ++ ['\n']) :: endLines final (m :: ls)

theorem flatten_endedLines (s : Text) : (endedLines s).flatten = s := by
  induction s with
  | nil => rfl
  | cons c s ih =>
    by_cases hc : c = '\n'
    · simp [endedLines, hc, ih]
    · cases h : endedLines s <;> simp_all [endedLines]

theorem endedLines_of_not_mem (h : '\n' ∉ s) : endedLines s = if s = [] then [] else [s] := by
  induction s with
  | nil => rfl
  | cons c s ih =>
    obtain ⟨hc, hs⟩ := not_or.1 (List.mem_cons.not.1 h)
    rw [endedLines, if_neg (Ne.symm hc), ih hs]
    by_cases hnil : s = [] <;> simp [hnil]

theorem endedLines_append (h : '\n' ∉ l) (rest : Text) :
    endedLines (l ++ '\n' :: rest) = (l ++ ['\n']) :: endedLines rest := by
  induction l with
  | nil => simp [endedLines]
  | cons c l ih =>
    obtain ⟨hc, hl⟩ := not_or.1 (List.mem_cons.not.1 h)
    simp [endedLines, Ne.symm hc, ih hl]

theorem plainEnd_of_not_mem (h : '\n' ∉ l) : plainEnd l = l :=
  if_neg fun hsuffix => h (hsuffix.subset (by decide))

theorem plainEnd_append (l : Text) : plainEnd (l ++ ['\n']) = dropReturn l ++ ['\n'] := by
  by_cases h : l.getLast? = some '\r'
  · obtain ⟨front, rfl⟩ := List.getLast?_eq_some_iff.1 h
    simp [plainEnd, dropReturn]
  · have hsuffix : ¬ "\r\n".toList <:+ l ++ ['\n'] := by
      rintro ⟨front, hfront⟩
      have hl : front ++ ['\r'] = l := List.append_cancel_right (by simpa using hfront)
      exact h (by simp [← hl])
    rw [plainEnd, if_neg hsuffix, dropReturn_eq_self h]

theorem plainEnd_eq_self_iff : plainEnd l = l ↔ ¬ "\r\n".toList <:+ l := by
  refine ⟨fun h hsuffix => ?_, fun h => if_neg h⟩
  rw [plainEnd, if_pos hsuffix] at h
  obtain ⟨front, rfl⟩ := hsuffix
  simpa using congrArg List.length h

theorem map_plainEnd_endedLines (s : Text) :
    (endedLines s).map plainEnd = endLines (endsWithNewline s) (lines s) := by
  induction s using line_induction with
  | last l hl =>
    rw [endedLines_of_not_mem hl, lines_of_not_mem hl, endsWithNewline_of_not_mem hl]
    by_cases hnil : l = [] <;> simp [hnil, endLines, plainEnd_of_not_mem hl]
  | line l rest hl ih =>
    rw [endedLines_append hl, lines_append hl, List.map_cons, plainEnd_append, ih]
    by_cases hnil : rest = []
    · simp [hnil, lines_of_not_mem, endLines, endsWithNewline]
    · obtain ⟨m, ms, hlines⟩ := List.exists_cons_of_ne_nil (lines_ne_nil hnil)
      rw [endsWithNewline_append l hnil, hlines, endLines]

theorem getLast?_lines (h : endsWithNewline s = false) : (lines s).getLast? ≠ some [] := by
  induction s using line_induction with
  | last l hl =>
    rw [lines_of_not_mem hl]
    by_cases hnil : l = [] <;> simp [hnil]
  | line l rest hl ih =>
    by_cases hnil : rest = []
    · simp [hnil, endsWithNewline] at h
    · rw [endsWithNewline_append l hnil] at h
      obtain ⟨m, ms, hlines⟩ := List.exists_cons_of_ne_nil (lines_ne_nil hnil)
      rw [lines_append hl, hlines, List.getLast?_cons_cons, ← hlines]
      exact ih h

/-- Lines put together to a text are told apart again, if the last one is not lost. -/
theorem endedLines_joinDocument (hnew : ∀ l ∈ ls, '\n' ∉ l) (hnil : ls = [] → final = false)
    (hlast : final = false → ls.getLast? ≠ some []) :
    endedLines (joinDocument ls final) = endLines final ls := by
  induction ls with
  | nil =>
    obtain rfl := hnil rfl
    rfl
  | cons l ls ih =>
    obtain ⟨hl, hls⟩ := List.forall_mem_cons.1 hnew
    cases ls with
    | nil =>
      have hjoin : joinDocument [l] final = l ++ if final then ['\n'] else [] := by
        simp [joinDocument, joinLines, List.intercalate]
      rw [hjoin]
      cases final with
      | true => simpa [endLines, endedLines] using endedLines_append hl []
      | false =>
        have hne : l ≠ [] := by simpa using hlast rfl
        simp [endLines, endedLines_of_not_mem hl, hne]
    | cons m ms =>
      have hrest := ih hls (fun h => absurd h (List.cons_ne_nil m ms)) (by simpa using hlast)
      rw [joinDocument_cons, endedLines_append hl, hrest, endLines]

theorem exists_return_iff (s : Text) :
    (∃ l ∈ endedLines s, "\r\n".toList <:+ l) ↔ "\r\n".toList <:+: s := by
  constructor
  · rintro ⟨l, hl, hsuffix⟩
    rw [← flatten_endedLines s]
    exact hsuffix.isInfix.trans (List.infix_of_mem_flatten hl)
  · rintro ⟨before, after, rfl⟩
    induction before using line_induction with
    | last l hl =>
      have hreturn : '\n' ∉ l ++ ['\r'] := by simp [hl]
      have hended := endedLines_append hreturn after
      exact ⟨l ++ ['\r'] ++ ['\n'], by simp_all, l, by simp⟩
    | line l before hl ih =>
      obtain ⟨m, hm, hsuffix⟩ := ih
      refine ⟨m, ?_, hsuffix⟩
      rw [List.append_assoc, List.append_assoc, List.cons_append, endedLines_append hl]
      exact List.mem_cons_of_mem _ (by simpa using hm)

end Text

section Lines

variable {d : Dialect} {done : List Region} {n : Nat} {doc out : List Text} {l : Text}

theorem blank_newline : Blank ['\n'] :=
  List.forall_mem_singleton.2 isBlank_newline

theorem isTableLine_append_blank {b : Text} (hb : Blank b) (l : Text) :
    isTableLine (l ++ b) = isTableLine l := by
  rw [← startsWithBar_trim, trim_append_right hb, startsWithBar_trim]

theorem isTableLine_plainEnd (l : Text) : isTableLine (plainEnd l) = isTableLine l := by
  by_cases h : "\r\n".toList <:+ l
  · obtain ⟨front, rfl⟩ := h
    have hplain : plainEnd (front ++ "\r\n".toList) = front ++ ['\n'] := by simp [plainEnd]
    have hreturn : Blank "\r\n".toList := by
      rw [String.toList_ofList]
      exact List.forall_mem_cons.2 ⟨by decide, blank_newline⟩
    rw [hplain, isTableLine_append_blank blank_newline, isTableLine_append_blank hreturn]
  · rw [plainEnd_eq_self_iff.2 h]

/-- In the place of a line stands a table line if it is one, and the line itself if not. -/
def KeepsProse (l m : Text) : Prop :=
  isTableLine m = isTableLine l ∧ (isTableLine l = false → m = l)

theorem Realigned.keepsProse (h : Realigned d done n doc out) :
    List.Forall₂ KeepsProse doc out := by
  induction h with
  | nil => exact .nil
  | line hl h ih => exact .cons ⟨rfl, fun _ => rfl⟩ ih
  | @run n run written rest out hrun hrest hwritten h ih =>
    obtain ⟨hrun', hlength⟩ := hrun.of_written hwritten
    refine List.rel_append (List.forall₂_iff_zip.2 ⟨hlength.symm, fun {l m} hlm => ?_⟩) ih
    obtain ⟨hl, hm⟩ := List.of_mem_zip hlm
    have hl := hrun.isTableLine l hl
    exact ⟨(hrun'.isTableLine m hm).trans hl.symm, by simp [hl]⟩

theorem Realigned.newline_not_mem (h : Realigned d done n doc out) (hdoc : ∀ l ∈ doc, '\n' ∉ l) :
    ∀ m ∈ out, '\n' ∉ m := by
  induction h with
  | nil => exact hdoc
  | line hl h ih =>
    rw [List.forall_mem_cons] at hdoc ⊢
    exact ⟨hdoc.1, ih hdoc.2⟩
  | run hrun hrest hwritten h ih =>
    rw [List.forall_mem_append] at hdoc ⊢
    exact ⟨(hrun.of_written hwritten).1.newline, ih hdoc.2⟩

theorem getLast?_of_keepsProse (h : List.Forall₂ KeepsProse doc out)
    (hout : out.getLast? = some []) : doc.getLast? = some [] := by
  induction h with
  | nil => exact hout
  | cons hl h ih =>
    cases h with
    | nil =>
      obtain rfl : _ = [] := Option.some.inj hout
      exact congrArg some (hl.2 hl.1.symm).symm
    | cons hm h => exact ih hout

theorem KeepsProse.append_blank {m b : Text} (h : KeepsProse l m) (hb : Blank b) :
    KeepsProse (l ++ b) (m ++ b) := by
  simp_all [KeepsProse, isTableLine_append_blank]

theorem forall₂_endLines (h : List.Forall₂ KeepsProse doc out) (final : Bool) :
    List.Forall₂ KeepsProse (endLines final doc) (endLines final out) := by
  induction h with
  | nil => exact .nil
  | cons hl h ih =>
    cases h with
    | nil =>
      have hend : Blank (if final then ['\n'] else []) := by
        split
        · exact blank_newline
        · exact blank_nil
      exact .cons (hl.append_blank hend) .nil
    | cons hm h => exact .cons (hl.append_blank blank_newline) ih

end Lines

/-- What formatting makes of a line with its end: a table line of a table line, and of any other
line the same one with a plain end. -/
def FormattedLine (l m : Text) : Prop :=
  isTableLine m = isTableLine l ∧ (isTableLine l = false → m = plainEnd l)

theorem forall₂_iff_forall_mem {α β : Type} {R S : α → β → Prop} {P : α → Prop} {as : List α}
    {bs : List β} (h : List.Forall₂ R as bs) (hiff : ∀ a b, R a b → (S a b ↔ P a)) :
    List.Forall₂ S as bs ↔ ∀ a ∈ as, P a := by
  induction h with
  | nil => simp
  | cons hab h ih => rw [List.forall₂_cons, List.forall_mem_cons, hiff _ _ hab, ih]

theorem eq_of_forall₂_prose {ls ms : List Text} (hprose : ∀ l ∈ ls, isTableLine l = false)
    (h : List.Forall₂ (fun l m => isTableLine l = false → m = l) ls ms) : ms = ls := by
  induction h with
  | nil => rfl
  | cons hl h ih =>
    obtain ⟨hfirst, hrest⟩ := List.forall_mem_cons.1 hprose
    rw [hl hfirst, ih hrest]

theorem exists_formattedLines (d : Dialect) (s : Text) :
    ∃ out, formatDocument d s = .ok out ∧
      List.Forall₂ FormattedLine (endedLines s) (endedLines out) := by
  obtain ⟨ls, hls, hformat⟩ := exists_realigned d s
  refine ⟨_, hformat, ?_⟩
  have hnew := hls.newline_not_mem fun l hl => newline_not_mem_lines hl
  have hnil : ls = [] → endsWithNewline s = false := by
    rintro rfl
    have hlines := List.forall₂_nil_right_iff.1 hls.keepsProse
    have hs : s = [] := by_contra fun hne => lines_ne_nil hne hlines
    rw [hs]
    rfl
  rw [endedLines_joinDocument hnew hnil fun hs hlast =>
    getLast?_lines hs (getLast?_of_keepsProse hls.keepsProse hlast)]
  have hended := forall₂_endLines hls.keepsProse (endsWithNewline s)
  rw [← map_plainEnd_endedLines, List.forall₂_map_left_iff] at hended
  exact hended.imp fun l m hlm => by
    rwa [KeepsProse, isTableLine_plainEnd] at hlm

/-- Formatting keeps the prose of a text, each line in its place between the same tables, but for
the carriage returns at the ends of its lines. So all prose stays exactly if no line of it ends
with a carriage return and a line feed, and a text without tables exactly if it has none. -/
theorem formatDocument_prose (d : Dialect) (s : Text) :
    ∃ out, formatDocument d s = .ok out ∧
      List.Forall₂ FormattedLine (endedLines s) (endedLines out) ∧
      (List.Forall₂ (fun l m => isTableLine l = false → m = l) (endedLines s) (endedLines out) ↔
        ∀ l ∈ endedLines s, isTableLine l = false → ¬ "\r\n".toList <:+ l) ∧
      ((∀ l ∈ endedLines s, isTableLine l = false) → (out = s ↔ ¬ "\r\n".toList <:+: s)) := by
  obtain ⟨out, hformat, hlines⟩ := exists_formattedLines d s
  have hkept : List.Forall₂ (fun l m => isTableLine l = false → m = l) (endedLines s)
      (endedLines out) ↔ ∀ l ∈ endedLines s, isTableLine l = false → ¬ "\r\n".toList <:+ l := by
    refine forall₂_iff_forall_mem hlines fun l m hlm => forall_congr' fun hl => ?_
    rw [hlm.2 hl, plainEnd_eq_self_iff]
  refine ⟨out, hformat, hlines, hkept, fun hprose => ?_⟩
  have hsame : out = s ↔ List.Forall₂ (fun l m => isTableLine l = false → m = l) (endedLines s)
      (endedLines out) := by
    constructor
    · rintro rfl
      exact List.forall₂_same.2 fun _ _ _ => rfl
    · intro h
      rw [← flatten_endedLines out, eq_of_forall₂_prose hprose h, flatten_endedLines]
  rw [hsame, hkept, ← exists_return_iff]
  constructor
  · rintro h ⟨l, hl, hsuffix⟩
    exact h l hl (hprose l hl) hsuffix
  · exact fun h l hl _ hsuffix => h ⟨l, hl, hsuffix⟩

/-- A line of prose loses its carriage return although the text has no table. -/
theorem formatDocument_prose_return :
    formatDocument .markdown "a\r\n".toList = .ok "a\n".toList ∧
      "a\n".toList ≠ "a\r\n".toList := by
  obtain ⟨out, hformat, -, -, hsame⟩ := formatDocument_prose .markdown "a\r\n".toList
  obtain rfl : _ = out := Except.ok.inj hformat
  exact ⟨hformat, fun heq => (hsame (by decide)).1 heq (List.infix_append ['a'] _ [])⟩

end PipeTable
