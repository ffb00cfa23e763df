import PipeTable.Proofs.Document.Realigned
import PipeTable.Proofs.Text.Documents

/-! # Formatting again and in parts

Formatting a document goes through its tables from the last to the first and finds all of them in
the document as it was. Formatting one table after the other finds each of them in the document
that the ones before have left, and formatting the whole text again takes it apart into lines
anew. Neither makes a difference: a document has its tables in the same places all the time, a
table that has been realigned stays as it is, and its lines can be told apart in the text.
-/

namespace PipeTable

open Text Region

variable {d : Dialect} {done : List Region}

theorem TableRun.standsFor {run written : List Text} {p : Prop} [Decidable p] (hrun : TableRun run)
    (h : if p then WrittenRun d run written else written = run) :
    List.Forall₂ StandsFor run written := by
  have hlength := (hrun.of_written h).2
  have hnew := (hrun.of_written h).1.newline
  split at h
  · refine List.forall₂_iff_zip.2 ⟨hlength.symm, fun {l m} hlm => .inr ?_⟩
    have hm := (List.of_mem_zip hlm).2
    exact ⟨hnew m hm, bar, h.getLast m hm, by decide⟩
  · subst h
    exact List.forall₂_same.2 fun l _ => .inl rfl

theorem Realigned.standsFor {n : Nat} {doc out : List Text} (h : Realigned d done n doc out) :
    List.Forall₂ StandsFor doc out := by
  induction h with
  | nil => exact .nil
  | line hl h ih => exact .cons (.inl rfl) ih
  | run hrun hrest hwritten h ih => exact List.rel_append (hrun.standsFor hwritten) ih

/-- Formatting a formatted text changes nothing, if no two carriage returns stand before a line
feed in it: each time one of them would go. -/
theorem formatDocument_idempotent (d : Dialect) {s : Text} (h : ¬ "\r\r\n".toList <:+: s) :
    ∃ out, formatDocument d s = .ok out ∧ formatDocument d out = .ok out := by
  obtain ⟨out, hout, hformat⟩ := exists_realigned d s
  obtain ⟨hback, hfinal⟩ := ((isLines_lines h).replace hout.standsFor).lines_joinDocument
  refine ⟨_, hformat, ?_⟩
  have hdone : ∀ r ∈ findAll out, r ∈ findAll (lines s) := by
    intro r hr
    rwa [findAll, hout.regionsFrom_eq] at hr
  rw [formatDocument, hback, hfinal, (hout.again fun _ => id).formatLines_eq hdone]
  rfl

/-- A separator above all data rows, and carriage returns at the ends of some lines. -/
theorem formatDocument_idempotent_returns :
    ∃ out, formatDocument .markdown "|-|:-:|\r\n|表|b\r\n\r\nc\r".toList = .ok out ∧
      formatDocument .markdown out = .ok out :=
  formatDocument_idempotent .markdown (by decide +kernel)

/-- Two carriage returns go one after the other. -/
example : formatDocument .org "\r\r\n".toList = .ok "\r\n".toList ∧
    formatDocument .org "\r\n".toList = .ok "\n".toList := by
  decide

variable {doc cur : List Text}

/-- Format the tables at the starts of some regions one after the other, each of them in the
document that the ones before have left. There is no answer if a region has no table at its
start. -/
def formatEach (d : Dialect) : List Region → List Text → Except Fault (Option (List Text))
  | [], doc => .ok (some doc)
  | r :: rs, doc => do
    match ← Command.run .format {} d doc ⟨r.startLine, 0⟩ with
    | none => return none
    | some e => formatEach d rs (← e.apply doc)

theorem formatEach_cons {r : Region} {rs : List Region} {e : Replacement} {doc' : List Text}
    (he : Command.run .format {} d doc ⟨r.startLine, 0⟩ = .ok (some e))
    (hdoc' : e.apply doc = .ok doc') : formatEach d (r :: rs) doc = formatEach d rs doc' := by
  rw [formatEach, he]
  simp only [bind, Except.bind, hdoc']

theorem Realigned.exists_format (h : Realigned d done 0 doc cur) {r : Region}
    (hr : r ∈ findAll doc) :
    ∃ e next, Command.run .format {} d cur ⟨r.startLine, 0⟩ = .ok (some e) ∧
      e.apply cur = .ok next ∧ Realigned d (r :: done) 0 doc next := by
  obtain ⟨pre, run, written, rest, rfl, hplace, hrun, hwritten, hstart, hnext⟩ := h.exists_step hr
  obtain ⟨e, he, happly⟩ := hwritten.exists_format hrun hplace {}
  rw [Nat.zero_add] at hstart
  exact ⟨e, _, hstart ▸ he, happly rest, hnext⟩

/-- The order in which regions are realigned leaves no trace, and neither does doing it twice. -/
theorem Realigned.exists_formatEach (h : Realigned d done 0 doc cur) (order : List Region)
    (horder : ∀ r ∈ order, r ∈ findAll doc) :
    ∃ out, formatEach d order cur = .ok (some out) ∧
      Realigned d (order.reverse ++ done) 0 doc out := by
  induction order generalizing cur done with
  | nil => exact ⟨cur, rfl, h⟩
  | cons r rs ih =>
    obtain ⟨hr, hrs⟩ := List.forall_mem_cons.1 horder
    obtain ⟨e, next, he, happly, hnext⟩ := h.exists_format hr
    obtain ⟨out, hout, hdone⟩ := ih hnext hrs
    refine ⟨out, (formatEach_cons he happly).trans hout, ?_⟩
    rwa [List.reverse_cons, List.append_assoc]

/-- Formatting the tables of a document one after the other, in whatever order, always ends in
the lines that formatting the text at once gives. -/
theorem formatDocument_eq_formatEach (d : Dialect) (s : Text) :
    ∃ out, formatDocument d s = .ok (joinDocument out (endsWithNewline s)) ∧
      ∀ order : List Region, order.Perm (findAll (lines s)) →
        formatEach d order (lines s) = .ok (some out) := by
  obtain ⟨out, hout, hformat⟩ := exists_realigned d s
  refine ⟨out, hformat, fun order horder => ?_⟩
  have hstart : Realigned d [] 0 (lines s) (lines s) :=
    .of_nil (fun l hl => newline_not_mem_lines hl) 0
  obtain ⟨out', hout', hdone⟩ := hstart.exists_formatEach order fun r => horder.mem_iff.1
  have hall : ∀ r ∈ findAll (lines s), r ∈ order.reverse ++ [] := by
    intro r hr
    rw [List.append_nil, List.mem_reverse]
    exact horder.mem_iff.2 hr
  have hsame : formatLines d (lines s) = .ok out := hout.formatLines_eq fun _ => id
  obtain rfl := Except.ok.inj (hsame.symm.trans (hdone.formatLines_eq hall))
  exact hout'

/-- Two tables, the lower one first. -/
theorem formatDocument_eq_formatEach_reversed :
    formatDocument .markdown "|a|\n|:-:|\r\n\n  |b\n".toList =
        .ok (joinDocument ["| a   |".toList, "| :-: |".toList, [], "  | b |".toList] true) ∧
      formatEach .markdown [⟨3, 3⟩, ⟨0, 1⟩] ["|a|".toList, "|:-:|".toList, [], "  |b".toList] =
        .ok (some ["| a   |".toList, "| :-: |".toList, [], "  | b |".toList]) := by
  obtain ⟨out, hformat, horders⟩ :=
    formatDocument_eq_formatEach .markdown "|a|\n|:-:|\r\n\n  |b\n".toList
  have heach := horders [⟨3, 3⟩, ⟨0, 1⟩] (List.Perm.swap _ _ _)
  obtain rfl : _ = out := Option.some.inj (Except.ok.inj heach)
  exact ⟨hformat, heach⟩

end PipeTable
