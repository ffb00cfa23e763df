import PipeTable.Proofs.Command.Frame
import PipeTable.Proofs.CommandLine.InPlace
import PipeTable.Proofs.Document.Prose
import PipeTable.Proofs.Program.Reading

/-! # What the program writes

A run on a document either refuses, in the same way whether or not it is asked to write in place,
or comes to a new text of the document. The text is written to the file that was read, after
everything that can go wrong, and nothing else is written. Formatting prints the text where it does
not write it; a move prints where the cursor goes in either case.
-/

namespace PipeTable

open Text PipeTable.Tree
open CommandLine (Action Invocation Move inPlaceFlag)

/-- The action prints a document that it does not write. -/
def CommandLine.Action.Formats : Action → Prop
  | .format .. | .formatAll .. => True
  | .create .. | .move .. => False

theorem CommandLine.Action.Formats.exists_file {a : Action} (h : a.Formats) :
    ∃ file, a.file? = some file := by
  cases a with
  | format | formatAll => exact ⟨_, rfl⟩
  | create | move => cases h

namespace Focus

variable {f : Focus} {pre rest : List Text}

theorem Printable.newline_not_mem_written (hf : f.Printable)
    (h : ∀ l ∈ pre ++ (f.lines ++ rest), '\n' ∉ l) :
    ∀ l ∈ pre ++ (f.written.lines ++ rest), '\n' ∉ l := by
  simp only [List.mem_append] at h ⊢
  rintro l (hl | hl | hl)
  · exact h l (.inl hl)
  · exact Table.newline_not_mem_renderLines hf.newline hf.cells l hl
  · exact h l (.inr (.inr hl))

theorem Printable.getLast?_written (hf : f.Printable)
    (h : (pre ++ (f.lines ++ rest)).getLast? ≠ some []) :
    (pre ++ (f.written.lines ++ rest)).getLast? ≠ some [] := by
  cases rest with
  | cons l rest => simpa [List.getLast?_append, List.getLast?_cons] using h
  | nil =>
    have hne : f.written.lines ≠ [] := by
      rw [← List.length_pos_iff, length_lines_written]
      exact List.length_pos_iff.2 hf.rows_ne_nil
    rw [List.append_nil, List.getLast?_append_of_ne_nil _ hne]
    intro hempty
    cases Table.isTableLine_of_mem_renderLines f.blank_indent (List.mem_of_getLast? hempty)

end Focus

/-- The lines that a command leaves make a text that ends with a line feed where the text before
did, and only there. -/
theorem Command.exists_joined {command : Command} {options : CommandOptions} {d : Dialect}
    {s : Text} {p : Position} {e : Replacement}
    (h : command.run options d (lines s) p = .ok (some e)) :
    ∃ ls, e.apply (lines s) = .ok ls ∧
      endsWithNewline (joinDocument ls (endsWithNewline s)) = endsWithNewline s := by
  have hnew : ∀ l ∈ lines s, '\n' ∉ l := fun l hl => newline_not_mem_lines hl
  obtain ⟨f, anchor, hload, hanchor, hperform⟩ := run_eq_ok_some_iff.1 h
  obtain ⟨pre, rest, row, hb, hdoc, -⟩ := Focus.exists_run_of_load hload
  obtain ⟨u, hprintable, ⟨cursor, rfl⟩, -⟩ :=
    (Focus.sound_of_load hnew hload).exists_rewrites hanchor hperform
  have happly := (hb.withTable u).apply_printable hprintable cursor
  refine ⟨_, hdoc ▸ happly, endsWithNewline_joinDocument ?_ fun hs => ?_⟩
  · exact hprintable.newline_not_mem_written (hdoc ▸ hnew)
  · exact hprintable.getLast?_written (hdoc ▸ getLast?_lines hs)

namespace Program

section Deliver

variable {file : Path} {c : Config} {d : Dialect} {s : Text}

/-- A run that fails prints nothing. -/
def IsFailure (o : Outcome) : Prop := o.status ≠ 0 ∧ o.output = ""

theorem isFailure_failed (complaint : String) : IsFailure (.failed complaint) :=
  ⟨Nat.one_ne_zero, rfl⟩

theorem isFailure_nowhere : IsFailure .nowhere := ⟨Nat.one_ne_zero, rfl⟩

theorem isFailure_faultOutcome (f : Fault) : IsFailure (faultOutcome f) :=
  ⟨Nat.succ_ne_zero 100, rfl⟩

/-- The work fails and leaves everything as it is, in place or not. -/
def Refuses (work : Bool → StateM Tree Outcome) : Prop :=
  ∃ o, IsFailure o ∧ ∀ inPlace t, work inPlace t = (o, t)

theorem IsFailure.refuses {o : Outcome} (h : IsFailure o) : Refuses fun _ => pure o :=
  ⟨o, h, fun _ _ => rfl⟩

/-- The work ends well. In place it writes the text to the file and nowhere else, and what it
prints is `shown`. -/
def Delivers (file : Path) (text : Text) (shown : Bool → String)
    (work : Bool → StateM Tree Outcome) : Prop :=
  ∀ (t : Tree) (place : Location) (old : Content), t.WellFormed → t.resolve file = .ok place →
    t.find place = some (.file old) → ∀ inPlace, work inPlace t =
      (.printed (shown inPlace),
        if inPlace then t.put place (.file (.ofText (String.ofList text))) else t)

theorem delivers_deliver (file : Path) (text : Text) :
    Delivers file text (fun inPlace => if inPlace then "" else String.ofList text)
      (fun inPlace => deliver file inPlace text) := by
  intro t place old ht hplace hfile inPlace
  cases inPlace with
  | false => rfl
  | true =>
    have hwrite := ht.writeFile_eq hplace hfile (.ofText (String.ofList text))
    have hstored : (Storage.writeText file (String.ofList text) : StateM Tree _) t =
        (.ok (), t.put place (.file (.ofText (String.ofList text)))) := by
      change Tree.attempt (fun t => t.writeFile file (.ofText (String.ofList text))) t = _
      rw [Tree.attempt, hwrite]
    simp only [deliver, if_true]
    rw [run_bind, hstored]
    rfl

theorem format_refuses_or_delivers (d : Dialect) (file : Path) (line : Nat) (s : Text) :
    Refuses (fun inPlace => format d file line inPlace s) ∨
      ∃ text, Delivers file text (fun inPlace => if inPlace then "" else String.ofList text)
        (fun inPlace => format d file line inPlace s) := by
  unfold format
  cases Command.run .format {} d (lines s) (Position.ofOneBased line 1) with
  | error f => exact .inl (isFailure_faultOutcome f).refuses
  | ok edit =>
    cases edit with
    | none => exact .inl (isFailure_failed _).refuses
    | some e =>
      dsimp only
      cases editedText s e with
      | error f => exact .inl (isFailure_faultOutcome f).refuses
      | ok result => exact .inr ⟨result, delivers_deliver file result⟩

theorem formatAll_refuses_or_delivers (d : Dialect) (file : Path) (s : Text) :
    Refuses (fun inPlace => formatAll d file inPlace s) ∨
      ∃ text, Delivers file text (fun inPlace => if inPlace then "" else String.ofList text)
        (fun inPlace => formatAll d file inPlace s) := by
  unfold formatAll
  cases formatDocument d s with
  | error f => exact .inl (isFailure_faultOutcome f).refuses
  | ok result => exact .inr ⟨result, delivers_deliver file result⟩

/-- A move with a place to go has a document to write: its replacement fits the lines that it was
made for. -/
theorem move_refuses_or_delivers (c : Config) (d : Dialect) (mv : Move) (file : Path)
    (p : Position) (s : Text) :
    Refuses (fun inPlace => move c d mv file p inPlace s) ∨
      ∃ e ls answer, (moveCommand mv).run c.commandOptions d (lines s) p = .ok (some e) ∧
        e.apply (lines s) = .ok ls ∧
        endsWithNewline (joinDocument ls (endsWithNewline s)) = endsWithNewline s ∧
        Delivers file (joinDocument ls (endsWithNewline s)) (fun _ => answer)
          (fun inPlace => move c d mv file p inPlace s) := by
  unfold move
  cases hrun : (moveCommand mv).run c.commandOptions d (lines s) p with
  | error f => exact .inl (isFailure_faultOutcome f).refuses
  | ok edit =>
    cases edit with
    | none => exact .inl isFailure_nowhere.refuses
    | some e =>
      dsimp only
      cases e.cursor with
      | none => exact .inl isFailure_nowhere.refuses
      | some cursor =>
        obtain ⟨ls, happly, hends⟩ := Command.exists_joined hrun
        have hedited : editedText s e = .ok (joinDocument ls (endsWithNewline s)) := by
          rw [editedText, happly]
          rfl
        refine .inr ⟨e, ls, cursor.display ++ "\n", rfl, happly, hends, ?_⟩
        intro t place old ht hplace hfile inPlace
        cases inPlace with
        | false => rfl
        | true =>
          have hwritten := delivers_deliver file (joinDocument ls (endsWithNewline s)) t place old
            ht hplace hfile true
          dsimp only at hwritten ⊢
          rw [if_pos rfl, hedited]
          dsimp only
          rw [run_bind, hwritten]
          rfl

end Deliver

section Run

variable {t u : Tree} {file : Path} {c : Config} {d : Dialect} {s text : Text}
  {shown : Bool → String} {a : Action} {e : Environment} {i : Invocation}

/-- What is said about the new text of a document and about what is printed: formatting prints the
text unless it is written, a move prints the same in either case and its text has the lines that
its command leaves. -/
def Promised (c : Config) (d : Dialect) (s text : Text) (shown : Bool → String) : Action → Prop
  | .format .. | .formatAll .. =>
    shown = fun inPlace => if inPlace then "" else String.ofList text
  | .create .. => False
  | .move mv _ line column _ => (∃ answer, shown = fun _ => answer) ∧ ∃ e ls,
      (moveCommand mv).run c.commandOptions d (lines s) (Position.ofOneBased line column) =
        .ok (some e) ∧
      e.apply (lines s) = .ok ls ∧ text = joinDocument ls (endsWithNewline s) ∧
      endsWithNewline text = endsWithNewline s

theorem Promised.shown_eq (h : Promised c d s text shown a) (ha : a.Formats) :
    shown = fun inPlace => if inPlace then "" else String.ofList text := by
  cases a with
  | format | formatAll => exact h
  | create | move => cases ha

theorem exists_work (c : Config) (d : Dialect) (hfile : a.file? = some file) :
    ∃ work : Text → Bool → StateM Tree Outcome,
      (∀ inPlace, act c d (a.withInPlace inPlace) =
        withDocument file fun s => work s inPlace) ∧
      ∀ s, Refuses (work s) ∨
        ∃ text shown, Promised c d s text shown a ∧ Delivers file text shown (work s) := by
  cases a with
  | create rows cols => cases hfile
  | format path line _ =>
    obtain rfl := Option.some.inj hfile
    refine ⟨fun s inPlace => format d path line inPlace s, fun _ => rfl, fun s => ?_⟩
    exact (format_refuses_or_delivers d path line s).imp_right fun ⟨text, h⟩ =>
      ⟨text, _, rfl, h⟩
  | formatAll path _ =>
    obtain rfl := Option.some.inj hfile
    refine ⟨fun s inPlace => formatAll d path inPlace s, fun _ => rfl, fun s => ?_⟩
    exact (formatAll_refuses_or_delivers d path s).imp_right fun ⟨text, h⟩ => ⟨text, _, rfl, h⟩
  | move mv path line column _ =>
    obtain rfl := Option.some.inj hfile
    refine ⟨fun s inPlace => move c d mv path (Position.ofOneBased line column) inPlace s,
      fun _ => rfl, fun s => ?_⟩
    rcases move_refuses_or_delivers c d mv path (Position.ofOneBased line column) s with
      hrefuses | ⟨e, ls, answer, hrun, happly, hends, h⟩
    · exact .inl hrefuses
    · exact .inr ⟨_, _, ⟨⟨answer, rfl⟩, e, ls, hrun, happly, rfl, hends⟩, h⟩

/-- The program after it has read its arguments and made its log directory. -/
def follow (e : Environment) (i : Invocation) : StateM Tree Outcome := do
  match ← settings e i with
  | .error complaint => return .failed complaint
  | .ok c => act c (i.dialectFor c) i.action

theorem run_of_parse {args : List Text} (h : CommandLine.parse args = .ok i) (t : Tree) :
    (run e args : StateM Tree Outcome) t =
      follow e i ((e.openLogDirectory : StateM Tree (Except LogError Path)) t).2 := by
  unfold run
  rw [h]
  rfl

/-- How an invocation ends in place and not in place, from the same tree. -/
inductive Ending (e : Environment) (i : Invocation) (t : Tree) : Prop
  | refused (o : Outcome) (hfailure : IsFailure o)
      (h : ∀ inPlace, follow e (i.withInPlace inPlace) t = (o, t))
  | created (s : String) (hfile : i.action.file? = none)
      (h : ∀ inPlace, follow e (i.withInPlace inPlace) t = (.printed s, t))
  | delivered (c : Config) (file : Path) (place : Location) (old : Content) (s : String)
      (text : Text) (shown : Bool → String)
      (hsettings : ((settings e i : StateM Tree (Except String Config)) t).1 = .ok c)
      (hfile : i.action.file? = some file) (hplace : t.resolve file = .ok place)
      (hold : t.find place = some (.file old)) (hread : old.text? = some s)
      (hpromised : Promised c (i.dialectFor c) s.toList text shown i.action)
      (h : ∀ inPlace, follow e (i.withInPlace inPlace) t = (.printed (shown inPlace),
        if inPlace then t.put place (.file (.ofText (String.ofList text))) else t))

theorem follow_withInPlace (e : Environment) (i : Invocation) (inPlace : Bool) (t : Tree) :
    follow e (i.withInPlace inPlace) t =
      match ((settings e i : StateM Tree (Except String Config)) t).1 with
      | .error complaint => (.failed complaint, t)
      | .ok c =>
        (act c (i.dialectFor c) (i.action.withInPlace inPlace) : StateM Tree Outcome) t := by
  have hsettings : (settings e (i.withInPlace inPlace) : StateM Tree (Except String Config)) =
      settings e i := rfl
  unfold follow
  rw [run_bind, hsettings, ← leads_settings e i t]
  cases ((settings e i : StateM Tree (Except String Config)) t).1 with
  | error complaint => rfl
  | ok c =>
    dsimp only
    rw [i.dialectFor_withInPlace]
    rfl

theorem run_withDocument (work : Text → StateM Tree Outcome) (t : Tree) :
    withDocument file work t =
      match ((Document.read file : StateM Tree (Except OpenError String)) t).1 with
      | .error err => (.failed err.fullMessage, t)
      | .ok s => work s.toList t := by
  unfold withDocument
  rw [run_bind, ← Document.leads_read file t]
  cases ((Document.read file : StateM Tree (Except OpenError String)) t).1 <;> rfl

theorem ending_of_wellFormed (e : Environment) (i : Invocation) (ht : t.WellFormed) :
    Ending e i t := by
  have hfollow := fun inPlace => follow_withInPlace e i inPlace t
  cases hsettings : ((settings e i : StateM Tree (Except String Config)) t).1 with
  | error complaint =>
    rw [hsettings] at hfollow
    exact .refused _ (isFailure_failed _) hfollow
  | ok c =>
    rw [hsettings] at hfollow
    dsimp only at hfollow
    cases hfile : i.action.file? with
    | none =>
      cases haction : i.action with
      | create rows cols =>
        rw [haction] at hfollow
        exact .created _ hfile hfollow
      | format | formatAll | move => cases haction ▸ hfile
    | some file =>
      obtain ⟨work, hwork, hcases⟩ := exists_work c (i.dialectFor c) hfile
      simp only [hwork, run_withDocument] at hfollow
      cases hread : ((Document.read file : StateM Tree (Except OpenError String)) t).1 with
      | error err =>
        rw [hread] at hfollow
        exact .refused _ (isFailure_failed _) hfollow
      | ok s =>
        rw [hread] at hfollow
        dsimp only at hfollow
        rcases hcases s.toList with ⟨o, hfailure, ho⟩ | ⟨text, shown, hpromised, hdelivers⟩
        · exact .refused o hfailure fun inPlace => (hfollow inPlace).trans (ho inPlace t)
        · obtain ⟨place, old, hplace, hold, htext⟩ := Document.exists_file_of_read hread
          exact .delivered c file place old s text shown hsettings hfile hplace hold htext
            hpromised fun inPlace =>
              (hfollow inPlace).trans (hdelivers t place old ht hplace hold inPlace)

end Run

section Promise

variable {t u : Tree} {e : Environment} {i : Invocation}

/-- The place has the same file before and after, or no file either time. -/
def SameFileAt (t u : Tree) (place : Location) : Prop :=
  ∀ content, u.find place = some (.file content) ↔ t.find place = some (.file content)

/-- The file that the action names has the text. -/
def Holds (a : Action) (u : Tree) (text : String) : Prop :=
  ∃ file place, a.file? = some file ∧ u.resolve file = .ok place ∧
    u.find place = some (.file (.ofText text))

/-- What a run may do to the files: nothing unless it works in place and ends well, and then it
changes the document that it names and no other file. -/
structure Leaves (a : Action) (t : Tree) (status : Nat) (u : Tree) : Prop where
  paths : ∀ path place, t.resolve path = .ok place → u.resolve path = .ok place
  unchanged : status ≠ 0 ∨ a.inPlace = false → ∀ place, SameFileAt t u place
  changed : status = 0 → a.inPlace = true → ∃ file place old new, a.file? = some file ∧
    u.resolve file = .ok place ∧ t.find place = some (.file old) ∧
    u.find place = some (.file new) ∧ ∀ other, other ≠ place → SameFileAt t u other

/-- How a run in place compares with the same run that only prints. -/
structure Agrees (e : Environment) (i : Invocation) (t : Tree) (plain inPlace : Outcome × Tree) :
    Prop where
  status : inPlace.1.status = plain.1.status
  formats : i.action.Formats → inPlace.1.output = "" ∧
    (inPlace.1.status = 0 → Holds i.action inPlace.2 plain.1.output)
  moves : ∀ mv file line column b, i.action = .move mv file line column b →
    inPlace.1.output = plain.1.output ∧
    (inPlace.1.status = 0 → ∃ c place old s edit ls,
      ((settings e i : StateM Tree (Except String Config))
        ((e.openLogDirectory : StateM Tree (Except LogError Path)) t).2).1 = .ok c ∧
      inPlace.2.resolve file = .ok place ∧ t.find place = some (.file old) ∧
      old.text? = some s ∧
      (moveCommand mv).run c.commandOptions (i.dialectFor c) (lines s.toList)
        (Position.ofOneBased line column) = .ok (some edit) ∧
      edit.apply (lines s.toList) = .ok ls ∧
      endsWithNewline (joinDocument ls (endsWithNewline s.toList)) = endsWithNewline s.toList ∧
      inPlace.2.find place = some (.file (.ofText
        (String.ofList (joinDocument ls (endsWithNewline s.toList))))))

theorem sameFileAt_of_furnished (h : t.Furnished u) (place : Location) : SameFileAt t u place :=
  fun _ => h.find_file_iff

theorem ne_nil_of_file {place : Location} {content : Content}
    (h : t.find place = some (.file content)) : place ≠ [] := by
  rintro rfl
  cases h

theorem grows_put_file {place : Location} {old new : Content}
    (h : t.find place = some (.file old)) : t.Grows (t.put place (.file new)) := by
  refine grows_put (ne_nil_of_file h) fun entry hentry => ?_
  obtain rfl := Option.some.inj (h.symm.trans hentry)
  rfl

theorem leaves_of_furnished (hu : t.Furnished u) {a : Action} {status : Nat}
    (h : status ≠ 0 ∨ a.inPlace = false) : Leaves a t status u where
  paths _ _ hpath := hu.grows.resolve hpath
  unchanged _ place := sameFileAt_of_furnished hu place
  changed hstatus hinPlace := by
    rcases h with h | h
    · exact absurd hstatus h
    · cases h.symm.trans hinPlace

theorem leaves_of_ending (hu : t.Furnished u) (h : Ending e i u) (inPlace : Bool) :
    Leaves (i.action.withInPlace inPlace) t (follow e (i.withInPlace inPlace) u).1.status
      (follow e (i.withInPlace inPlace) u).2 := by
  cases h with
  | refused o hfailure h =>
    rw [h inPlace]
    exact leaves_of_furnished hu (.inl hfailure.1)
  | created s hfile h =>
    rw [h inPlace]
    exact leaves_of_furnished hu
      (.inr (Action.inPlace_of_file? ((i.action.file?_withInPlace inPlace).trans hfile)))
  | delivered c file place old s text shown _ hfile hplace hold _ _ h =>
    rw [h inPlace]
    have hasked := Action.inPlace_withInPlace hfile inPlace
    cases inPlace with
    | false => exact leaves_of_furnished hu (.inr hasked)
    | true =>
      have hgrows : u.Grows (u.put place (.file (.ofText (String.ofList text)))) :=
        grows_put_file hold
      refine ⟨fun path _ hpath => hgrows.resolve (hu.grows.resolve hpath), fun hnot => ?_,
        fun _ _ => ?_⟩
      · rcases hnot with hstatus | hnot
        · exact absurd rfl hstatus
        · cases hasked.symm.trans hnot
      · refine ⟨file, place, old, _, (i.action.file?_withInPlace true).trans hfile,
          hgrows.resolve hplace, hu.files place old hold,
          find_put_self (ne_nil_of_file hold), fun other hother content => ?_⟩
        rw [if_pos rfl, find_put_of_ne hother, hu.find_file_iff]

theorem agrees_of_ending (hu : t.Furnished u)
    (hlog : ((e.openLogDirectory : StateM Tree (Except LogError Path)) t).2 = u)
    (h : Ending e i u) :
    Agrees e i t (follow e (i.withInPlace false) u) (follow e (i.withInPlace true) u) := by
  cases h with
  | refused o hfailure h =>
    rw [h false, h true]
    exact ⟨rfl, fun _ => ⟨hfailure.2, fun hstatus => absurd hstatus hfailure.1⟩,
      fun _ _ _ _ _ _ => ⟨rfl, fun hstatus => absurd hstatus hfailure.1⟩⟩
  | created s hfile h =>
    rw [h false, h true]
    refine ⟨rfl, fun hformats => ?_, fun mv file line column b haction => ?_⟩
    · obtain ⟨file, hsome⟩ := hformats.exists_file
      cases hfile.symm.trans hsome
    · cases haction ▸ hfile
  | delivered c file place old s text shown hsettings hfile hplace hold hread hpromised h =>
    rw [h false, h true]
    have hgrows : u.Grows (u.put place (.file (.ofText (String.ofList text)))) :=
      grows_put_file hold
    have hwritten : (u.put place (.file (.ofText (String.ofList text)))).find place =
        some (.file (.ofText (String.ofList text))) := find_put_self (ne_nil_of_file hold)
    refine ⟨rfl, fun hformats => ?_, fun mv path line column b haction => ?_⟩
    · obtain rfl := hpromised.shown_eq hformats
      exact ⟨rfl, fun _ => ⟨file, place, hfile, hgrows.resolve hplace, hwritten⟩⟩
    · rw [haction] at hpromised hfile
      obtain rfl := Option.some.inj hfile
      obtain ⟨⟨answer, rfl⟩, edit, ls, hrun, happly, rfl, hends⟩ := hpromised
      exact ⟨rfl, fun _ => ⟨c, place, old, s, edit, ls, hlog ▸ hsettings, hgrows.resolve hplace,
        hu.files place old hold, hread, hrun, happly, hends, hwritten⟩⟩

/-- Whatever the arguments ask for, a run changes no file unless it ends well and was told to work
in place, and then the document alone. A formatted document is written exactly as it would be
printed. A move prints the same in place as elsewhere, and the document that it writes has the
lines that its command leaves and ends with a line feed if it did before. All arguments that ask
for work on a document can be given the flag to do the same in place. -/
theorem run_writes (e : Environment) (ht : t.WellFormed) :
    (∀ args i, CommandLine.parse args = .ok i →
      Leaves i.action t ((run e args : StateM Tree Outcome) t).1.status
        ((run e args : StateM Tree Outcome) t).2) ∧
    (∀ args args' i, CommandLine.parse args = .ok (i.withInPlace false) →
      CommandLine.parse args' = .ok (i.withInPlace true) →
      Agrees e i t ((run e args : StateM Tree Outcome) t)
        ((run e args' : StateM Tree Outcome) t)) ∧
    ∀ args i file, CommandLine.parse args = .ok i → i.action.file? = some file →
      i.action.inPlace = false → ∃ before name rest, args = before ++ name :: rest ∧
        CommandLine.parse (before ++ name :: inPlaceFlag :: rest) =
          .ok (i.withInPlace true) := by
  have hu : t.Furnished ((e.openLogDirectory : StateM Tree (Except LogError Path)) t).2 :=
    e.leads_openLogDirectory t
  have hending (i : Invocation) := ending_of_wellFormed e i (hu.wellFormed ht)
  refine ⟨fun args i hi => ?_, fun args args' i hi hi' => ?_,
    fun args i file => CommandLine.exists_parse_inPlace⟩
  · have hleaves := leaves_of_ending hu (hending i) i.action.inPlace
    rwa [i.withInPlace_inPlace, i.action.withInPlace_inPlace, ← run_of_parse hi] at hleaves
  · have hagrees := agrees_of_ending hu rfl (hending i)
    rwa [← run_of_parse hi, ← run_of_parse hi'] at hagrees

/-- A move out of an unfinished row, in a document without a line feed at its end and beside
another file. -/
theorem run_writes_next_cell :
    ∃ (t : Tree) (plain inPlace : Outcome × Tree), t.WellFormed ∧
      t.find ["a.md".toList] = some (.file (.ofText "|a\n|b|")) ∧
      t.find ["b.md".toList] = some (.file (.ofText "|b|")) ∧
      (run ⟨none, none⟩ ["next-cell".toList, "a.md".toList, "--line=1".toList,
        "--column=2".toList] : StateM Tree Outcome) t = plain ∧
      (run ⟨none, none⟩ ["next-cell".toList, "a.md".toList, "--line=1".toList,
        "--column=2".toList, "-i".toList] : StateM Tree Outcome) t = inPlace ∧
      plain.1.output = "2:3\n" ∧ inPlace.1 = .printed "2:3\n" ∧
      inPlace.2.find ["a.md".toList] = some (.file (.ofText "| a |\n| b |")) ∧
      inPlace.2.find ["b.md".toList] = some (.file (.ofText "|b|")) := by
  have hone : (({} : Tree).put ([] ++ ["a.md".toList])
      (.file (.ofText "|a\n|b|"))).WellFormed := wellFormed_empty.put rfl rfl _
  have hboth : ((({} : Tree).put ([] ++ ["a.md".toList]) (.file (.ofText "|a\n|b|"))).put
      ([] ++ ["b.md".toList]) (.file (.ofText "|b|"))).WellFormed := hone.put rfl rfl _
  obtain ⟨t, ht, hplace, hfile, hother, hprinted⟩ : ∃ t : Tree, t.WellFormed ∧
      t.resolve "a.md".toList = .ok ["a.md".toList] ∧
      t.find ["a.md".toList] = some (.file (.ofText "|a\n|b|")) ∧
      t.find ["b.md".toList] = some (.file (.ofText "|b|")) ∧
      ((run ⟨none, none⟩ ["next-cell".toList, "a.md".toList, "--line=1".toList,
        "--column=2".toList, "-i".toList] : StateM Tree Outcome) t).1 = .printed "2:3\n" :=
    ⟨_, hboth, rfl, rfl, rfl, by decide +kernel⟩
  obtain ⟨hleaves, hagrees, -⟩ := run_writes ⟨none, none⟩ ht
  have hchanged := hleaves ["next-cell".toList, "a.md".toList, "--line=1".toList,
    "--column=2".toList, "-i".toList] ⟨none, none, 0, .move .nextCell "a.md".toList 1 2 true⟩ rfl
  have hmoves := (hagrees ["next-cell".toList, "a.md".toList, "--line=1".toList,
    "--column=2".toList] ["next-cell".toList, "a.md".toList, "--line=1".toList,
    "--column=2".toList, "-i".toList] ⟨none, none, 0, .move .nextCell "a.md".toList 1 2 true⟩
    rfl rfl).moves _ _ _ _ _ rfl
  rw [hprinted] at hmoves hchanged
  obtain ⟨houtput, hwritten⟩ := hmoves
  refine ⟨t, _, _, ht, hfile, hother, rfl, rfl, houtput.symm, hprinted, ?_, ?_⟩
  · obtain ⟨c, place, old, s, edit, ls, hsettings, hfound, hold, htext, hedit, happly, -, hnew⟩ :=
      hwritten rfl
    obtain rfl := Except.ok.inj ((hchanged.paths _ _ hplace).symm.trans hfound)
    obtain rfl := Except.ok.inj hsettings
    rw [hfile] at hold
    cases hold
    have hread : (Content.ofText "|a\n|b|").text? = some "|a\n|b|" := by decide
    obtain rfl := Option.some.inj (hread.symm.trans htext)
    obtain rfl := Option.some.inj (Except.ok.inj hedit)
    obtain rfl := Except.ok.inj happly
    exact hnew
  · obtain ⟨path, place, old, new, hpath, hfound, -, -, hothers⟩ := hchanged.changed rfl rfl
    obtain rfl := Option.some.inj hpath
    obtain rfl := Except.ok.inj ((hchanged.paths _ _ hplace).symm.trans hfound)
    exact (hothers ["b.md".toList] (by decide) _).2 hother

end Promise

end Program

end PipeTable
