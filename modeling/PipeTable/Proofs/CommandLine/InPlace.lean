import PipeTable.CommandLine.Invocation
import PipeTable.Proofs.Table.Outcome

/-! # Asking for work in place

The flag that asks for work in place may stand right behind the name of the subcommand. Nothing
that is read after it looks at it, but for a second flag of its kind; so arguments without the flag
ask for the same action with it, done in place.
-/

namespace PipeTable.CommandLine

open Table (bind_eq_ok_iff pure_eq_ok_iff)

/-- The same action, with the choice of writing in place made anew. -/
def Action.withInPlace (inPlace : Bool) : Action → Action
  | format file line _ => format file line inPlace
  | formatAll file _ => formatAll file inPlace
  | create rows cols => create rows cols
  | move mv file line column _ => move mv file line column inPlace

def Invocation.withInPlace (inPlace : Bool) (i : Invocation) : Invocation :=
  { i with action := i.action.withInPlace inPlace }

theorem Action.file?_withInPlace (inPlace : Bool) (a : Action) :
    (a.withInPlace inPlace).file? = a.file? := by
  cases a <;> rfl

theorem Action.inPlace_withInPlace {a : Action} {file : Path} (h : a.file? = some file)
    (inPlace : Bool) : (a.withInPlace inPlace).inPlace = inPlace := by
  cases a with
  | create rows cols => cases h
  | format | formatAll | move => rfl

theorem Action.withInPlace_inPlace (a : Action) : a.withInPlace a.inPlace = a := by
  cases a <;> rfl

theorem Action.inPlace_of_file? {a : Action} (h : a.file? = none) : a.inPlace = false := by
  cases a with
  | create rows cols => rfl
  | format | formatAll | move => cases h

theorem Invocation.withInPlace_inPlace (i : Invocation) : i.withInPlace i.action.inPlace = i := by
  rw [withInPlace, i.action.withInPlace_inPlace]

theorem Invocation.dialectFor_withInPlace (inPlace : Bool) (i : Invocation) (c : Config) :
    (i.withInPlace inPlace).dialectFor c = i.dialectFor c := by
  simp only [dialectFor, withInPlace, Action.file?_withInPlace]

namespace Settings

variable {s u : Settings} {o : Opt} {value : Text}

def flagged (s : Settings) : Settings := { s with inPlace := true }

theorem give_flagged (h : s.give o value = .ok u) :
    u.inPlace = s.inPlace ∧ s.flagged.give o value = .ok u.flagged := by
  cases o with
  | verbose | help | version | inPlace => cases h
  | dialect | config | line | column | rows | cols =>
    obtain ⟨stored, hstored, h⟩ := bind_eq_ok_iff.1 h
    obtain rfl := pure_eq_ok_iff.1 h
    exact ⟨rfl, bind_eq_ok_iff.2 ⟨stored, hstored, rfl⟩⟩

theorem switch_flagged (h : s.switch o = .ok u) (hu : u.inPlace = false) :
    s.inPlace = false ∧ s.flagged.switch o = .ok u.flagged := by
  cases o with
  | dialect | config | line | column | rows | cols | help | version => cases h
  | verbose =>
    obtain rfl := Except.ok.inj h
    exact ⟨hu, rfl⟩
  | inPlace =>
    simp only [switch] at h
    split at h
    · cases h
    · obtain rfl := Except.ok.inj h
      cases hu

end Settings

namespace Progress

variable {f g : Progress → Except UsageError Progress} {p q : Progress}

/-- The progress of reading arguments that begin with the flag. -/
def flagged (p : Progress) : Progress := { p with settings := p.settings.flagged }

/-- A flag that has not been given since has not been given before either, and if it was given at
the start, nothing else is read in another way. -/
def Ignores (f : Progress → Except UsageError Progress) : Prop :=
  ∀ p q, f p = .ok q → q.settings.inPlace = false →
    p.settings.inPlace = false ∧ f p.flagged = .ok q.flagged

theorem Ignores.bind (hf : Ignores f) (hg : Ignores g) : Ignores fun p => f p >>= g := by
  intro p q h hq
  obtain ⟨r, hfr, hgr⟩ := bind_eq_ok_iff.1 h
  obtain ⟨hr, hgr⟩ := hg r q hgr hq
  obtain ⟨hp, hfr⟩ := hf p r hfr hr
  exact ⟨hp, bind_eq_ok_iff.2 ⟨_, hfr, hgr⟩⟩

theorem ignores_error (e : UsageError) : Ignores fun _ => .error e := by
  intro p q h
  cases h

theorem ignores_give (o : Opt) (value : Text) (pending : Progress → Option Pending)
    (hpending : ∀ p : Progress, pending p.flagged = pending p) :
    Ignores fun p => do
      return { p with settings := ← p.settings.give o value, pending := pending p } := by
  intro p q h hq
  obtain ⟨u, hu, h⟩ := bind_eq_ok_iff.1 h
  obtain rfl := pure_eq_ok_iff.1 h
  obtain ⟨hsame, hgive⟩ := Settings.give_flagged hu
  refine ⟨hsame ▸ hq, bind_eq_ok_iff.2 ⟨_, hgive, ?_⟩⟩
  rw [hpending]
  rfl

theorem ignores_settle : Ignores settle := by
  intro p q h hq
  unfold settle at h ⊢
  have hpending : p.flagged.pending = p.pending := rfl
  rw [hpending]
  split at h
  · obtain rfl := pure_eq_ok_iff.1 h
    exact ⟨hq, rfl⟩
  · split at h
    · cases h
    · exact ignores_give _ _ (fun _ => none) (fun _ => rfl) p q h hq
  · obtain ⟨file, hfile, h⟩ := bind_eq_ok_iff.1 h
    obtain rfl := pure_eq_ok_iff.1 h
    exact ⟨hq, bind_eq_ok_iff.2 ⟨file, hfile, rfl⟩⟩

theorem ignores_meet (o : Opt) (value : Option Text) : Ignores fun p => p.meet o value := by
  unfold meet
  split
  · refine ignores_settle.bind ?_
    cases value with
    | none =>
      intro p q h hq
      obtain rfl := pure_eq_ok_iff.1 h
      exact ⟨hq, rfl⟩
    | some v => exact ignores_give o v Progress.pending fun _ => rfl
  · split
    · exact ignores_error _
    · refine ignores_settle.bind fun p q h hq => ?_
      obtain ⟨u, hu, h⟩ := bind_eq_ok_iff.1 h
      obtain rfl := pure_eq_ok_iff.1 h
      obtain ⟨hp, hswitch⟩ := Settings.switch_flagged hu hq
      exact ⟨hp, bind_eq_ok_iff.2 ⟨_, hswitch, rfl⟩⟩

theorem ignores_long (level : Level) (arg : Text) : Ignores fun p => p.long level arg := by
  unfold long
  dsimp only
  split
  · exact ignores_meet _ _
  · exact ignores_error _

theorem ignores_short (level : Level) (letters : Text) : Ignores (short level letters) := by
  induction letters with
  | nil =>
    intro p q h hq
    obtain rfl := Except.ok.inj h
    exact ⟨hq, rfl⟩
  | cons c rest ih =>
    suffices h : Ignores fun p => short level (c :: rest) p from h
    unfold short
    split
    · exact ignores_error _
    · split
      · split <;> exact ignores_meet _ _
      · exact (ignores_meet _ none).bind ih

theorem ignores_file (level : Level) (arg : Text) : Ignores fun p => p.file level arg := by
  intro p q h hq
  have hhas : p.flagged.hasFile = p.hasFile := rfl
  unfold file at h ⊢
  dsimp only at h ⊢
  rw [hhas]
  split at h
  · next hfile =>
    rw [if_pos hfile]
    obtain ⟨r, hsettle, h⟩ := bind_eq_ok_iff.1 h
    obtain rfl := pure_eq_ok_iff.1 h
    obtain ⟨hp, hsettle⟩ := ignores_settle p r hsettle hq
    exact ⟨hp, bind_eq_ok_iff.2 ⟨_, hsettle, rfl⟩⟩
  · split at h <;> cases h

theorem ignores_step (level : Level) (arg : Text) : Ignores fun p => p.step level arg := by
  intro p q h hq
  have honly : p.flagged.onlyFiles = p.onlyFiles := rfl
  have hwaiting : p.flagged.waiting? = p.waiting? := rfl
  unfold step at h ⊢
  dsimp only at h ⊢
  rw [honly, hwaiting]
  by_cases hfiles : p.onlyFiles = true
  · rw [if_pos hfiles] at h ⊢
    exact ignores_file level arg p q h hq
  · rw [if_neg hfiles] at h ⊢
    revert h
    split <;> intro h
    · obtain rfl := Except.ok.inj h
      exact ⟨hq, rfl⟩
    · exact ignores_long level _ p q h hq
    · exact ignores_short level _ p q h hq
    · revert h
      split <;> intro h
      · obtain rfl := Except.ok.inj h
        exact ⟨hq, rfl⟩
      · exact ignores_file level arg p q h hq

theorem run_flagged {level : Level} {args : List Text} {found : Option (Text × List Text)}
    (h : run level args p = .ok (q, found)) (hq : q.settings.inPlace = false) :
    p.settings.inPlace = false ∧ run level args p.flagged = .ok (q.flagged, found) := by
  induction args generalizing p with
  | nil =>
    obtain ⟨rfl, rfl⟩ := Prod.mk.inj (Except.ok.inj h)
    exact ⟨hq, rfl⟩
  | cons arg rest ih =>
    have hsub : p.flagged.isSubcommand level arg = p.isSubcommand level arg := rfl
    unfold run at h ⊢
    rw [hsub]
    split at h
    · next hname =>
      obtain ⟨rfl, rfl⟩ := Prod.mk.inj (Except.ok.inj h)
      exact ⟨hq, if_pos hname⟩
    · next hname =>
      obtain ⟨r, hstep, h⟩ := bind_eq_ok_iff.1 h
      obtain ⟨hr, hrun⟩ := ih h
      obtain ⟨hp, hstep⟩ := ignores_step level arg p r hstep hr
      exact ⟨hp, (if_neg hname).trans (bind_eq_ok_iff.2 ⟨_, hstep, hrun⟩)⟩

theorem exists_run_of_found {level : Level} {args rest : List Text} {name : Text}
    (h : run level args p = .ok (q, some (name, rest))) :
    ∃ before, args = before ++ name :: rest ∧
      ∀ rest', run level (before ++ name :: rest') p = .ok (q, some (name, rest')) := by
  induction args generalizing p with
  | nil => cases h
  | cons arg others ih =>
    unfold run at h
    split at h
    · next hname =>
      obtain ⟨rfl, hfound⟩ := Prod.mk.inj (Except.ok.inj h)
      obtain ⟨rfl, rfl⟩ := Prod.mk.inj (Option.some.inj hfound)
      exact ⟨[], rfl, fun rest' => if_pos hname⟩
    · next hname =>
      obtain ⟨r, hstep, h⟩ := bind_eq_ok_iff.1 h
      obtain ⟨before, rfl, hbefore⟩ := ih h
      refine ⟨arg :: before, rfl, fun rest' => ?_⟩
      exact (if_neg hname).trans (bind_eq_ok_iff.2 ⟨r, hstep, hbefore rest'⟩)

end Progress

def inPlaceFlag : Text := "--in-place".toList

theorem run_inPlaceFlag {sub : Subcommand} (h : sub ≠ .create) (rest : List Text) :
    Progress.run sub.level (inPlaceFlag :: rest) {} =
      Progress.run sub.level rest (Progress.flagged {}) := by
  cases sub with
  | create => exact absurd rfl h
  | format | formatAll | move => rfl

theorem action_flagged {sub : Subcommand} {s : Settings} {a : Action} (h : sub.action s = .ok a)
    (hsub : sub ≠ .create) :
    a.inPlace = s.inPlace ∧ sub.action s.flagged = .ok (a.withInPlace true) := by
  cases sub with
  | create => exact absurd rfl hsub
  | formatAll =>
    obtain ⟨file, hfile, h⟩ := bind_eq_ok_iff.1 h
    obtain rfl := pure_eq_ok_iff.1 h
    exact ⟨rfl, bind_eq_ok_iff.2 ⟨file, hfile, rfl⟩⟩
  | format | move =>
    obtain ⟨file, hfile, h⟩ := bind_eq_ok_iff.1 h
    obtain ⟨line, hline, h⟩ := bind_eq_ok_iff.1 h
    obtain rfl := pure_eq_ok_iff.1 h
    exact ⟨rfl, bind_eq_ok_iff.2 ⟨file, hfile, bind_eq_ok_iff.2 ⟨line, hline, rfl⟩⟩⟩

/-- With the flag behind the name of the subcommand, arguments ask for the same in place. -/
theorem exists_parse_inPlace {args : List Text} {i : Invocation} {file : Path}
    (h : parse args = .ok i) (hfile : i.action.file? = some file)
    (hplain : i.action.inPlace = false) :
    ∃ before name rest, args = before ++ name :: rest ∧
      parse (before ++ name :: inPlaceFlag :: rest) = .ok (i.withInPlace true) := by
  unfold parse at h
  obtain ⟨⟨outer, found⟩, houter, h⟩ := bind_eq_ok_iff.1 h
  cases found with
  | none =>
    obtain ⟨_, -, h⟩ := bind_eq_ok_iff.1 h
    cases h
  | some found =>
    obtain ⟨name, rest⟩ := found
    dsimp only at h
    cases hname : Subcommand.ofName? name with
    | none => cases hname ▸ h
    | some sub =>
      rw [hname] at h
      obtain ⟨⟨inner, other⟩, hinner, h⟩ := bind_eq_ok_iff.1 h
      obtain ⟨settled, hsettle, h⟩ := bind_eq_ok_iff.1 h
      obtain ⟨a, haction, h⟩ := bind_eq_ok_iff.1 h
      obtain ⟨outer', houter', h⟩ := bind_eq_ok_iff.1 h
      obtain rfl := pure_eq_ok_iff.1 h
      have hsub : sub ≠ .create := by
        rintro rfl
        obtain rfl := pure_eq_ok_iff.1 haction
        cases hfile
      obtain ⟨hsame, haction⟩ := action_flagged haction hsub
      obtain ⟨hinPlace, hsettle⟩ :=
        Progress.ignores_settle inner settled hsettle (hsame ▸ hplain)
      obtain ⟨-, hinner⟩ := Progress.run_flagged hinner hinPlace
      obtain ⟨before, rfl, hbefore⟩ := Progress.exists_run_of_found houter
      refine ⟨before, name, rest, rfl, ?_⟩
      unfold parse
      refine bind_eq_ok_iff.2 ⟨_, hbefore _, ?_⟩
      dsimp only
      rw [hname]
      refine bind_eq_ok_iff.2 ⟨_, (run_inPlaceFlag hsub rest).trans hinner, ?_⟩
      refine bind_eq_ok_iff.2 ⟨_, hsettle, bind_eq_ok_iff.2 ⟨_, haction, ?_⟩⟩
      exact bind_eq_ok_iff.2 ⟨outer', houter', rfl⟩

end PipeTable.CommandLine
