import Mathlib.Order.Defs.Unbundled
import PipeTable.Program.Run
import PipeTable.Proofs.Storage.Tree

/-! # What the program does to a tree before it writes

The program looks for its settings and reads a document without a trace, and it makes directories
for its log. Each of these steps is a program of its own, so it is enough to know of the parts what
they do to the tree, and that going through the parts one after the other adds nothing.
-/

namespace PipeTable

namespace Tree

variable {R S : Tree → Tree → Prop} {α β : Type} {x : StateM Tree α} {f : α → StateM Tree β}

/-- From whichever tree the program starts, it stands in the relation to the tree that is left. -/
def Leads (R : Tree → Tree → Prop) (x : StateM Tree α) : Prop := ∀ t, R t (x t).2

theorem run_bind (x : StateM Tree α) (f : α → StateM Tree β) (t : Tree) :
    (x >>= f) t = f (x t).1 (x t).2 := rfl

theorem Leads.mono (h : Leads R x) (hsub : ∀ t u, R t u → S t u) : Leads S x :=
  fun t => hsub t _ (h t)

theorem leads_pure [IsPreorder Tree R] (a : α) : Leads R (pure a : StateM Tree α) :=
  fun t => Std.Refl.refl t

theorem Leads.bind [IsPreorder Tree R] (hx : Leads R x) (hf : ∀ a, Leads R (f a)) :
    Leads R (x >>= f) :=
  fun t => IsTrans.trans t (x t).2 _ (hx t) (hf (x t).1 (x t).2)

instance : IsPreorder Tree Furnished where
  refl := Furnished.refl
  trans _ _ _ := Furnished.trans

theorem Leads.furnished (h : Leads Eq x) : Leads Furnished x :=
  h.mono fun t _ heq => heq ▸ Furnished.refl t

end Tree

open PipeTable.Tree

namespace Storage

theorem leads_status (p : Path) : Leads Eq (status p : StateM Tree (Except FileError FileStatus)) :=
  fun _ => rfl

theorem leads_isDirectory (p : Path) : Leads Eq (isDirectory p : StateM Tree Bool) := by
  refine (leads_status p).bind fun found => ?_
  cases found <;> exact leads_pure _

theorem leads_unlessDirectory (p : Path) (e : FileError) :
    Leads Eq (unlessDirectory p e : StateM Tree (Except FileError Unit)) := by
  refine (leads_isDirectory p).bind fun found => ?_
  cases found <;> exact leads_pure _

theorem leads_makeDirectory (p : Path) :
    Leads Furnished (makeDirectory p : StateM Tree (Except FileError Unit)) := by
  intro t
  change t.Furnished (attempt (fun t => t.makeDirectory p) t).2
  unfold attempt
  split
  · next hmade => exact furnished_of_makeDirectory hmade
  · exact Furnished.refl t

theorem leads_createFirst (paths : List Path) :
    Leads Furnished (createFirst paths : StateM Tree (Except FileError Unit)) := by
  induction paths with
  | nil => exact leads_pure _
  | cons p parents ih =>
    unfold createFirst
    split
    · exact leads_pure _
    · refine (leads_makeDirectory p).bind fun made => ?_
      split
      · exact leads_pure _
      · refine ih.bind fun created => ?_
        split
        · exact leads_pure _
        · refine (leads_makeDirectory p).bind fun made => ?_
          split
          · exact leads_pure _
          · exact (leads_unlessDirectory p _).furnished
      · exact (leads_unlessDirectory p _).furnished

end Storage

theorem Environment.leads_openLogDirectory (e : Environment) :
    Leads Furnished (e.openLogDirectory : StateM Tree (Except LogError Path)) := by
  unfold openLogDirectory
  split
  · exact leads_pure _
  · refine (Storage.leads_createFirst _).bind fun created => ?_
    split <;> exact leads_pure _

theorem Config.leads_loadFrom (p : Path) :
    Leads Eq (loadFrom p : StateM Tree (Except ConfigError Config)) := by
  refine Leads.bind (fun _ => rfl) fun found => ?_
  split
  · exact leads_pure _
  · split <;> exact leads_pure _

theorem Config.leads_load (e : Environment) : Leads Eq (load e : StateM Tree Config) := by
  unfold load
  split
  · exact leads_pure _
  · refine Leads.bind (Leads.bind (Storage.leads_status _) fun _ => leads_pure _) fun present => ?_
    split
    · refine (leads_loadFrom _).bind fun found => ?_
      split <;> exact leads_pure _
    · exact leads_pure _

theorem Program.leads_settings (e : Environment) (i : CommandLine.Invocation) :
    Leads Eq (settings e i : StateM Tree (Except String Config)) := by
  unfold settings
  split
  · exact (Config.leads_load e).bind fun _ => leads_pure _
  · refine (Config.leads_loadFrom _).bind fun found => ?_
    split <;> exact leads_pure _

namespace Document

theorem leads_check (p : Path) : Leads Eq (check p : StateM Tree (Except OpenError Unit)) := by
  refine (Storage.leads_status p).bind fun found => ?_
  split
  · exact leads_pure _
  · exact leads_pure _
  · exact leads_pure _
  · split
    · exact leads_pure _
    · split <;> exact leads_pure _

theorem leads_looksBinary (p : Path) : Leads Eq (looksBinary p : StateM Tree Bool) := by
  refine Leads.bind (fun _ => rfl) fun found => ?_
  split <;> exact leads_pure _

theorem leads_read (p : Path) : Leads Eq (read p : StateM Tree (Except OpenError String)) := by
  refine (leads_check p).bind fun checked => ?_
  split
  · exact leads_pure _
  · refine (leads_looksBinary p).bind fun binary => ?_
    split
    · exact leads_pure _
    · refine Leads.bind (fun _ => rfl) fun found => ?_
      split <;> exact leads_pure _

theorem exists_file_of_read {t : Tree} {p : Path} {s : String}
    (h : ((read p : StateM Tree (Except OpenError String)) t).1 = .ok s) :
    ∃ place content, t.resolve p = .ok place ∧ t.find place = some (.file content) ∧
      content.text? = some s := by
  unfold read at h
  rw [run_bind, ← leads_check p t] at h
  cases hcheck : ((check p : StateM Tree (Except OpenError Unit)) t).1 with
  | error e => cases hcheck ▸ h
  | ok _ =>
    rw [hcheck] at h
    dsimp only at h
    rw [run_bind, ← leads_looksBinary p t] at h
    cases hbinary : ((looksBinary p : StateM Tree Bool) t).1 with
    | true => cases hbinary ▸ h
    | false =>
      have htext : (Storage.readText p : StateM Tree (Except FileError String)) t =
          ((t.fileAt p).bind fun c => (c.text?).elim (.error .notText) .ok, t) := rfl
      rw [hbinary, if_neg Bool.false_ne_true, run_bind, htext] at h
      cases hfile : t.fileAt p with
      | error e => cases hfile ▸ h
      | ok content =>
        obtain ⟨place, hplace, hfound⟩ := fileAt_eq_ok_iff.1 hfile
        rw [hfile, Except.bind] at h
        refine ⟨place, content, hplace, hfound, ?_⟩
        cases hcontent : content.text? with
        | none => cases hcontent ▸ h
        | some text =>
          rw [hcontent] at h
          exact congrArg some (Except.ok.inj h)

end Document

end PipeTable
