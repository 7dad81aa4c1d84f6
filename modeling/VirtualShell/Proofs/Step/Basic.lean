import VirtualShell.Execution.Depth
import VirtualShell.Proofs.FileSystem.History

/-!
# Steps at a shell

How the building blocks of a step act on one shell, and what a step is expected to leave alone.

* `Shell.frame` — what the constructs around a step have set up.
* `Shell.account` — how many statements were run, and what is used of the limits.
* `Shell.Moves` — where a step may leave a shell.
* `Run.Leads` — how a step changes shells, whatever comes of it.
* `Run.Calm` — a step that changes neither frame nor account, and is left by no signal that a loop or
  a function waits for.
* **`Run.Tame`** — such a step that changes files by operations only. Tame steps are closed under
  sequencing, so the tameness of a step is read off its text.
-/

namespace VirtualShell

/-! ## Frames -/

/-- **What the constructs around a step have set up**: scopes, positional parameters, the depths of
calls, loops and substitutions, and the input of a group. -/
structure Frame where
  scopes : Nat
  parameters : List String
  outerParameters : List (List String)
  callDepth : Nat
  loopDepth : Nat
  substitutionDepth : Nat
  groupInput : Option String
  deriving DecidableEq, Repr

/-- The frame of a shell. -/
def Shell.frame (shell : Shell) : Frame where
  scopes := shell.variables.depth
  parameters := shell.parameters
  outerParameters := shell.outerParameters
  callDepth := shell.callDepth
  loopDepth := shell.loopDepth
  substitutionDepth := shell.substitutionDepth
  groupInput := shell.groupInput

/-- How many statements a shell has run, and what is used of the limits. -/
def Shell.account (shell : Shell) : Nat × Usage := (shell.statementCount, shell.usage)

/-- **Where a shell may get**: it stays in its directory, however that is written, or goes to one that
is written as a normal path. -/
def Shell.Moves (a b : Shell) : Prop :=
  b.directory = a.directory ∨ ∃ p : Path, p.IsNormal ∧ b.directory = p.render

theorem Shell.Moves.trans {a b c : Shell} (hab : a.Moves b) (hbc : b.Moves c) : a.Moves c := by
  rcases hbc with hstays | hgoes
  · exact hab.imp hstays.trans fun ⟨p, hp, hb⟩ => ⟨p, hp, hstays.trans hb⟩
  · exact .inr hgoes

/-- Two shells differ in their contents only: variables, functions, directories, files, the last
status and the errors kept for a command. What becomes of the files comes of operations. -/
structure Shell.SameSetting (a b : Shell) : Prop where
  frame : b.frame = a.frame
  account : b.account = a.account
  moves : a.Moves b
  files : a.files.Becomes b.files

namespace Shell.SameSetting

/-- What is kept with the directory and the files. -/
theorem of_place {a b : Shell} (hframe : b.frame = a.frame) (haccount : b.account = a.account)
    (hdirectory : b.directory = a.directory) (hfiles : b.files = a.files) : SameSetting a b :=
  ⟨hframe, haccount, .inl hdirectory, .of_eq hfiles⟩

theorem refl (shell : Shell) : SameSetting shell shell := .of_place rfl rfl rfl rfl

theorem trans {a b c : Shell} (hab : SameSetting a b) (hbc : SameSetting b c) : SameSetting a c :=
  ⟨hbc.frame.trans hab.frame, hbc.account.trans hab.account, hab.moves.trans hbc.moves,
    hab.files.trans hbc.files⟩

end Shell.SameSetting

/-- Neither a loop nor a function waits for it: a fault, an exit or a passed limit. -/
def Interrupt.IsCalm : Interrupt → Prop
  | .signal (.break _) _ | .signal (.continue _) _ | .signal (.return _) _ => False
  | _ => True

namespace Run

variable {α β ε : Type}

/-! ## Acting on a shell -/

theorem pure_apply (a : α) (shell : Shell) : (pure a : Run α) shell = (.ok a, shell) := rfl

theorem get_apply (shell : Shell) : (get : Run Shell) shell = (.ok shell, shell) := rfl

theorem modify_apply (f : Shell → Shell) (shell : Shell) :
    (modify f : Run Unit) shell = (.ok (), f shell) := rfl

theorem bind_apply (x : Run α) (f : α → Run β) (shell : Shell) :
    (x >>= f) shell =
      match x shell with
      | (.ok a, next) => f a next
      | (.error i, next) => (.error i, next) := by
  simp only [bind, ExceptT.bind, ExceptT.mk, StateT.bind]
  rcases x shell with ⟨_ | _, _⟩ <;> rfl

theorem bind_apply_eq_ok_iff {x : Run α} {f : α → Run β} {b : β} {shell after : Shell} :
    (x >>= f) shell = (.ok b, after) ↔
      ∃ a next, x shell = (.ok a, next) ∧ f a next = (.ok b, after) := by
  rw [bind_apply]
  constructor
  · intro h
    rcases hx : x shell with ⟨i | a, next⟩ <;> rw [hx] at h
    · cases h
    · exact ⟨a, next, rfl, h⟩
  · rintro ⟨a, next, hx, hf⟩
    rw [hx]
    exact hf

theorem tryCatch_apply (x : Run α) (h : Interrupt → Run α) (shell : Shell) :
    (tryCatch x h) shell =
      match x shell with
      | (.ok a, next) => (.ok a, next)
      | (.error i, next) => h i next := by
  simp only [tryCatch, tryCatchThe, MonadExceptOf.tryCatch, ExceptT.tryCatch, ExceptT.mk, bind,
    StateT.bind]
  rcases x shell with ⟨_ | _, _⟩ <;> rfl

/-- Output that was written before is added by a handler. -/
theorem after_eq_tryCatch (earlier : Output) (x : Run α) :
    after earlier x = tryCatch x fun i => throw (i.after earlier) := by
  funext shell
  rw [tryCatch_apply, after]
  rcases x shell with ⟨_ | _, _⟩ <;> rfl

/-! ## Shells before and after -/

/-- **A step leads from each shell to a related one**, however it ends. -/
def Leads (R : Shell → Shell → Prop) (x : Run α) : Prop := ∀ shell, R shell (x shell).2

namespace Leads

variable {R : Shell → Shell → Prop} (htrans : ∀ a b c, R a b → R b c → R a c) {x : Run α}
include htrans

theorem bind {f : α → Run β} (hx : Leads R x) (hf : ∀ a, Leads R (f a)) : Leads R (x >>= f) := by
  intro shell
  have hfirst := hx shell
  rw [bind_apply]
  rcases h : x shell with ⟨i | a, next⟩ <;> rw [h] at hfirst
  · exact hfirst
  · exact htrans _ _ _ hfirst (hf a next)

theorem handle {h : Interrupt → Run α} (hx : Leads R x) (hh : ∀ i, Leads R (h i)) :
    Leads R (tryCatch x h) := by
  intro shell
  have hfirst := hx shell
  rw [tryCatch_apply]
  rcases hx' : x shell with ⟨i | a, next⟩ <;> rw [hx'] at hfirst
  · exact htrans _ _ _ hfirst (hh i next)
  · exact hfirst

end Leads

/-! ## Tame steps -/

/-- **A step that keeps its place**: it changes neither the frame nor the account, and no signal to a
loop or to a function leaves it. -/
structure Calm (x : Run α) : Prop where
  frame : ∀ shell, (x shell).2.frame = shell.frame
  account : ∀ shell, (x shell).2.account = shell.account
  interrupt : ∀ shell i, (x shell).1 = .error i → i.IsCalm

/-- **A step that keeps to itself**: it changes contents only, and no signal to a loop or to a
function leaves it. -/
def Tame (x : Run α) : Prop :=
  ∀ shell, shell.SameSetting (x shell).2 ∧ ∀ i, (x shell).1 = .error i → i.IsCalm

theorem Tame.calm {x : Run α} (hx : Tame x) : Calm x where
  frame shell := (hx shell).1.frame
  account shell := (hx shell).1.account
  interrupt shell := (hx shell).2

theorem tame_pure (a : α) : Tame (pure a : Run α) := fun shell => ⟨.refl shell, nofun⟩

theorem tame_get : Tame (get : Run Shell) := fun shell => ⟨.refl shell, nofun⟩

/-- A change of contents is tame. -/
theorem tame_modify {f : Shell → Shell} (hf : ∀ shell : Shell, shell.SameSetting (f shell)) :
    Tame (modify f : Run Unit) :=
  fun shell => ⟨hf shell, nofun⟩

theorem tame_throw {i : Interrupt} (hi : i.IsCalm) : Tame (throw i : Run α) := by
  intro shell
  refine ⟨.refl shell, fun j hj => ?_⟩
  cases hj
  exact hi

theorem tame_fault (f : Fault) : Tame (fault f : Run α) := tame_throw trivial

theorem tame_exit (status : Int) (message : String) : Tame (exit status message : Run α) :=
  tame_throw trivial

theorem tame_excess (e : Excess) (output : Output) :
    Tame (signal (.excess e) output : Run α) :=
  tame_throw trivial

theorem tame_orFault (f : ε → Fault) (r : Except ε α) : Tame (orFault f r) := by
  cases r with
  | ok a => exact tame_pure a
  | error e => exact tame_fault (f e)

namespace Tame

theorem bind {x : Run α} {f : α → Run β} (hx : Tame x) (hf : ∀ a, Tame (f a)) :
    Tame (x >>= f) := by
  intro shell
  obtain ⟨hsame, hcalm⟩ := hx shell
  rw [bind_apply]
  rcases h : x shell with ⟨i | a, next⟩
  · rw [h] at hsame hcalm
    exact ⟨hsame, fun j hj => hcalm j (by cases hj; rfl)⟩
  · rw [h] at hsame
    exact ⟨hsame.trans (hf a next).1, (hf a next).2⟩

theorem map {x : Run α} (f : α → β) (hx : Tame x) : Tame (f <$> x) := by
  rw [map_eq_pure_bind]
  exact hx.bind fun _ => tame_pure _

theorem ite {c : Prop} [Decidable c] {x y : Run α} (hx : Tame x) (hy : Tame y) :
    Tame (if c then x else y) := by
  split
  · exact hx
  · exact hy

theorem mapM {f : α → Run β} (hf : ∀ a, Tame (f a)) (as : List α) : Tame (as.mapM f) := by
  induction as with
  | nil => exact tame_pure []
  | cons a as ih =>
    rw [List.mapM_cons]
    exact (hf a).bind fun _ => ih.bind fun _ => tame_pure _

theorem forM {f : α → Run Unit} (hf : ∀ a, Tame (f a)) (as : List α) : Tame (as.forM f) := by
  induction as with
  | nil => exact tame_pure ()
  | cons a as ih => exact (hf a).bind fun _ => ih

end Tame

/-! ## Steps with failures of their own -/

/-- A step that may fail in its own way, and is tame either way. -/
def TameOr (x : ExceptT ε Run α) : Prop := Tame x.run

theorem tameOr_pure (a : α) : TameOr (pure a : ExceptT ε Run α) :=
  tame_pure (Except.ok (ε := ε) a)

theorem tameOr_throw (e : ε) : TameOr (throw e : ExceptT ε Run α) :=
  tame_pure (Except.error (α := α) e)

theorem Tame.lift {x : Run α} (hx : Tame x) : TameOr (liftM x : ExceptT ε Run α) :=
  hx.map (Except.ok (ε := ε))

namespace TameOr

theorem bind {x : ExceptT ε Run α} {f : α → ExceptT ε Run β} (hx : TameOr x)
    (hf : ∀ a, TameOr (f a)) : TameOr (x >>= f) := by
  rw [TameOr, ExceptT.run_bind]
  refine Tame.bind hx fun r => ?_
  cases r with
  | ok a => exact hf a
  | error e => exact tame_pure _

theorem ite {c : Prop} [Decidable c] {x y : ExceptT ε Run α} (hx : TameOr x) (hy : TameOr y) :
    TameOr (if c then x else y) := by
  split
  · exact hx
  · exact hy

end TameOr

end Run

/-! ## Before a statement -/

/-- What comes before a statement: it is counted, and let run if the count allows it. -/
def Run.accept (limits : Limits) : Run Unit := countStatement limits >>= fun _ => letRun

theorem Statement.run_eq (r : Runner) (first : Pipeline) (rest : List (Connective × Pipeline))
    (background : Bool) : Statement.run r ⟨first, rest, background⟩ =
      Run.accept r.limits >>= fun _ => Pipeline.run r first >>= fun o => runRest r o rest := by
  rw [Statement.run, Run.accept, bind_assoc]

/-- **Letting a statement run**: it is counted in any case, and refused when the limit is passed. -/
theorem Run.accept_apply (limits : Limits) (shell : Shell) :
    Run.accept limits shell =
      if ((shell.statementCount + 1 : Nat) : Int) > limits.statements then
        (.error (.signal (.excess (.statements limits.statements)) .empty),
          { shell with statementCount := shell.statementCount + 1 })
      else
        (.ok (), { shell with
          statementCount := shell.statementCount + 1, usage := shell.usage.letRun }) := by
  by_cases h : ((shell.statementCount + 1 : Nat) : Int) > limits.statements
  all_goals
    simp only [accept, countStatement, bind_apply, get_apply, modify_apply, h, if_true, if_false]
    rfl

/-! ## Quoted texts -/

/-- A word that is a quoted text comes to this text, whatever the shell is. -/
theorem Word.text_quoted (x : Expander) (text : String) :
    Word.text x ⟨[.quoted text], text⟩ = pure text := by
  simp [Word.text, textBy, runsScript, Part.anyRunsScript, Part.runsScript, directText,
    expandDirect, Part.expandAllDirect, Part.expandDirect, Segment.textOf, Segment.literal]

end VirtualShell
