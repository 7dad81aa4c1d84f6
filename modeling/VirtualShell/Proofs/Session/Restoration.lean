import VirtualShell.Execution.Script
import VirtualShell.Proofs.Confinement
import VirtualShell.Proofs.Step.Basic

/-!
# What is set up is put back

Scopes, positional parameters, loops, calls and the input of a group are set up around steps, and so
is the place for the errors of a command. Whatever a script does and however it ends, all of it is
again as it was. What a session puts right after a script is right already.

Between the stages of its pipelines a script does little of its own: it counts statements, keeps
statuses and joins what was written. So a property that survives this, and that all stages have, is
one of pipelines, statements and scripts.

* `Run.IsSequential` — a property that survives what is done between stages.
* `Statement.sequential_runAll` — such a property passes from stages to scripts.
* `Shell.Restored` — everything that was set up in one shell is set up in another one.
* `Shell.AtRest` — nothing is set up.
* `Session.Reachable` — the sessions that come about by using one.
* **`Runner.restoring_ofLimits`** — commands, pipelines, statements and scripts restore the shell
  that they run in, and every session is at rest between scripts.
-/

namespace VirtualShell

open Run

/-! ## From stages to scripts -/

/-- **A property that survives what is done between stages.** -/
structure Run.IsSequential (P : {α : Type} → Run α → Prop) : Prop where
  pure {α : Type} (a : α) : P (pure a : Run α)
  get : P (get : Run Shell)
  modify (f : Shell → Shell) :
    (∀ shell, (f shell).expansionErrors = shell.expansionErrors) → P (modify f : Run Unit)
  signal (s : Signal) (output : Output) : P (signal s output : Run Unit)
  bind {α β : Type} {x : Run α} {f : α → Run β} : P x → (∀ a, P (f a)) → P (x >>= f)
  after {α : Type} (earlier : Output) {x : Run α} : P x → P (after earlier x)

section

variable {P : {α : Type} → Run α → Prop} (h : IsSequential P) (r : Runner)
include h

theorem Run.sequential_countStatement (limits : Limits) : P (countStatement limits) := by
  refine h.bind (h.modify _ fun _ => rfl) fun _ => h.bind h.get fun _ => ?_
  split
  · exact h.signal _ _
  · exact h.pure _

theorem Run.sequential_conclude (negated : Bool) (o : Outcome) : P (conclude negated o) :=
  h.bind (h.modify _ fun _ => rfl) fun _ => h.pure _

variable (hstage : ∀ (several : Bool) (command : Command) (input : String),
  P (stage several command.label (command.run r input)))
include hstage

theorem Command.sequential_runStages (several : Bool) (input : String) (o : Outcome)
    (commands : List Command) : P (Command.runStages r several input o commands) := by
  induction commands generalizing input o with
  | nil => exact h.pure o
  | cons command rest ih =>
    exact h.bind (h.after _ (hstage several command input)) fun _ => ih _ _

theorem Pipeline.sequential_run (pipeline : Pipeline) : P (pipeline.run r) := by
  obtain ⟨commands, negated⟩ := pipeline
  refine h.bind h.get fun _ => ?_
  exact h.bind (Command.sequential_runStages h r hstage _ _ _ commands) fun o =>
    sequential_conclude h negated o

theorem Statement.sequential_runRest (o : Outcome) (rest : List (Connective × Pipeline)) :
    P (Statement.runRest r o rest) := by
  induction rest generalizing o with
  | nil => exact h.pure o
  | cons next rest ih =>
    obtain ⟨connective, pipeline⟩ := next
    simp only [Statement.runRest]
    split
    · exact ih o
    · exact h.bind (h.after _ (pipeline.sequential_run h r hstage)) fun _ => ih _

theorem Statement.sequential_run (statement : Statement) : P (statement.run r) := by
  obtain ⟨first, rest, _⟩ := statement
  refine h.bind (sequential_countStatement h r.limits) fun _ => ?_
  refine h.bind (h.modify _ fun _ => rfl) fun _ => ?_
  exact h.bind (first.sequential_run h r hstage) fun o =>
    Statement.sequential_runRest h r hstage o rest

theorem Statement.sequential_runAll (o : Outcome) (statements : List Statement) :
    P (Statement.runAll r o statements) := by
  induction statements generalizing o with
  | nil => exact h.pure o
  | cons statement rest ih =>
    exact h.bind (h.after _ (statement.sequential_run h r hstage)) fun _ => ih _

end

/-! ## The errors of a command -/

namespace Run

variable {α β : Type}

/-- A step that leaves the errors kept for the command around it as they were. -/
def KeepsErrors (x : Run α) : Prop :=
  ∀ shell, (x shell).2.expansionErrors = shell.expansionErrors

/-- A place that is kept by two steps is kept by their sequence. -/
theorem KeepsErrors.bind {x : Run α} {f : α → Run β} (hx : KeepsErrors x)
    (hf : ∀ a, KeepsErrors (f a)) : KeepsErrors (x >>= f) :=
  Leads.bind (R := fun a b => b.expansionErrors = a.expansionErrors)
    (fun _ _ _ hab hbc => hbc.trans hab) hx hf

theorem KeepsErrors.handle {x : Run α} {h : Interrupt → Run α} (hx : KeepsErrors x)
    (hh : ∀ i, KeepsErrors (h i)) : KeepsErrors (tryCatch x h) :=
  Leads.handle (R := fun a b => b.expansionErrors = a.expansionErrors)
    (fun _ _ _ hab hbc => hbc.trans hab) hx hh

theorem isSequential_keepsErrors : IsSequential KeepsErrors where
  pure _ _ := rfl
  get _ := rfl
  modify _ hf := hf
  signal _ _ _ := rfl
  bind hx hf := hx.bind hf
  after earlier x hx := by
    rw [after_eq_tryCatch]
    exact hx.handle fun _ _ => rfl

theorem keepsErrors_stage (several : Bool) (label : String) {x : Run Outcome}
    (hx : KeepsErrors x) : KeepsErrors (stage several label x) := by
  obtain ⟨handler, hanswer, -, hstage⟩ := stage_eq_tryCatch several label
  rw [hstage]
  exact hx.handle fun i shell => congrArg Shell.expansionErrors (hanswer.state_eq i shell)

end Run

/-- A command that expands words has a place of its own for their errors. -/
theorem Command.keepsErrors_run (r : Runner) (command : Command) (input : String) :
    KeepsErrors (command.run r input) := by
  cases command with
  | simple c => exact fun _ => rfl
  | compound body redirections => exact fun _ => rfl
  | function name body redirections => exact fun _ => rfl

theorem Command.keepsErrors_stage (r : Runner) (several : Bool) (command : Command)
    (input : String) : KeepsErrors (stage several command.label (command.run r input)) :=
  Run.keepsErrors_stage several command.label (command.keepsErrors_run r input)

/-! ## Restored shells -/

/-- **All that was set up in a shell is set up in another one**, and nothing more: the scopes, the
positional parameters of every call, the depths, the input of a group and the errors of a command. -/
structure Shell.Restored (initial final : Shell) : Prop where
  frame : final.frame = initial.frame
  expansionErrors : final.expansionErrors = initial.expansionErrors

/-- A step that restores what it found, however it ends. -/
def Run.Restoring {α : Type} (x : Run α) : Prop := ∀ shell : Shell, shell.Restored (x shell).2

theorem Run.Confined.restoring {α : Type} {e : Escapes} {x : Run α} (hx : Confined e x)
    (herrors : KeepsErrors x) : Restoring x :=
  fun shell => ⟨(hx shell).1, herrors shell⟩

section Runners

variable (limits : Limits) (utilities : List (String × Utility))

theorem Command.restoring_run (command : Command) (input : String) :
    Restoring (command.run (.ofLimits limits utilities) input) := by
  have hconfined := Command.run_related (isClosed_confinement limits)
    (Runner.confined_ofLimits limits utilities) command input
  exact Confined.restoring hconfined (command.keepsErrors_run _ input)

theorem Pipeline.restoring_run (pipeline : Pipeline) :
    Restoring (pipeline.run (.ofLimits limits utilities)) := by
  have hconfined := Pipeline.run_related (isClosed_confinement limits)
    (Runner.confined_ofLimits limits utilities) pipeline
  exact Confined.restoring hconfined <|
    pipeline.sequential_run isSequential_keepsErrors _ (Command.keepsErrors_stage _)

theorem Statement.restoring_run (statement : Statement) :
    Restoring (statement.run (.ofLimits limits utilities)) := by
  have hconfined := Statement.run_related (isClosed_confinement limits)
    (Runner.confined_ofLimits limits utilities) statement
  exact Confined.restoring hconfined <|
    statement.sequential_run isSequential_keepsErrors _ (Command.keepsErrors_stage _)

theorem Statement.restoring_runAll (o : Outcome) (statements : List Statement) :
    Restoring (Statement.runAll (.ofLimits limits utilities) o statements) := by
  have hconfined := Statement.runAll_related (isClosed_confinement limits)
    (Runner.confined_ofLimits limits utilities) o statements
  exact Confined.restoring hconfined <|
    Statement.sequential_runAll isSequential_keepsErrors _ (Command.keepsErrors_stage _) o statements

end Runners

/-! ## Shells at rest -/

/-- **Nothing is set up**: there are the global variables and the outermost positional parameters
only, no loop, call or substitution is open, and no input is given. -/
structure Shell.AtRest (shell : Shell) : Prop where
  scopes : shell.variables.depth = 0
  parameters : shell.outerParameters = []
  loops : shell.loopDepth = 0
  calls : shell.callDepth = 0
  substitutions : shell.substitutionDepth = 0
  input : shell.groupInput = none

namespace Shell.AtRest

theorem congr {a b : Shell} (h : a.AtRest) (hframe : b.frame = a.frame) : b.AtRest where
  scopes := (congrArg Frame.scopes hframe).trans h.scopes
  parameters := (congrArg Frame.outerParameters hframe).trans h.parameters
  loops := (congrArg Frame.loopDepth hframe).trans h.loops
  calls := (congrArg Frame.callDepth hframe).trans h.calls
  substitutions := (congrArg Frame.substitutionDepth hframe).trans h.substitutions
  input := (congrArg Frame.groupInput hframe).trans h.input

/-- What is put right after a script is right in a shell at rest. -/
theorem putRight_eq {shell : Shell} (h : shell.AtRest) : Session.putRight shell = shell := by
  obtain ⟨hscopes, hparameters, hloops, hcalls, -, hinput⟩ := h
  cases shell
  dsimp only at hscopes hparameters hloops hcalls hinput
  subst hparameters hloops hcalls hinput
  simp only [Session.putRight, Variables.popAll_of_depth_eq_zero hscopes, List.getLast_singleton]

theorem start (host : Host) (directory : String) (vars : Variables) (files : FileSystem)
    (h : vars.depth = 0) : (Shell.start host directory vars files).AtRest :=
  ⟨h, rfl, rfl, rfl, rfl, rfl⟩

end Shell.AtRest

/-! ## Sessions -/

namespace Session

/-- What is caught at the end of a script is not answered by a change. -/
theorem concluding_state (x : Run Outcome) (shell : Shell) :
    (concluding x shell).2 = (x shell).2 := by
  rw [concluding, tryCatch_apply]
  rcases x shell with ⟨i | o, next⟩
  · rcases i with ⟨levels | levels | status | status | excess, output⟩ | fault <;> rfl
  · rfl

/-- A script leaves a shell at rest in which it was run at rest. -/
theorem atRest_scriptBody (limits : Limits) (utilities : List (String × Utility)) (script : Script)
    {shell : Shell} (h : shell.AtRest) :
    (scriptBody (.ofLimits limits utilities) script shell).2.AtRest := by
  rw [scriptBody, bind_apply, modify_apply]
  dsimp only
  rw [concluding_state]
  refine Shell.AtRest.congr (a := { shell with statementCount := 0, usage := .none }) ?_ ?_
  · exact h.congr rfl
  · exact (Statement.restoring_runAll limits utilities .success script.statements _).frame

/-- After a script that was run at rest there is nothing to put right. -/
theorem runScript_eq (limits : Limits) (utilities : List (String × Utility)) (script : Script)
    {shell : Shell} (h : shell.AtRest) :
    runScript (.ofLimits limits utilities) script shell =
      scriptBody (.ofLimits limits utilities) script shell := by
  have hfinal := (atRest_scriptBody limits utilities script h).putRight_eq
  exact Prod.ext rfl hfinal

theorem atRest_runText (limits : Limits) (utilities : List (String × Utility)) (text : String)
    {shell : Shell} (h : shell.AtRest) :
    (runText (.ofLimits limits utilities) text shell).2.AtRest := by
  have hstatus {next : Shell} (hnext : next.AtRest) (outcome : Outcome) :
      ((do
        modify fun shell => { shell with status := outcome.status }
        return outcome : Run Outcome) next).2.AtRest :=
    hnext.congr rfl
  rw [runText]
  cases Script.parse text with
  | ok script =>
    have hscript := atRest_scriptBody limits utilities script h
    dsimp only
    rw [bind_apply, runScript_eq limits utilities script h]
    rcases hrun : scriptBody (.ofLimits limits utilities) script shell with ⟨i | o, next⟩
    · rw [hrun] at hscript
      exact hscript
    · rw [hrun] at hscript
      exact hstatus hscript o
  | error e =>
    cases e with
    | integer e => exact h
    | _ => exact hstatus h _

/-- **The sessions that come about**: new ones, and what becomes of them when scripts are run, when
they are set back to their start, and when somebody else changes the files. -/
inductive Reachable : Session → Prop
  | start (host : Host) (directory : String) (added : List (String × String)) (files : FileSystem)
      (limits : Limits) (utilities : List (String × Utility)) (restoresOperators : Bool) :
      Reachable (.start host directory added files limits utilities restoresOperators)
  | run {s : Session} (text : String) : Reachable s → Reachable (s.run text).2
  | reset {s : Session} : Reachable s → Reachable s.reset
  | files {s : Session} (files : FileSystem) :
      Reachable s → Reachable { s with shell := { s.shell with files } }

/-- A session at rest, which goes back to a shell at rest. -/
structure AtRest (s : Session) : Prop where
  shell : s.shell.AtRest
  startVariables : s.startVariables.depth = 0

/-- **Every session is at rest between scripts.** -/
theorem Reachable.atRest {s : Session} (h : s.Reachable) : s.AtRest := by
  induction h with
  | start host directory added files limits utilities restoresOperators =>
    exact ⟨Shell.AtRest.start _ _ _ _ rfl, rfl⟩
  | run text _ ih => exact ⟨atRest_runText _ _ _ ih.shell, ih.startVariables⟩
  | reset _ ih => exact ⟨Shell.AtRest.start _ _ _ _ ih.startVariables, ih.startVariables⟩
  | files files _ ih => exact ⟨ih.shell.congr rfl, ih.startVariables⟩

end Session

/-! ## The main statement -/

/-- **Everything is restored on every way out** of commands, pipelines, statements and scripts: when
they end, and when a signal or a fault leaves them. So a session is at rest after each script, with
nothing left to put right. -/
theorem Runner.restoring_ofLimits (limits : Limits) (utilities : List (String × Utility)) :
    (∀ (command : Command) (input : String),
      Restoring (command.run (.ofLimits limits utilities) input)) ∧
    (∀ pipeline : Pipeline, Restoring (pipeline.run (.ofLimits limits utilities))) ∧
    (∀ statement : Statement, Restoring (statement.run (.ofLimits limits utilities))) ∧
    (∀ script : Script,
      Restoring (Statement.runAll (.ofLimits limits utilities) .success script.statements)) ∧
    ∀ (s : Session) (script : Script), s.Reachable →
      (Session.scriptBody (.ofLimits s.limits s.utilities) script s.shell).2.AtRest ∧
      Session.runScript (.ofLimits s.limits s.utilities) script s.shell =
        Session.scriptBody (.ofLimits s.limits s.utilities) script s.shell :=
  ⟨Command.restoring_run limits utilities, Pipeline.restoring_run limits utilities,
    Statement.restoring_run limits utilities,
    fun script => Statement.restoring_runAll limits utilities .success script.statements,
    fun s script h => ⟨Session.atRest_scriptBody s.limits s.utilities script h.atRest.shell,
      Session.runScript_eq s.limits s.utilities script h.atRest.shell⟩⟩

/-- A new session in which a function leaves itself out of a loop, and is called with a variable. -/
theorem Runner.restoring_ofLimits_function :
    let s := Session.start .bare "/home/user" [] (.ofClock ⟨0, 1⟩) .standard [] false
    let call (assignments : List Assignment) (name : String) : Statement :=
      ⟨⟨[.simple ⟨assignments, some (.ofLiteral name), [], [], 1⟩], false⟩, [], false⟩
    let body : Compound := .loop .whileTrue [call [] "true"] [call [] "return"]
    let script : Script :=
      ⟨[⟨⟨[.function "f" body []], false⟩, [], false⟩,
        call [⟨"x", some (.ofLiteral "1"), false⟩] "f"]⟩
    (Session.scriptBody (.ofLimits s.limits s.utilities) script s.shell).2.AtRest ∧
      Session.runScript (.ofLimits s.limits s.utilities) script s.shell =
        Session.scriptBody (.ofLimits s.limits s.utilities) script s.shell :=
  (Runner.restoring_ofLimits .standard []).2.2.2.2 _ _
    (.start .bare "/home/user" [] (.ofClock ⟨0, 1⟩) .standard [] false)

end VirtualShell
