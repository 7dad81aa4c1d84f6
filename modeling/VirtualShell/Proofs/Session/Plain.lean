import VirtualShell.Proofs.Quoting.AnsiQuoted
import VirtualShell.Proofs.Quoting.HereDocument
import VirtualShell.Proofs.Reading.Source
import VirtualShell.Proofs.Session.Selection

/-!
# Plain commands

A plain command has a name and arguments between single quotes, and nothing else. It is what its name
means, and alone in a statement it decides how the statement ends.

* `SimpleCommand.plain` — plain commands.
* `Runner.simple_plain` — a plain command is run by its name.
* **`Statement.run_plain`** — a statement that is one plain command.
-/

namespace VirtualShell

open Run

/-! ## Words and names -/

/-- A command of a name and some arguments. -/
def SimpleCommand.plain (name : String) (arguments : List String) : SimpleCommand :=
  ⟨[], some (.inQuotes name), arguments.map .inQuotes, [], 1⟩

theorem Word.allFields_inQuotes (x : Expander) (texts : List String) (shell : Shell) :
    allFields x (texts.map inQuotes) shell = (.ok texts, shell) := by
  have hspell : AllSpell (texts.map inQuotes) (texts.map (Quotation.single, ·)) := by
    induction texts with
    | nil => exact .nil
    | cons text texts ih => exact .cons (AnsiQuotation.spells_quoted text _) ih
  rw [hspell.allFields_apply, List.map_map]
  exact congrArg (fun texts => (Except.ok texts, shell)) (List.map_id texts)

namespace Runner

variable {r : Runner} {name : String} {shell : Shell}

theorem named_builtin {builtin : Builtin} (hfunction : shell.functions.get? name = none)
    (hname : Builtin.named? name = some builtin) (arguments : List String) (input : String) :
    r.named name arguments input shell = builtin arguments shell := by
  rw [named, bind_apply, get_apply]
  simp only [hfunction, hname]

theorem named_utility {utility : Utility} (hfunction : shell.functions.get? name = none)
    (hbuiltin : Builtin.named? name = none) (hname : r.utilities.lookup name = some utility)
    (arguments : List String) (input : String) :
    r.named name arguments input shell =
      utility.step ⟨arguments, input, shell.directory, shell.variables.environment, shell.host⟩
        shell := by
  rw [named, bind_apply, get_apply]
  simp only [hfunction, hbuiltin, hname]

/-- **A command of words alone is run by its name.** -/
theorem simple_of_words (r : Runner) {word : Word} {words : List Word} {line : Nat} {name : String}
    {arguments : List String} {shell next : Shell} (input : String)
    (hwords : r.wordsOf ⟨[], some word, words, [], line⟩ shell = (.ok (name :: arguments), next)) :
    r.simple ⟨[], some word, words, [], line⟩ input shell = r.named name arguments input next := by
  have hbindings : Assignment.bindings r.expander [] = pure (.ofList []) := rfl
  have hbinding (run : Run Outcome) : Run.binding (.ofList []) run = run := if_pos rfl
  have hstreams : (Streams.ofRedirections r.expander [] input).run =
      pure (.ok (.ofInput input)) := rfl
  have hdeliver := Streams.deliver_eq (s := .ofInput input) input rfl
  have hinput : (Streams.ofInput input).input = input := rfl
  rw [simple, bind_apply, hwords]
  simp only [redirected, hstreams, hbindings, pure_bind, hbinding, Streams.around]
  rw [bind_apply, tryCatch_apply, hinput]
  rcases r.named name arguments input next with ⟨(⟨s, output⟩ | f) | o, final⟩
  · simp only [hdeliver, pure_bind]
    rfl
  · rfl
  · simp only [hdeliver, pure_bind]
    rfl

/-- **A plain command is run by its name.** -/
theorem simple_plain (r : Runner) (name : String) (arguments : List String) (input : String)
    (shell : Shell) :
    r.simple (.plain name arguments) input shell = r.named name arguments input shell :=
  r.simple_of_words input (Word.allFields_inQuotes r.expander (name :: arguments) shell)

end Runner

/-! ## Statements -/

/-- The shell in which the commands of a statement run, once it is counted. -/
def Shell.counted (shell : Shell) : Shell :=
  { shell with statementCount := shell.statementCount + 1, usage := shell.usage.letRun }

/-- A shell in which a plain command may run: the limit is not reached, and nothing is kept from the
commands around it. -/
structure Shell.Ready (limits : Limits) (shell : Shell) : Prop where
  count : ((shell.statementCount + 1 : Nat) : Int) ≤ limits.statements
  errors : shell.expansionErrors = ""
  input : shell.groupInput = none

namespace Shell.Ready

variable {r : Runner} {shell : Shell}

theorem accept_apply {limits : Limits} (h : shell.Ready limits) :
    accept limits shell = (.ok (), shell.counted) := by
  rw [Run.accept_apply, if_neg (by simpa using h.count)]
  rfl

/-- Nothing is put before what a command gives when no expansion has written an error. -/
theorem withExpansionErrors_apply {limits : Limits} (h : shell.Ready limits) (run : Run Outcome)
    (hrun : (run shell.counted).2.expansionErrors = "") :
    withExpansionErrors run shell.counted = run shell.counted := by
  have hcleared : { shell.counted with expansionErrors := "" } = shell.counted := by
    rw [← h.errors]
    rfl
  have hkept {next : Shell} (hnext : next.expansionErrors = "") :
      { next with expansionErrors := shell.counted.expansionErrors } = next := by
    rw [show shell.counted.expansionErrors = "" from h.errors, ← hnext]
  have hnothing : Output.ofError "" = .empty := rfl
  rw [withExpansionErrors, hcleared]
  rcases hresult : run shell.counted with ⟨(⟨s, output⟩ | f) | o, next⟩ <;>
    rw [hresult] at hrun <;> dsimp only at hrun ⊢ <;> rw [hrun, hkept hrun, hnothing]
  · exact congrArg (fun o => (Except.error (Interrupt.signal s o), next)) (Output.empty_append _)
  · rfl
  · exact congrArg (fun o => (Except.ok o, next)) (Outcome.after_empty o)

end Shell.Ready

section

variable {r : Runner} {name : String} {arguments : List String} {shell next : Shell}

theorem Command.run_plain {result : Except Interrupt Outcome} (hready : shell.Ready r.limits)
    (hnamed : r.named name arguments "" shell.counted = (result, next))
    (hnext : next.expansionErrors = "") :
    Command.run r (.simple (.plain name arguments)) "" shell.counted = (result, next) := by
  have hsimple := (r.simple_plain name arguments "" shell.counted).trans hnamed
  rw [Command.run, hready.withExpansionErrors_apply _ (by rw [hsimple, hnext]), hsimple]

/-- A statement that is one command is this command, read by nobody else. -/
theorem Statement.run_statementOf {command : Command} (hready : shell.Ready r.limits) :
    Statement.run r (Parser.statementOf command) shell =
      (do
        let o ← after .empty (stage false command.label (Command.run r command ""))
        conclude false (o.after .empty)) shell.counted := by
  have hinput : shell.counted.groupInput.getD "" = "" := by
    rw [show shell.counted.groupInput = none from hready.input, Option.getD_none]
  have hseveral : decide ([command].length > 1) = false := by simp
  have hempty : Output.ofError Outcome.success.output.stderr = .empty := rfl
  simp only [Parser.statementOf, Statement.run_eq, Statement.runRest, Pipeline.run,
    Command.runStages, bind_apply, hready.accept_apply, get_apply, hinput, hseveral, hempty]
  rcases after .empty (stage false command.label (Command.run r command "")) shell.counted with
    ⟨i | o, next⟩ <;> rfl

/-- **A statement that is one plain command** ends when the command does, and its status is kept. -/
theorem Statement.run_plain {o : Outcome} (hready : shell.Ready r.limits)
    (hnamed : r.named name arguments "" shell.counted = (.ok o, next))
    (hnext : next.expansionErrors = "") :
    Statement.run r (Parser.statementOf (.simple (.plain name arguments))) shell =
      (.ok o, { next with status := o.status }) := by
  have hstage (label : String) :
      stage false label (Command.run r (.simple (.plain name arguments)) "") shell.counted =
        (.ok o, next) := by
    rw [stage, tryCatch_apply, Command.run_plain hready hnamed hnext]
  rw [run_statementOf hready, bind_apply, after_of_ok _ (hstage _)]
  exact congrArg (fun o' => (Except.ok o', { next with status := o.status })) (Outcome.after_empty o)

/-- **A signal leaves the statement** when it leaves the command. -/
theorem Statement.run_plain_signal {s : Signal} {output : Output} (hready : shell.Ready r.limits)
    (hnamed : r.named name arguments "" shell.counted = (.error (.signal s output), next))
    (hnext : next.expansionErrors = "") :
    Statement.run r (Parser.statementOf (.simple (.plain name arguments))) shell =
      (.error (.signal s output), next) := by
  have hstage (label : String) :
      stage false label (Command.run r (.simple (.plain name arguments)) "") shell.counted =
        (.error (.signal s output), next) := by
    rw [stage, tryCatch_apply, Command.run_plain hready hnamed hnext]
    cases s <;> rfl
  rw [run_statementOf hready, bind_apply, after, hstage]
  exact congrArg (fun output => (Except.error (Interrupt.signal s output), next))
    (Output.empty_append output)

end

end VirtualShell
