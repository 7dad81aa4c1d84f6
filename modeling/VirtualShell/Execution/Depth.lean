import VirtualShell.Execution.Script

/-!
# Calls and substitutions

A function runs in a scope of its own, with its own positional parameters, and sees no loop around
its call. A command substitution runs on a copy of the shell, of which only the files and the number
of statements are kept.

Both may stand inside one another only so deep, and this is what the recursion goes by: a runner for
some depth runs functions by one for less calls and substitutions by one for less substitutions.
-/

namespace VirtualShell

namespace Shell

/-- Enter a function with some arguments. -/
def enterCall (arguments : List String) (shell : Shell) : Shell :=
  { shell with
    callDepth := shell.callDepth + 1
    parameters := arguments
    outerParameters := shell.parameters :: shell.outerParameters
    «variables» := shell.variables.push .empty false
    loopDepth := 0
    usage := shell.usage.reachCall (shell.callDepth + 1) }

/-- Go back to the positional parameters of the call around this one, if there is one. -/
def dropParameters (shell : Shell) : Shell :=
  match shell.outerParameters with
  | [] => shell
  | parameters :: outer => { shell with parameters := parameters, outerParameters := outer }

/-- Leave a function: its scope and its parameters go, and the loops around the call are seen
again. -/
def leaveCall (initial final : Shell) : Shell :=
  { final.dropParameters with
    loopDepth := initial.loopDepth
    «variables» := final.variables.pop
    callDepth := final.callDepth - 1 }

/-- The copy of a shell that a command substitution runs on. -/
def enterSubstitution (shell : Shell) : Shell :=
  { shell with
    outerParameters := []
    loopDepth := 0
    substitutionDepth := shell.substitutionDepth + 1
    groupInput := none
    expansionErrors := ""
    usage := shell.usage.reachSubstitution (shell.substitutionDepth + 1) }

/-- What the shell keeps of the copy that a command substitution ran on. -/
def leaveSubstitution (initial final : Shell) : Shell :=
  { initial with
    statementCount := final.statementCount
    files := final.files
    usage := final.usage }

end Shell

namespace Run

/-- **Run a function.** A return ends it. -/
def calling (arguments : List String) (run : Run Outcome) : Run Outcome :=
  during (Shell.enterCall arguments) Shell.leaveCall
    (tryCatch run fun
      | .signal (.return status) output => return ⟨output, status⟩
      | i => throw i)

/-- **Run a command substitution.** A return and an exit end it. -/
def substituting (run : Run Outcome) : Run Outcome :=
  during Shell.enterSubstitution Shell.leaveSubstitution
    (tryCatch run fun
      | .signal (.return status) output => return ⟨output, status⟩
      | .signal (.exit status) output => return ⟨output, status⟩
      | i => throw i)

end Run

namespace Runner

/-- Call a function by a runner; without one the calls stand too deep inside one another. -/
def callBy (limits : Limits) (runner : Option Runner) (name : String) (function : FunctionBody)
    (arguments : List String) (input : String) : Run Outcome :=
  match runner with
  | none => Run.signal (.excess (.callDepth name limits.callDepth)) .empty
  | some r =>
    Run.calling arguments (Command.run r (.compound function.body function.redirections) input)

/-- Run a command substitution by a runner. -/
def substituteBy (r : Runner) (body : Script) : Run Outcome :=
  Run.substituting (Statement.runAll r .success body.statements)

/-- A runner for some depth of substitutions, which calls functions by the runners given for each
depth of substitutions. -/
def within (limits : Limits) (utilities : List (String × Utility)) (calls : Nat → Option Runner) :
    Nat → Runner
  | 0 => {
      limits, utilities
      expander := .ofSubstitute fun _ =>
        Run.signal (.excess (.substitutionDepth limits.substitutionDepth)) .empty
      call := fun name function arguments input =>
        callBy limits (calls 0) name function arguments input }
  | depth + 1 => {
      limits, utilities
      expander := .ofSubstitute fun body => substituteBy (within limits utilities calls depth) body
      call := fun name function arguments input =>
        callBy limits (calls (depth + 1)) name function arguments input }

/-- A runner for some depth of calls and of substitutions. -/
def forDepth (limits : Limits) (utilities : List (String × Utility)) :
    (calls substitutions : Nat) → Runner
  | 0, substitutions => within limits utilities (fun _ => none) substitutions
  | calls + 1, substitutions =>
    within limits utilities (fun depth => some (forDepth limits utilities calls depth)) substitutions

/-- The runner for the depths that a shell has left. -/
def leftIn (limits : Limits) (utilities : List (String × Utility)) (shell : Shell) : Runner :=
  forDepth limits utilities (limits.callDepth.toNat - shell.callDepth)
    (limits.substitutionDepth.toNat - shell.substitutionDepth)

/-- **The runner of shells with some limits.** How deep calls and substitutions already stand is
known to the shell it runs on. -/
def ofLimits (limits : Limits) (utilities : List (String × Utility)) : Runner where
  limits := limits
  utilities := utilities
  expander := .ofSubstitute fun body shell =>
    (leftIn limits utilities shell).expander.substitute body shell
  call := fun name function arguments input shell =>
    (leftIn limits utilities shell).call name function arguments input shell

end Runner

end VirtualShell
