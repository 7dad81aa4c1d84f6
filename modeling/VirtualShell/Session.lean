import VirtualShell.Execution.Depth
import VirtualShell.Syntax.ScriptParser
import VirtualShell.Text.Entity

/-!
# Sessions

A session runs scripts one after another in one shell, whose variables, functions, directory and
files it keeps between them. It may be set back to its start; the files stay as they are.

A script that cannot be read gives status two, a passed limit 126, and `exit` its own status.
-/

namespace VirtualShell

/-! ## Starting -/

/-- The variables of a new shell at a directory. -/
def startVariables (directory : String) : List (String × String) :=
  [("HOME", "/home/user"), ("PATH", "/usr/local/bin:/usr/bin:/bin"), ("PWD", directory),
    ("USER", "user"), ("SHELL", "/bin/bash")]

/-- A shell that has not run anything. -/
def Shell.start (host : Host) (directory : String) (vars : Variables) (files : FileSystem) :
    Shell where
  «variables» := vars
  directory := directory
  previousDirectory := ""
  functions := .empty
  parameters := []
  outerParameters := []
  callDepth := 0
  loopDepth := 0
  substitutionDepth := 0
  statementCount := 0
  status := 0
  groupInput := none
  expansionErrors := ""
  files := files
  usage := .none
  host := host

/-- A shell and what it goes back to. -/
structure Session where
  shell : Shell
  /-- The directory and the variables at the start. -/
  startDirectory : String
  startVariables : Variables
  limits : Limits
  utilities : List (String × Utility)
  /-- Operators written as entities are restored before a script is read. -/
  restoresOperators : Bool

namespace Session

/-- **A new session** on a machine at a directory, with variables added to those of every new shell.
All of them are exported. -/
def start (host : Host) (directory : String) (added : List (String × String)) (files : FileSystem)
    (limits : Limits) (utilities : List (String × Utility)) (restoresOperators : Bool) : Session :=
  let bindings := VirtualShell.startVariables directory ++ added
  let vars := Variables.ofGlobals bindings (bindings.map (·.1))
  { shell := .start host directory vars files
    startDirectory := directory
    startVariables := vars
    limits, utilities, restoresOperators }

/-- **Back to the start.** The files stay as they are. -/
def reset (s : Session) : Session :=
  { s with shell := .start s.shell.host s.startDirectory s.startVariables s.shell.files }

/-! ## Running -/

/-- The end of a script: it may be left by `exit` or by passing a limit. -/
def concluding (run : Run Outcome) : Run Outcome :=
  tryCatch run fun
    | .signal (.exit status) output => return ⟨output, status⟩
    | .signal (.excess e) output =>
      return ⟨output ++ .ofError ("bash: " ++ e.message ++ "\n"), Excess.status⟩
    | i => throw i

/-- What is put right after a script, however it ended: no loop, no call and no scope is open, only
the outermost positional parameters are left, and no input is given. -/
def putRight (shell : Shell) : Shell :=
  { shell with
    loopDepth := 0
    callDepth := 0
    groupInput := none
    parameters := (shell.parameters :: shell.outerParameters).getLast (by simp)
    outerParameters := []
    «variables» := shell.variables.popAll }

/-- A script, from the first statement to its end. -/
def scriptBody (r : Runner) (script : Script) : Run Outcome := do
  modify fun shell => { shell with statementCount := 0, usage := .none }
  concluding (Statement.runAll r .success script.statements)

/-- Run a script by a runner. -/
def runScript (r : Runner) (script : Script) : Run Outcome :=
  Run.during id (fun _ final => putRight final) (scriptBody r script)

/-- Read a text and run it as a script. -/
def runText (r : Runner) (text : String) : Run Outcome := do
  let outcome ←
    match Script.parse text with
    | .ok script => runScript r script
    | .error (.integer e) => Run.fault (.script (.integer e))
    | .error e => pure (.failure ("bash: " ++ e.message ++ "\n") 2)
  modify fun shell => { shell with status := outcome.status }
  return outcome

/-- **Run a script.** -/
def run (s : Session) (text : String) : Except Interrupt Outcome × Session :=
  let text := if s.restoresOperators then Text.restoreOperators text else text
  let (result, shell) := runText (.ofLimits s.limits s.utilities) text s.shell
  (result, { s with shell })

end Session

end VirtualShell
