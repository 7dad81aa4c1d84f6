import VirtualShell.Arith.Eval
import VirtualShell.FileSystem.Change
import VirtualShell.Host
import VirtualShell.Shell.Signal
import VirtualShell.Syntax.Tree

/-!
# The state of a shell

What commands change: variables, the directory, functions, positional parameters, the files, and how
deep commands stand in calls, loops and substitutions. What a run uses of its limits is accounted
for beside it.

A step of a shell starts from a state and ends in one, also when it is left by a signal or a fault:
nothing that was done is undone. What is set for the time of a step only is put back however it ends.
-/

namespace VirtualShell

/-- The body of a function, and the redirections that apply to it at every call. -/
structure FunctionBody where
  body : Compound
  redirections : List Redirection

/-! ## What is used of the limits -/

/-- What a run has used of what its limits allow. It is written down where it is used and never
asked for: no step depends on it. -/
structure Usage where
  /-- The statements that were let run. -/
  statements : Nat
  /-- The deepest that function calls stood inside one another. -/
  callDepth : Nat
  /-- The deepest that command substitutions stood inside one another. -/
  substitutionDepth : Nat
  /-- The turns that the innermost loop has begun. -/
  turns : Nat
  /-- The most turns that one loop has begun. -/
  loopTurns : Nat
  deriving DecidableEq, Repr

namespace Usage

/-- Nothing is used yet. -/
def none : Usage := ⟨0, 0, 0, 0, 0⟩

/-- A statement is let run. -/
def letRun (u : Usage) : Usage := { u with statements := u.statements + 1 }

/-- Function calls stand so deep inside one another. -/
def reachCall (u : Usage) (depth : Nat) : Usage := { u with callDepth := max u.callDepth depth }

/-- Command substitutions stand so deep inside one another. -/
def reachSubstitution (u : Usage) (depth : Nat) : Usage :=
  { u with substitutionDepth := max u.substitutionDepth depth }

/-- A loop is entered, which has begun no turn. -/
def enterLoop (u : Usage) : Usage := { u with turns := 0 }

/-- The innermost loop begins a turn. -/
def beginTurn (u : Usage) : Usage :=
  { u with turns := u.turns + 1, loopTurns := max u.loopTurns (u.turns + 1) }

/-- A loop is left, and another one is the innermost again. -/
def leaveLoop (u outer : Usage) : Usage := { u with turns := outer.turns }

end Usage

/-! ## The state -/

/-- The state of a shell. -/
structure Shell where
  «variables» : Variables
  /-- The directory paths are resolved at, as it was given. -/
  directory : String
  /-- The directory before this one; empty when there was none. -/
  previousDirectory : String
  functions : Table String FunctionBody
  /-- The positional parameters, without the name of the script. -/
  parameters : List String
  /-- The positional parameters of the calls around this one, innermost first. -/
  outerParameters : List (List String)
  callDepth : Nat
  loopDepth : Nat
  substitutionDepth : Nat
  /-- How many statements were run. -/
  statementCount : Nat
  /-- The status of the last pipeline. -/
  status : Int
  /-- What the commands inside a compound command read. -/
  groupInput : Option String
  /-- What command substitutions wrote to the error stream while words were expanded. -/
  expansionErrors : String
  files : FileSystem
  usage : Usage
  host : Host

/-- A step of a shell. -/
abbrev Run := ExceptT Interrupt (StateM Shell)

namespace Run

variable {α : Type}

/-! ## Leaving -/

/-- Leave by a signal. -/
def signal (s : Signal) (output : Output) : Run α := throw (.signal s output)

/-- End the script with an error message. -/
def exit (status : Int) (message : String) : Run α := signal (.exit status) (.ofError message)

/-- Leave by a fault. -/
def fault (f : Fault) : Run α := throw (.fault f)

/-- Leave by the fault that an error is, if there is one. -/
def orFault {ε : Type} (f : ε → Fault) : Except ε α → Run α
  | .ok a => pure a
  | .error e => fault (f e)

/-- **Output is never lost.** A signal that leaves a step takes along what was written before it. -/
def after (earlier : Output) (run : Run α) : Run α := fun shell =>
  match run shell with
  | (.error i, shell) => (.error (i.after earlier), shell)
  | (.ok a, shell) => (.ok a, shell)

/-- **For the time of a step.** What `enter` changes before a step, `leave` puts back after it,
however the step ends; `leave` is given the states before and after it. -/
def during (enter : Shell → Shell) (leave : (initial final : Shell) → Shell) (run : Run α) : Run α :=
  fun shell =>
    let (result, final) := run (enter shell)
    (result, leave shell final)

/-! ## Parts of the state -/

/-- Change the files. -/
def onFiles (action : FileAction α) : Run (Except FileError α) := fun shell =>
  let (result, files) := action.run shell.files
  (.ok result, { shell with files })

/-- Ask the files. -/
def askFiles (question : FileSystem → Except FileError α) : Run (Except FileError α) := do
  return question (← get).files

/-- Give a variable a value. -/
def setVariable (name value : String) : Run Unit :=
  modify fun shell => { shell with «variables» := shell.variables.set name value }

/-- The value of a variable, or another text when it has none. -/
def variableOr (name fallback : String) : Run String := do
  return ((← get).variables.get? name).getD fallback

/-- The path that a text means at the directory of the shell. -/
def pathOf (text : String) : Run Path := do
  return (Path.ofString (← get).directory).resolve text

end Run

/-- An arithmetic failure that a message can tell the user of. -/
def Arith.Error.isReported : Arith.Error → Bool
  | .malformed _ | .divisionByZero | .negativeExponent | .tooManyReferences => true
  | .numeral _ | .foreignDigit => false

/-- **The value of an arithmetic text** in the variables of a shell. -/
def Run.arithmetic (text : String) : Run (Except Arith.Error Int) := do
  let shell ← get
  let (result, vars) := (Arith.evaluate text).run shell.variables
  modify fun shell => { shell with «variables» := vars }
  match result with
  | .ok value => return .ok value
  | .error e => if e.isReported then return .error e else fault (.arithmetic e)

end VirtualShell
