import VirtualShell.Builtin.Registry
import VirtualShell.Execution.Streams
import VirtualShell.Utility.Registry

/-!
# Simple commands

A simple command is expanded into a name and arguments; the name means a function, a builtin or a
utility, in this order. Its assignments hold while it runs, and are exported. A command of
assignments alone changes the variables for good.

The running of functions and of command substitutions is given by a `Runner`. What it knows how to
do lies deeper in calls or in substitutions.
-/

namespace VirtualShell

/-- What the running of commands rests on. -/
structure Runner where
  limits : Limits
  /-- The utilities there are, by their names. -/
  utilities : List (String × Utility)
  expander : Expander
  /-- Call a function of a name with some arguments and an input. -/
  call : (name : String) → FunctionBody → (arguments : List String) → (input : String) → Run Outcome

/-! ## Assignments -/

/-- The value that an assignment gives. -/
def Assignment.result (x : Expander) (a : Assignment) : Run String := do
  let new ← match a.value with
    | some word => word.text x
    | none => pure ""
  if a.append then return (← Run.variableOr a.name "") ++ new else return new

/-- Assign one after another. The status is that of the last script a value was taken from. -/
def Assignment.runAll (x : Expander) : (status : Int) → List Assignment → Run Int
  | status, [] => return status
  | status, a :: rest => do
    Run.setVariable a.name (← a.result x)
    if a.value.any Word.runsScript then runAll x (← get).status rest else runAll x status rest

/-- The values of assignments that stand before a command. Each is worked out as if those before it
had not been made; of two for one name the last one counts. -/
def Assignment.bindings (x : Expander) (assignments : List Assignment) :
    Run (Table String String) := do
  return .ofList (← assignments.mapM fun a => do return (a.name, ← a.result x))

/-- Run with some variables in a scope of their own, exported. -/
def Run.binding (bindings : Table String String) (run : Run Outcome) : Run Outcome :=
  if bindings.keys.isEmpty then run
  else
    Run.during (fun shell => { shell with «variables» := shell.variables.push bindings true })
      (fun _ final => { final with «variables» := final.variables.pop }) run

/-! ## Commands by name -/

/-- Run a utility. -/
def Utility.step (utility : Utility) (call : Call) : Run Outcome := fun shell =>
  let (result, files) := (utility call).run shell.files
  (result.mapError .fault, { shell with files })

namespace Runner

/-- **Run the command of a name**: a function, a builtin or a utility. -/
def named (r : Runner) (name : String) (arguments : List String) (input : String) :
    Run Outcome := do
  let shell ← get
  match shell.functions.get? name with
  | some body => r.call name body arguments input
  | none =>
    match Builtin.named? name with
    | some builtin => builtin arguments
    | none =>
      match r.utilities.lookup name with
      | some utility =>
        utility.step
          ⟨arguments, input, shell.directory, shell.variables.environment, shell.host⟩
      | none => return .failure ("bash: " ++ name ++ ": command not found\n") 127

/-- Run a command that consists of assignments and redirections. -/
def assignments (r : Runner) (c : SimpleCommand) : Run Outcome := do
  let status ← Assignment.runAll r.expander 0 c.assignments
  Run.redirected r.expander c.redirections "" fun streams =>
    streams.around (return .ofStatus status)

/-- The words of a simple command. -/
def wordsOf (r : Runner) (c : SimpleCommand) : Run (List String) :=
  match c.name with
  | some name => Word.allFields r.expander (name :: c.args)
  | none => return []

/-- **Run a simple command.** Without a word, or when its words expand to nothing, it only assigns.
Otherwise redirections come before assignments. -/
def simple (r : Runner) (c : SimpleCommand) (input : String) : Run Outcome := do
  match ← r.wordsOf c with
  | [] => r.assignments c
  | name :: arguments =>
    Run.redirected r.expander c.redirections input fun streams => do
      let bindings ← Assignment.bindings r.expander c.assignments
      streams.around (Run.binding bindings (r.named name arguments streams.input))

/-- The condition between double brackets. -/
def condition (r : Runner) (words : List Word) : Run Outcome := do
  let operands ← words.mapM fun word => do
    let segments ← word.expand r.expander false
    return ⟨Segment.textOf segments, some (Segment.patternOf segments)⟩
  let (status, error) ← Condition.status .brackets operands
  match error with
  | some e => return .failure ("bash: [[: " ++ e.message ++ "\n") status
  | none => return .ofStatus status

/-- An arithmetic command succeeds unless the value is zero. What ends the script elsewhere only
makes it fail. -/
def arithmetic (r : Runner) (expression : Word) : Run Outcome :=
  tryCatch (do return .ofStatus (if (← expression.value r.expander) = 0 then 1 else 0)) fun
    | .signal (.exit _) output => return .failure output.stderr 1
    | i => throw i

end Runner

end VirtualShell
