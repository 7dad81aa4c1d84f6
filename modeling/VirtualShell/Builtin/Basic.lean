import VirtualShell.Shell.Basic
import VirtualShell.Syntax.Name

/-!
# Builtins

A builtin is a command of the shell itself: it is given its arguments and may change anything in the
shell, or leave the commands around it. It has no input.
-/

namespace VirtualShell

/-- A command of the shell itself. -/
abbrev Builtin := (arguments : List String) → Run Outcome

namespace Builtin

/-- An error message of a builtin, and a status. -/
def refuse (name message : String) (status : Int) : Outcome :=
  .failure ("bash: " ++ name ++ ": " ++ message ++ "\n") status

/-- Does nothing, with a status. -/
def constant (status : Int) : Builtin := fun _ => return .ofStatus status

/-- An argument cut at its first equals sign; without one it is a name alone. -/
def binding (argument : String) : String × Option String :=
  let text := argument.toList
  match text.dropWhile (· != '=') with
  | [] => (argument, none)
  | _ :: value => (String.ofList (text.takeWhile (· != '=')), some (String.ofList value))

/-- Run over some arguments, each of which gives the message of a complaint or none. The status is
one when there was a complaint. -/
def overAll (name : String) (step : String → Run (Option String)) : Builtin := fun arguments => do
  let complaints := (← arguments.mapM step).filterMap id
  let lines := complaints.map fun message => "bash: " ++ name ++ ": " ++ message ++ "\n"
  return .failure (String.join lines) (if complaints.isEmpty then 0 else 1)

/-- The complaint about a text that is no name. -/
def invalidName (argument : String) : String :=
  "\x60" ++ argument ++ "': not a valid identifier"

end Builtin

end VirtualShell
