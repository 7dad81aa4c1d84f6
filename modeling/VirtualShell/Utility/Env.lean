import VirtualShell.Text.Split
import VirtualShell.Utility.Basic

/-!
# Showing the environment

`env` writes the environment in the order of the names, with what its arguments add to it. It runs no
commands. `printenv` writes the environment, or the values of some names.
-/

namespace VirtualShell.Utility.Env

/-- The environment, in the order of the names. -/
def listing (environment : Table String String) : String :=
  let names := environment.keys.mergeSort fun a b => decide (a ≤ b)
  String.join (names.map fun name =>
    name ++ "=" ++ (environment.get? name).getD "" ++ "\n")

/-- A word that gives a name a value. -/
def binding? (word : String) : Option (String × String) :=
  match word.toList.span (· != '=') with
  | ([], _) => none
  | (_, []) => none
  | (name, _ :: value) => some (String.ofList name, String.ofList value)

/-- What `env` writes: the environment when it has read all arguments. -/
def outcome (environment : Table String String) : List String → Outcome
  | [] => .ofText (listing environment)
  | word :: rest =>
    if word = "--help" then .ofText "Usage: env [-i] [NAME=VALUE]...\n"
    else if word = "-i" || word = "--ignore-environment" then outcome .empty rest
    else
      match binding? word with
      | some (name, value) => outcome (environment.insert name value) rest
      | none => .failure ("env: '" ++ word ++ "': No such file or directory\n") 127

/-- **`env`** -/
def run : Utility := fun call => return outcome call.environment call.arguments

/-- **`printenv`** A name without a value is passed over, and makes the status one. -/
def print : Utility := fun call =>
  let names := call.arguments.filter fun word => !word.startsWith "-"
  if names.isEmpty then return .ofText (listing call.environment)
  else
    let values := names.map call.environment.get?
    return ⟨⟨String.join (values.map fun v => (v.map (· ++ "\n")).getD ""), ""⟩,
      if values.all Option.isSome then 0 else 1⟩

end VirtualShell.Utility.Env
