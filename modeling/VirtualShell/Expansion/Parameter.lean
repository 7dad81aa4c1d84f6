import VirtualShell.Expansion.Segment
import VirtualShell.Shell.Basic

/-!
# Parameters

A parameter is a variable, a positional parameter named by its number, or one of the special
parameters: the status of the last pipeline, the number of positional parameters, all of them, the
process, the options and the name of the script.
-/

namespace VirtualShell

/-- The separators of fields when the variable for them has no value. -/
def defaultSeparators : String := " \t\n"

/-- The name of the script. -/
def scriptName : String := "bash"

/-- The options that are set. -/
def optionLetters : String := "h"

/-- The positional parameter of a number. The number zero, when it is not written as one digit,
means the last one. -/
def positional? (parameters : List String) (index : Nat) : Except Fault (Option String) :=
  match index with
  | 0 =>
    match parameters.getLast? with
    | some value => .ok (some value)
    | none => .error .noParameter
  | n + 1 => .ok parameters[n]?

/-- **The value of a parameter.** -/
def Shell.parameter? (shell : Shell) (name : String) : Except Fault (Option String) :=
  match name with
  | "?" => .ok (some (toString shell.status))
  | "#" => .ok (some (toString shell.parameters.length))
  | "@" | "*" => .ok (some (" ".intercalate shell.parameters))
  | "$" => .ok (some (toString shell.host.process))
  | "0" => .ok (some scriptName)
  | "-" => .ok (some optionLetters)
  | "!" => .ok none
  | name =>
    if Text.allDigits name then
      match Text.readDecimal name with
      | .ok index => positional? shell.parameters index.toNat
      | .error e => .error (.numeral e)
    else .ok (shell.variables.get? name)

/-- A parameter that can be assigned to. -/
def isAssignable (name : String) : Bool :=
  !(Text.allDigits name || name ∈ ["?", "#", "@", "*", "$", "0", "-", "!"])

/-- What a parameter expands to as it stands. Inside quotes all positional parameters together are
fields of their own, or one field in which the first separator joins them. -/
def expandParameter (name : String) (quoted : Bool) : Run (List Segment) := do
  let shell ← get
  if quoted && name = "@" then
    return (shell.parameters.map (Segment.literal true)).intersperse .border
  else if quoted && name = "*" then
    let separators ← Run.variableOr "IFS" defaultSeparators
    let joint := (separators.take 1).toString
    return [.literal true (joint.intercalate shell.parameters)]
  else
    let value ← Run.orFault id (shell.parameter? name)
    return [.value quoted (value.getD "")]

/-- What a tilde at the start of a word stands for: a home directory, this directory, the one
before it, or itself. -/
def expandTilde (user : Option String) (quoted : Bool) : Run Segment := do
  let text ←
    if quoted then pure ("~" ++ user.getD "")
    else
      match user with
      | none => Run.variableOr "HOME" "/home/user"
      | some "+" => do Run.variableOr "PWD" (← get).directory
      | some "-" => Run.variableOr "OLDPWD" "~-"
      | some user => pure ("~" ++ user)
  return .literal true text

/-- The length of the value of a parameter; all positional parameters together count as many. -/
def lengthOf (shell : Shell) (name : String) (value : Option String) : Nat :=
  if name = "@" || name = "*" then shell.parameters.length else (value.getD "").length

/-- **A part of a value**, from a place on and at most so long. A place before the start of the value
counts from its end, and so does a length below zero. Nothing when the end lies before the place. -/
def slice (value : String) (offset : Int) (length : Option Int) : Option String :=
  let text := value.toList
  let start := if offset < 0 then (text.length + offset).toNat else offset.toNat
  let rest := text.drop start
  match length with
  | none => some (String.ofList rest)
  | some length =>
    if length < 0 then
      let stop := text.length + length
      if stop < start then none
      else some (String.ofList ((text.take stop.toNat).drop start))
    else some (String.ofList (rest.take length.toNat))

end VirtualShell
