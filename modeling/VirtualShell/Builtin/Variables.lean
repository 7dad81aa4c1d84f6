import VirtualShell.Builtin.Basic

/-!
# Exporting, declaring and removing variables

`export` marks names for the environment of commands, and gives them values when it is told to; it
may take the mark away, or write the environment. `local` binds names in the scope of the function
that runs. `unset` removes variables or functions.
-/

namespace VirtualShell.Builtin

/-- Change the variables of the shell. -/
def onVariables (change : Variables → Variables) : Run Unit :=
  modify fun shell => { shell with «variables» := change shell.variables }

namespace Export

/-- What `export` is told to do. -/
structure Settings where
  /-- Take the mark away. -/
  removing : Bool
  /-- Write the environment. -/
  showing : Bool

/-- The settings after some letters, or the first one that is not known. -/
def readLetters (s : Settings) : List Char → Except Char Settings
  | [] => .ok s
  | 'n' :: rest => readLetters { s with removing := true } rest
  | 'p' :: rest => readLetters { s with showing := true } rest
  | c :: _ => .error c

/-- The settings and the names. Options end at the first name or at two dashes; two dashes among the
names are passed over. -/
def read (s : Settings) : List String → Except Char (Settings × List String)
  | [] => .ok (s, [])
  | word :: rest =>
    if word = "--" then .ok (s, rest)
    else if word.startsWith "-" && word != "-" then do
      read (← readLetters s (word.toList.drop 1)) rest
    else .ok (s, word :: (rest.takeWhile (· != "--") ++ (rest.dropWhile (· != "--")).drop 1))

/-- A character inside double quotes. -/
def escaped (c : Char) : List Char := if c = '\\' || c = '"' then ['\\', c] else [c]

/-- A line that would export a variable. -/
def line (binding : String × String) : String :=
  "declare -x " ++ binding.1 ++ "=\"" ++ String.ofList (binding.2.toList.flatMap escaped) ++ "\"\n"

/-- The name of an argument, and its value after an old one. A plus sign before the equals sign adds
to the old value. -/
def assignmentOf (argument : String) : String × Option (Option String → String) :=
  match binding argument with
  | (name, none) => (name, none)
  | (name, some value) =>
    if name.endsWith "+" then ((name.dropEnd 1).toString, some fun old => old.getD "" ++ value)
    else (name, some fun _ => value)

/-- Do what the settings say for one argument. -/
def one (removing : Bool) (argument : String) : Run (Option String) := do
  let (name, value) := assignmentOf argument
  if !isValidName name then return some (invalidName argument)
  else if removing then
    onVariables (·.unexport name)
    return none
  else
    match value with
    | some value => onVariables fun vars => vars.set name (value (vars.get? name))
    | none => pure ()
    onVariables (·.exportName name)
    return none

/-- **`export`** -/
def run : Builtin := fun arguments => do
  match read ⟨false, false⟩ arguments with
  | .error c => return refuse "export" ("-" ++ c.toString ++ ": invalid option") 2
  | .ok (s, names) =>
    if names.isEmpty || s.showing then
      return .ofText (String.join ((← get).variables.environment.entries.map line))
    else overAll "export" (one s.removing) names

end Export

namespace Local

/-- Declare the name of one argument; a name that is declared already keeps its value unless it is
given one. -/
def one (argument : String) : Run (Option String) := do
  let (name, value) := binding argument
  if !isValidName name then return some (invalidName argument)
  else
    match value with
    | some value => onVariables (·.declare name value)
    | none => onVariables fun vars =>
      if vars.isDeclared name then vars else vars.declare name ""
    return none

/-- **`local`** -/
def run : Builtin := fun arguments => do
  if (← get).callDepth = 0 then return refuse "local" "can only be used in a function" 1
  else overAll "local" one arguments

end Local

namespace Unset

/-- Whether functions are meant, and the names. Options end at the first name. -/
def read (functions : Bool) : List String → Except String (Bool × List String)
  | [] => .ok (functions, [])
  | "-v" :: rest => read false rest
  | "-f" :: rest => read true rest
  | word :: rest => if word.startsWith "-" then .error word else .ok (functions, word :: rest)

/-- Remove a function. -/
def removeFunction (name : String) : Run Unit :=
  modify fun shell => { shell with functions := shell.functions.erase name }

/-- Remove a variable, or the function of that name when there is no such variable. -/
def removeVariable (name : String) : Run (Option String) := do
  if !isValidName name then return some (invalidName name)
  else
    match (← get).variables.erase? name with
    | some vars => modify fun shell => { shell with «variables» := vars }
    | none => removeFunction name
    return none

/-- **`unset`** -/
def run : Builtin := fun arguments => do
  match read false arguments with
  | .error word => return refuse "unset" (word ++ ": invalid option") 2
  | .ok (true, names) =>
    names.forM removeFunction
    return .success
  | .ok (false, names) => overAll "unset" removeVariable names

end Unset

end VirtualShell.Builtin
