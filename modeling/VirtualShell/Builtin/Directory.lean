import VirtualShell.Builtin.Basic

/-!
# Changing the directory

`cd` goes to a directory: the one it is given, the one before this one for a dash, or the home
directory. Nothing changes unless a directory is there.
-/

namespace VirtualShell.Builtin.Directory

/-- The arguments that are no options, or the first option that is not known. -/
def operands : List String → Except String (List String)
  | [] => .ok []
  | "--" :: rest => .ok rest
  | "-L" :: rest | "-P" :: rest => operands rest
  | word :: rest =>
    if word.startsWith "-" && word != "-" then .error word
    else do return word :: (← operands rest)

/-- Go to a place, and write where that is when `showing` is set. -/
def goTo (target : String) (showing : Bool) : Run Outcome := do
  let shell ← get
  let place := (← Run.pathOf target).render
  if !shell.files.has place then
    return refuse "cd" (target ++ ": No such file or directory") 1
  else if !shell.files.isDirectory place then
    return refuse "cd" (target ++ ": Not a directory") 1
  else
    let old := shell.directory
    modify fun shell => { shell with previousDirectory := old, directory := place }
    Run.setVariable "OLDPWD" old
    Run.setVariable "PWD" place
    return .ofText (if showing then place ++ "\n" else "")

/-- **`cd`** -/
def change : Builtin := fun arguments => do
  match operands arguments with
  | .error word => return refuse "cd" (word ++ ": invalid option") 2
  | .ok [] => goTo (← Run.variableOr "HOME" "/") false
  | .ok ["-"] =>
    let previous := (← get).previousDirectory
    if previous.isEmpty then return refuse "cd" "OLDPWD not set" 1 else goTo previous true
  | .ok [target] => goTo target false
  | .ok _ => return refuse "cd" "too many arguments" 1

end VirtualShell.Builtin.Directory
