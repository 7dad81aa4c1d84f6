import VirtualShell.Utility.Basic

/-!
# Removing files and making them new

`rm` removes files, and directories with what is in them when asked to. `touch` makes files that are
missing and gives the others a new time.
-/

namespace VirtualShell.Utility.File

/-! ## Removing -/

/-- How files are removed. -/
structure Removal where
  force : Bool
  recursive : Bool
  verbose : Bool

/-- The options of removal. -/
def Removal.rules : OptionRules Removal where
  word s word :=
    match word with
    | "--force" => some { s with force := true }
    | "--recursive" => some { s with recursive := true }
    | "--verbose" => some { s with verbose := true }
    | _ => none
  letter s c :=
    match c with
    | 'f' => some { s with force := true }
    | 'r' | 'R' => some { s with recursive := true }
    | 'v' => some { s with verbose := true }
    | _ => none
  endsAtDashes := true

/-- The error message for a file that is not removed. -/
def notRemoved (file reason : String) : String := "rm: cannot remove '" ++ file ++ "': " ++ reason

/-- Remove a file, and say what is to be said of it. -/
def removeFile (call : Call) (s : Removal) (o : Outcome) (file : String) :
    UtilityAction Outcome := do
  let path := pathOf call file
  let files ← get
  if path = "/" then return complain o "rm: it is dangerous to operate recursively on '/'" 1
  else if !files.has path then
    if s.force then return o
    else return complain o (notRemoved file FileErrorKind.notFound.message) 1
  else if files.isDirectory path && !s.recursive then
    return complain o (notRemoved file FileErrorKind.isDirectory.message) 1
  else
    match ← change (FileSystem.remove path s.recursive s.force) with
    | .ok () => return if s.verbose then write o ("removed '" ++ file ++ "'\n") else o
    | .error e => return complain o (notRemoved file e.kind.message) 1

/-- **`rm`** -/
def remove : Utility := fun call => do
  match Removal.rules.read ⟨false, false, false⟩ call.arguments with
  | .error e => return refuse "rm" e 1
  | .ok (s, []) =>
    return if s.force then .success else refuse "rm" (.missing "missing operand") 1
  | .ok (s, files) => files.foldlM (removeFile call s) .success

/-! ## Making new -/

/-- The options of `touch`: whether missing files stay missing. -/
def touchRules : OptionRules Bool where
  word _ word := if word = "--no-create" then some true else none
  letter _ c := if c = 'c' then some true else none
  endsAtDashes := true

/-- Give a file a new time, or make it. A directory stays as it is. -/
def renew (path : String) (existing : Bool) : FileAction Unit := do
  let files ← get
  if files.has path then
    if !files.isDirectory path then
      FileSystem.write path (← FileSystem.ask (·.read path))
  else if !existing then FileSystem.write path ""

/-- Give a file a new time, and say what is to be said of it. -/
def touchFile (call : Call) (existing : Bool) (o : Outcome) (file : String) :
    UtilityAction Outcome := do
  match ← change (renew (pathOf call file) existing) with
  | .ok () => return o
  | .error e =>
    if e.kind = .notFound || e.kind = .notDirectory then
      return complain o ("touch: cannot touch '" ++ file ++ "': " ++ e.kind.message) 1
    else throw (.files e)

/-- **`touch`** -/
def touch : Utility := fun call => do
  match touchRules.read false call.arguments with
  | .error e => return refuse "touch" e 1
  | .ok (_, []) => return refuse "touch" (.missing "missing file operand") 1
  | .ok (existing, files) => files.foldlM (touchFile call existing) .success

end VirtualShell.Utility.File
