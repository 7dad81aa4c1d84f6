import VirtualShell.Utility.Basic

/-!
# Directories

`pwd` writes the directory, as it was given or with its links resolved. `mkdir` makes directories,
with those above them when asked to.
-/

namespace VirtualShell.Utility.Directory

/-! ## Showing -/

/-- Whether links are resolved, after some letters. -/
def readLetters (resolved : Bool) : List Char → Except UsageError Bool
  | [] => .ok resolved
  | 'L' :: rest => readLetters false rest
  | 'P' :: rest => readLetters true rest
  | c :: _ => .error (.invalidOption c.toString)

/-- Whether links are resolved. Words without a dash do not matter. -/
def readWords (resolved : Bool) : List String → Except UsageError Bool
  | [] => .ok resolved
  | word :: rest => do
    if word.startsWith "-" then readWords (← readLetters resolved (word.toList.drop 1)) rest
    else readWords resolved rest

/-- **`pwd`** -/
def print : Utility := fun call => do
  match readWords false call.arguments with
  | .error e => return refuse "pwd" e 1
  | .ok resolved =>
    let real := (← get).realPath call.directory
    match resolved, real with
    | true, .ok path => return .ofText (path.render ++ "\n")
    | _, _ => return .ofText (call.directory ++ "\n")

/-! ## Making -/

/-- How directories are made. -/
structure Settings where
  withParents : Bool
  verbose : Bool

/-- The options. -/
def rules : OptionRules Settings where
  word s word :=
    match word with
    | "--parents" => some { s with withParents := true }
    | "--verbose" => some { s with verbose := true }
    | _ => none
  letter s c :=
    match c with
    | 'p' => some { s with withParents := true }
    | 'v' => some { s with verbose := true }
    | _ => none
  endsAtDashes := false

/-- Failures that a message tells of. -/
def isReported (kind : FileErrorKind) : Bool :=
  kind == .alreadyExists || kind == .notFound || kind == .notDirectory

/-- Make some directories. -/
def makeAll (call : Call) (s : Settings) (o : Outcome) : List String → UtilityAction Outcome
  | [] => return o
  | name :: rest => do
    match ← change (FileSystem.makeDirectory (pathOf call name) s.withParents) with
    | .ok () =>
      let o := if s.verbose then write o ("mkdir: created directory '" ++ name ++ "'\n") else o
      makeAll call s o rest
    | .error e =>
      if isReported e.kind then
        let message := "mkdir: cannot create directory '" ++ name ++ "': " ++ e.kind.message
        makeAll call s (complain o message 1) rest
      else throw (.files e)

/-- **`mkdir`** -/
def make : Utility := fun call => do
  match rules.read ⟨false, false⟩ call.arguments with
  | .error e => return refuse "mkdir" e 1
  | .ok (_, []) => return refuse "mkdir" (.missing "missing operand") 1
  | .ok (s, names) => makeAll call s .success names

end VirtualShell.Utility.Directory
