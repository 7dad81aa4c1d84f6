import VirtualShell.Utility.Basic

/-!
# Listing directories

`ls` lists its operands: files first, then what is in directories, in the order of their names. It
goes down into directories when asked to, also through links; a way on which too many links would
have to be resolved is no directory any more, so this comes to an end.
-/

namespace VirtualShell

/-! ## Times as dates

A time is a number of seconds since the start of the year 1970, and is shown as a date in a time
zone. Days are counted in eras of four hundred years that start in March, so that a leap day is the
last day of its year. -/

namespace Text

/-- The names of the months. -/
def monthNames : List String :=
  ["Jan", "Feb", "Mar", "Apr", "May", "Jun", "Jul", "Aug", "Sep", "Oct", "Nov", "Dec"]

/-- The month, from one on, and the day of the month, of a number of days since the start of 1970. -/
def monthAndDay (days : Int) : Nat × Nat :=
  let dayOfEra := ((days + 719468) % 146097).toNat
  let yearOfEra := (dayOfEra - dayOfEra / 1460 + dayOfEra / 36524 - dayOfEra / 146096) / 365
  let dayOfYear := dayOfEra - (365 * yearOfEra + yearOfEra / 4 - yearOfEra / 100)
  let month := (5 * dayOfYear + 2) / 153
  (if month < 10 then month + 3 else month - 9, dayOfYear - (153 * month + 2) / 5 + 1)

/-- A number of two digits. -/
def twoDigits (n : Nat) : String := (if n < 10 then "0" else "") ++ toString n

/-- The month, the day, the hour and the minute of a time in a zone, which tells how many seconds
local time is ahead of universal time then. -/
def dateText (zone : Int → Int) (time : Int) : String :=
  let seconds := time + zone time
  let (month, day) := monthAndDay (seconds / 86400)
  let minutes := ((seconds % 86400) / 60).toNat
  monthNames.getD (month - 1) "" ++ " " ++ twoDigits day ++ " " ++
    twoDigits (minutes / 60) ++ ":" ++ twoDigits (minutes % 60)

end Text

namespace Utility.Listing

/-! ## Arguments -/

/-- What is listed, and how. -/
structure Settings where
  hidden : Bool
  directoriesThemselves : Bool
  long : Bool
  recursive : Bool

/-- The settings after an option letter. -/
def Settings.letter? (s : Settings) : Char → Option Settings
  | 'a' | 'A' => some { s with hidden := true }
  | 'd' => some { s with directoriesThemselves := true }
  | 'l' => some { s with long := true }
  | 'R' => some { s with recursive := true }
  | '1' => some s
  | _ => none

/-- The letter that a long option stands for. -/
def letterOf? : String → Option Char
  | "--all" => some 'a'
  | "--almost-all" => some 'A'
  | "--directory" => some 'd'
  | "--recursive" => some 'R'
  | _ => none

/-- The options. -/
def rules : OptionRules Settings where
  word s word := (letterOf? word).bind s.letter?
  letter := Settings.letter?
  endsAtDashes := false

/-- The settings and the operands that the arguments give. -/
def readArguments (s : Settings) : List String → Except UsageError (Settings × List String)
  | [] => .ok (s, [])
  | word :: rest =>
    match (letterOf? word).bind s.letter? with
    | some s => readArguments s rest
    | none =>
      if word.startsWith "--" then .error (.unrecognized word)
      else if isOption word then do
        readArguments (← rules.letters s (word.toList.drop 1)) rest
      else do
        let (s, operands) ← readArguments s rest
        return (s, word :: operands)

/-! ## Lines -/

/-- Three permission bits. -/
def permissionText (bits : Nat) : String :=
  (if bits.testBit 2 then "r" else "-") ++ (if bits.testBit 1 then "w" else "-") ++
    (if bits.testBit 0 then "x" else "-")

/-- The kind and the permission bits of an entry. -/
def modeText (e : Entry) : String :=
  let bits := (e.mode % 0o1000).toNat
  (match e.node with | .directory => "d" | .link _ => "l" | .file _ => "-") ++
    permissionText (bits / 64) ++ permissionText (bits / 8) ++ permissionText bits

/-- The line of an entry with its properties. -/
def longLine (host : Host) (name : String) (e : Entry) : String :=
  modeText e ++ " 1 user user " ++ Text.padLeft 6 (toString e.size) ++ " " ++
    Text.dateText host.zone e.modified ++ " " ++ name

/-- The line of a name, which stands at a path. -/
def line (host : Host) (s : Settings) (name path : String) : UtilityAction String := do
  if s.long then return longLine host name (← ask (·.statLink path)) ++ "\n"
  else return name ++ "\n"

/-- The path of a name at another path. -/
def pathAt (directory name : String) : String := ((Path.ofString directory).resolve name).render

/-! ## Directories -/

/-- Paths of directories are at most so many names longer than the first one: after a link the way
goes through each directory at most once. -/
def maxDepth (files : FileSystem) : Nat := (maxLinks + 1) * (files.entries.keys.length + 1)

/-- What is known while directories are listed: what was written, and that it is nothing yet. -/
abbrev Page := String × Bool

/-- List a directory, which is shown under a name, and then the directories in it when the settings
say so, at most so many levels down. -/
def listDirectory (call : Call) (s : Settings) (withHeaders : Bool) :
    Nat → Page → String → UtilityAction Page
  | 0, page, _ => return page
  | depth + 1, (written, isFirst), shown => do
    let full := pathOf call shown
    let names ← ask (·.list full)
    let names := if s.hidden then names else names.filter fun name => !name.startsWith "."
    let header := (if isFirst then "" else "\n") ++ shown ++ ":\n"
    let lines ← names.mapM fun name => line call.host s name (pathAt full name)
    let written := written ++ (if withHeaders then header else "") ++ String.join lines
    if s.recursive then
      let files ← get
      let inner := names.filter fun name => files.isDirectory (pathAt full name)
      (inner.map fun name => Text.dropSlashes shown ++ "/" ++ name).foldlM
        (listDirectory call s withHeaders depth) (written, false)
    else return (written, false)

/-! ## The utility -/

/-- The operands sorted into what is missing, files and directories. -/
structure Operands where
  missing : List String
  files : List String
  directories : List String

/-- Sort the operands, in the order of their names. -/
def sortOperands (call : Call) (s : Settings) (files : FileSystem) (names : List String) :
    Operands :=
  let names := names.mergeSort fun a b => decide (a ≤ b)
  let isMissing (name : String) := !files.has (pathOf call name)
  let isListed (name : String) :=
    files.isDirectory (pathOf call name) && !s.directoriesThemselves
  { missing := names.filter isMissing
    files := names.filter fun name => !isMissing name && !isListed name
    directories := names.filter fun name => !isMissing name && isListed name }

/-- **`ls`** -/
def run : Utility := fun call => do
  match readArguments ⟨false, false, false, false⟩ call.arguments with
  | .error e => return refuse "ls" e 2
  | .ok (s, names) =>
    let names := if names.isEmpty then ["."] else names
    let files ← get
    let operands := sortOperands call s files names
    let o := operands.missing.foldl (fun o name =>
      complain o ("ls: cannot access '" ++ name ++ "': " ++ FileErrorKind.notFound.message) 2)
      Outcome.success
    let lines ← operands.files.mapM fun name => line call.host s name (pathOf call name)
    let withHeaders := names.length > 1 || s.recursive
    let (written, _) ← operands.directories.foldlM
      (listDirectory call s withHeaders (maxDepth files))
      (String.join lines, operands.files.isEmpty)
    return write o written

end Utility.Listing

end VirtualShell
