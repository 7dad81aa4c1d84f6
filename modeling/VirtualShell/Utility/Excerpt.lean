import VirtualShell.Text.Character
import VirtualShell.Text.Integer
import VirtualShell.Utility.Basic

/-!
# The first and the last lines

`head` writes the first lines of its files, or all but the last ones when their number is negative;
`tail` writes the last lines, or those from a line on when its number has a plus sign. With more than
one file each has a header.
-/

namespace VirtualShell.Utility.Excerpt

/-- A number of lines as it is written, and the operands. -/
abbrev Arguments := Option String × List String

/-- The number of lines that is written in a word of options. -/
def countIn? (word : String) : Option String :=
  if word.startsWith "--lines=" then some (word.drop "--lines=".length).toString
  else if word.startsWith "-n" then some (word.drop 2).toString
  else if word.startsWith "-" && Text.allDigits (withoutDash word) then some (withoutDash word)
  else none

/-- The number of lines that the arguments ask for, and the operands. -/
def readArguments (count : Option String) : List String → Except UsageError Arguments
  | [] => .ok (count, [])
  | "-n" :: rest | "--lines" :: rest =>
    match rest with
    | [] => .error (.argumentNeeded 'n')
    | count :: rest => readArguments (some count) rest
  | word :: rest =>
    match countIn? word with
    | some count => readArguments (some count) rest
    | none =>
      if isOption word then .error (.invalidOption (withoutDash word))
      else do
        let (count, operands) ← readArguments count rest
        return (count, word :: operands)

/-- A number of lines: its sign as it is written, and its size. -/
structure LineCount where
  sign : Option Char
  size : Nat

/-- How many lines are meant unless a number is given. -/
def LineCount.standard : LineCount := ⟨none, 10⟩

/-- The number of lines that a text writes. -/
def LineCount.read? (text : String) : Option LineCount :=
  match Text.readDecimal text with
  | .ok n => some ⟨text.toList.head?.filter fun c => c == '-' || c == '+', n.natAbs⟩
  | .error _ => none

/-- The lines at the start of a text: so many, or all but so many. -/
def first (count : LineCount) (lines : List String) : List String :=
  if count.sign = some '-' then lines.take (lines.length - count.size) else lines.take count.size

/-- The lines at the end of a text: so many, or those from a line on. -/
def last (count : LineCount) (lines : List String) : List String :=
  if count.sign = some '+' then lines.drop (count.size - 1)
  else lines.drop (lines.length - count.size)

/-- What stands before the lines of a file. -/
def header (isFirst : Bool) (file : String) : String :=
  (if isFirst then "" else "\n") ++ "==> " ++ file ++ " <==\n"

/-- The error message for a file that cannot be read. -/
def complaint (name file : String) (reason : FileErrorKind) : String :=
  name ++ ": " ++
    (if reason = .notFound then "cannot open '" ++ file ++ "' for reading"
    else "error reading '" ++ file ++ "'") ++ ": " ++ reason.message

/-- Write an excerpt of some files. -/
def writeFiles (name : String) (select : List String → List String) (call : Call)
    (withHeaders isFirst : Bool) (o : Outcome) : List String → UtilityAction Outcome
  | [] => return o
  | file :: rest => do
    match ← textOf call file with
    | .error reason =>
      writeFiles name select call withHeaders false (complain o (complaint name file reason) 1) rest
    | .ok text =>
      let o := if withHeaders then write o (header isFirst file) else o
      let o := write o (String.join (select (Text.linesWithEnds text)))
      writeFiles name select call withHeaders false o rest

/-- A utility that writes an excerpt of each file. -/
def run (name : String) (select : LineCount → List String → List String) : Utility := fun call => do
  match readArguments none call.arguments with
  | .error e => return refuse name e 1
  | .ok (count, files) =>
    let files := if files.isEmpty then ["-"] else files
    match count.elim (some .standard) LineCount.read? with
    | none =>
      return .failure (name ++ ": invalid number of lines: '" ++ count.getD "" ++ "'\n") 1
    | some count => writeFiles name (select count) call (files.length > 1) true .success files

/-- **`head`** -/
def head : Utility := run "head" first

/-- **`tail`** -/
def tail : Utility := run "tail" last

end VirtualShell.Utility.Excerpt
