import VirtualShell.Text.Split
import VirtualShell.Utility.Basic

/-!
# Joining files

`cat` writes its files one after another. With the option for it, lines are numbered through all of
them; a file that ends with a line feed has no line after it, but the line feed stays.
-/

namespace VirtualShell.Utility.Cat

/-- Whether lines are numbered, and the operands. -/
def readArguments (number : Bool) : List String → Except UsageError (Bool × List String)
  | [] => .ok (number, [])
  | word :: rest =>
    if word = "--" then .ok (number, rest)
    else if word = "-n" || word = "--number" then readArguments true rest
    else if isOption word then .error (.invalidOption (withoutDash word))
    else do
      let (number, operands) ← readArguments number rest
      return (number, word :: operands)

/-- Some lines with their numbers in front. -/
def numbered (first : Nat) : List String → List String
  | [] => []
  | line :: rest => (Text.padLeft 6 (toString first) ++ "\t" ++ line) :: numbered (first + 1) rest

/-- A text with its lines numbered, and the number of the line after it. -/
def numberLines (first : Nat) (text : String) : String × Nat :=
  let lines := Text.cutAt '\n' text
  if lines.getLast? = some "" then
    let lines := lines.dropLast
    ("\n".intercalate (numbered first lines) ++ "\n", first + lines.length)
  else ("\n".intercalate (numbered first lines), first + lines.length)

/-- The error message for a file that cannot be read. -/
def complaint (file : String) (reason : FileErrorKind) : String :=
  "cat: " ++ file ++ ": " ++ reason.message

/-- Write some files; the number is that of the next line. -/
def writeFiles (call : Call) (number : Bool) (o : Outcome) (line : Nat) :
    List String → UtilityAction Outcome
  | [] => return o
  | file :: rest => do
    match ← textOf call file with
    | .error reason => writeFiles call number (complain o (complaint file reason) 1) line rest
    | .ok text =>
      let (text, line) := if number then numberLines line text else (text, line)
      writeFiles call number (write o text) line rest

/-- **`cat`** -/
def run : Utility := fun call => do
  match readArguments false call.arguments with
  | .error e => return refuse "cat" e 1
  | .ok (number, files) =>
    writeFiles call number .success 1 (if files.isEmpty then ["-"] else files)

end VirtualShell.Utility.Cat
