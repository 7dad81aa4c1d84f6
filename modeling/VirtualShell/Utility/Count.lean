import VirtualShell.Text.Character
import VirtualShell.Utility.Basic

/-!
# Counting

`wc` counts the lines, words, characters and bytes of its files, and adds up the counts when there is
more than one file. The columns are wide enough for the greatest count.
-/

namespace VirtualShell.Utility.Count

/-- What is counted, in the order of the columns. -/
inductive Measure where
  | lines
  | words
  | characters
  | bytes
  deriving DecidableEq, Repr

/-- The columns in order. -/
def Measure.all : List Measure := [.lines, .words, .characters, .bytes]

/-- What is counted unless options say so. -/
def Measure.standard : List Measure := [.lines, .words, .bytes]

/-- What a letter asks for. -/
def Measure.ofLetter? : Char → Option Measure
  | 'l' => some .lines
  | 'w' => some .words
  | 'm' => some .characters
  | 'c' => some .bytes
  | _ => none

/-- What a long option asks for. -/
def Measure.ofWord? : String → Option Measure
  | "--lines" => some .lines
  | "--words" => some .words
  | "--chars" => some .characters
  | "--bytes" => some .bytes
  | _ => none

/-- How many of a measure a text has. -/
def Measure.count (measure : Measure) (text : String) : Nat :=
  match measure with
  | .lines => text.toList.count '\n'
  | .words => (Text.words text).length
  | .characters => text.length
  | .bytes => text.utf8ByteSize

/-- The options. -/
def rules : OptionRules (List Measure) where
  word measures word := (Measure.ofWord? word).map (· :: measures)
  letter measures c := (Measure.ofLetter? c).map (· :: measures)
  endsAtDashes := false

/-- The counts of a text and its name. -/
structure Row where
  count : Measure → Nat
  name : String

/-- The counts of all rows together. -/
def total (rows : List Row) : Row where
  count measure := rows.foldl (fun n row => n + row.count measure) 0
  name := "total"

/-- Read some files; gives their rows and what is to be said of those that cannot be read. -/
def readFiles (call : Call) (named : Bool) (o : Outcome) :
    List String → UtilityAction (List Row × Outcome)
  | [] => return ([], o)
  | file :: rest => do
    match ← textOf call file with
    | .error reason =>
      readFiles call named (complain o ("wc: " ++ file ++ ": " ++ reason.message) 1) rest
    | .ok text =>
      let (rows, o) ← readFiles call named o rest
      return (⟨fun measure => measure.count text, if named then file else ""⟩ :: rows, o)

/-- How wide the columns are. A single count of the input stands alone. -/
def width (rows : List Row) (measures : List Measure) (named : Bool) : Nat :=
  if measures.length = 1 && !named then 0
  else
    let widths := rows.flatMap fun row => measures.map fun measure => (toString (row.count measure)).length
    let widest := widths.foldl max 1
    if named then widest else max widest 7

/-- A row as it is written. -/
def Row.line (row : Row) (measures : List Measure) (width : Nat) : String :=
  let counts := " ".intercalate
    (measures.map fun measure => Text.padLeft width (toString (row.count measure)))
  (if row.name.isEmpty then counts else counts ++ " " ++ row.name) ++ "\n"

/-- **`wc`** -/
def run : Utility := fun call => do
  match rules.read [] call.arguments with
  | .error e => return refuse "wc" e 1
  | .ok (chosen, files) =>
    let named := !files.isEmpty
    let measures := if chosen.isEmpty then Measure.standard else Measure.all.filter (· ∈ chosen)
    let (rows, o) ← readFiles call named .success (if named then files else ["-"])
    let rows := if rows.length > 1 then rows ++ [total rows] else rows
    let width := width rows measures named
    return write o (String.join (rows.map fun row => row.line measures width))

end VirtualShell.Utility.Count
