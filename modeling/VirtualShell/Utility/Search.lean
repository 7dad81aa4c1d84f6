import VirtualShell.Regex.Matcher
import VirtualShell.Text.Split
import VirtualShell.Utility.Basic

/-!
# Searching lines

`grep` writes the lines of its files that a regular expression matches, or those that it does not
match; or the matches alone, the number of such lines, or the names of the files that have some.
-/

namespace VirtualShell.Utility.Search

/-! ## Arguments -/

/-- What is looked for, and what is written of it. -/
structure Settings where
  ignoreCase : Bool
  inverted : Bool
  count : Bool
  namesOnly : Bool
  numbered : Bool
  /-- Whether names stand before the lines; when it is not set, that depends on the operands. -/
  withNames : Option Bool
  matchesOnly : Bool
  quiet : Bool
  recursive : Bool
  fixed : Bool
  wholeWords : Bool
  wholeLines : Bool
  pattern : Option String

/-- The settings unless options say otherwise. -/
def Settings.standard : Settings where
  ignoreCase := false
  inverted := false
  count := false
  namesOnly := false
  numbered := false
  withNames := none
  matchesOnly := false
  quiet := false
  recursive := false
  fixed := false
  wholeWords := false
  wholeLines := false
  pattern := none

/-- The settings after an option letter. -/
def Settings.letter? (s : Settings) : Char → Option Settings
  | 'i' => some { s with ignoreCase := true }
  | 'v' => some { s with inverted := true }
  | 'c' => some { s with count := true }
  | 'l' => some { s with namesOnly := true }
  | 'n' => some { s with numbered := true }
  | 'H' => some { s with withNames := some true }
  | 'h' => some { s with withNames := some false }
  | 'o' => some { s with matchesOnly := true }
  | 'q' => some { s with quiet := true }
  | 'r' | 'R' => some { s with recursive := true }
  | 'E' => some s
  | 'F' => some { s with fixed := true }
  | 'w' => some { s with wholeWords := true }
  | 'x' => some { s with wholeLines := true }
  | _ => none

/-- The letter that a long option stands for. -/
def letterOf? : String → Option Char
  | "--ignore-case" => some 'i'
  | "--invert-match" => some 'v'
  | "--count" => some 'c'
  | "--files-with-matches" => some 'l'
  | "--line-number" => some 'n'
  | "--with-filename" => some 'H'
  | "--no-filename" => some 'h'
  | "--only-matching" => some 'o'
  | "--quiet" | "--silent" => some 'q'
  | "--recursive" => some 'r'
  | "--extended-regexp" => some 'E'
  | "--fixed-strings" => some 'F'
  | "--word-regexp" => some 'w'
  | "--line-regexp" => some 'x'
  | _ => none

/-- The settings after the letters of a word, and whether the next word is the pattern. -/
def Settings.letters (s : Settings) : List Char → Except UsageError (Settings × Bool)
  | [] => .ok (s, false)
  | 'e' :: [] => .ok (s, true)
  | 'e' :: rest => .ok ({ s with pattern := some (String.ofList rest) }, false)
  | c :: rest =>
    match s.letter? c with
    | some s => s.letters rest
    | none => .error (.invalidOption c.toString)

/-- The operands as they stand: the first one is the pattern when there is none yet. -/
def takePattern (s : Settings) (words : List String) : Settings × List String :=
  match s.pattern, words with
  | none, word :: rest => ({ s with pattern := some word }, rest)
  | _, words => (s, words)

/-- The settings and the operands that the arguments give. -/
def readArguments (s : Settings) : List String → Except UsageError (Settings × List String)
  | [] => .ok (s, [])
  | word :: rest =>
    if word = "--" then .ok (takePattern s rest)
    else if word.startsWith "--" then
      match (letterOf? word).bind s.letter? with
      | some s => readArguments s rest
      | none => .error (.unrecognized word)
    else if isOption word then do
      match ← s.letters (word.toList.drop 1), rest with
      | (s, false), rest => readArguments s rest
      | (_, true), [] => .error (.argumentNeeded 'e')
      | (s, true), word :: rest => readArguments { s with pattern := some word } rest
    else if s.pattern.isNone then readArguments { s with pattern := some word } rest
    else do
      let (s, operands) ← readArguments s rest
      return (s, word :: operands)

/-- The regular expression that is looked for. -/
def Settings.expression (s : Settings) (pattern : String) : String :=
  let pattern := if s.fixed then Regex.quote pattern else pattern
  let pattern := if s.wholeWords then "\\b(?:" ++ pattern ++ ")\\b" else pattern
  if s.wholeLines then "^(?:" ++ pattern ++ ")$" else pattern

/-- The flags of the regular expression. -/
def Settings.flags (s : Settings) : Regex.Flags :=
  { Regex.Flags.none with ignoreCase := s.ignoreCase }

/-! ## Sources -/

/-- A text to be searched and the name it goes by, or the reason why there is none. -/
structure Source where
  name : String
  text : Except FileErrorKind String

/-- The files below a directory. -/
def sourcesBelow (shown path : String) : UtilityAction (List Source) := do
  let files ← get
  let start := Text.dropSlashes path ++ "/"
  let below := files.paths.filter fun p => p.startsWith start && !files.isDirectory p
  below.mapM fun p => do
    let text ← ask (·.read p)
    return ⟨Text.dropSlashes shown ++ "/" ++ (p.drop start.length).toString, .ok text⟩

/-- What an operand gives to be searched. -/
def sourcesOf (call : Call) (recursive : Bool) (operand : String) :
    UtilityAction (List Source) := do
  if operand = "-" then return [⟨"(standard input)", .ok call.input⟩]
  let path := pathOf call operand
  let files ← get
  if !files.has path then return [⟨operand, .error .notFound⟩]
  else if files.isDirectory path then
    if recursive then sourcesBelow operand path else return [⟨operand, .error .isDirectory⟩]
  else
    let text ← ask (·.read path)
    return [⟨operand, .ok text⟩]

/-! ## Matches -/

/-- The lines of a text, each with its number. -/
def numberedLines (text : String) : List (String × Nat) :=
  let lines := Text.cutAt '\n' text
  (if lines.getLast? = some "" then lines.dropLast else lines).zipIdx 1

/-- What is written of a line. -/
def lineOutput (s : Settings) (regex : Regex) (start line : String) (number : Nat) :
    List String :=
  let start := if s.numbered then start ++ toString number ++ ":" else start
  if s.matchesOnly && !s.inverted then
    ((regex.allMatches line).filter (· != "")).map (start ++ ·)
  else [start ++ line]

/-- What is written of a text, and whether some of its lines are selected. -/
def search (s : Settings) (regex : Regex) (withNames : Bool) (name text : String) :
    String × Bool :=
  let start := if withNames then name ++ ":" else ""
  let selected := (numberedLines text).filter fun (line, _) =>
    (regex.search? line).isSome != s.inverted
  let lines :=
    if s.count then [start ++ toString selected.length]
    else if s.namesOnly then if selected.isEmpty then [] else [name]
    else if s.quiet then []
    else selected.flatMap fun (line, number) => lineOutput s regex start line number
  (String.join (lines.map (· ++ "\n")), !selected.isEmpty)

/-- What was found so far. -/
structure Found where
  output : Output
  some : Bool

/-- Search some sources. As soon as something is found a quiet search ends. -/
def searchAll (s : Settings) (regex : Regex) (withNames : Bool) (f : Found) :
    List Source → Outcome
  | [] =>
    if f.output.stderr != "" && !f.some then ⟨f.output, 2⟩
    else ⟨⟨if s.quiet then "" else f.output.stdout, f.output.stderr⟩, if f.some then 0 else 1⟩
  | ⟨name, .error reason⟩ :: rest =>
    let message := "grep: " ++ name ++ ": " ++ reason.message ++ "\n"
    searchAll s regex withNames { f with output := f.output ++ .ofError message } rest
  | ⟨name, .ok text⟩ :: rest =>
    let (written, isFound) := search s regex withNames name text
    if isFound && s.quiet then .success
    else searchAll s regex withNames ⟨f.output ++ ⟨written, ""⟩, f.some || isFound⟩ rest

/-- Refuse a pattern that is no regular expression. -/
def refusePattern (pattern : String) (e : Regex.Error) : Outcome :=
  .failure ("grep: invalid pattern '" ++ pattern ++ "': " ++ e.message ++ "\n") 2

/-- **`grep`** -/
def run : Utility := fun call => do
  match readArguments .standard call.arguments with
  | .error e => return refuse "grep" e 2
  | .ok (s, operands) =>
    match s.pattern with
    | none => return refuse "grep" (.missing "pattern not specified") 2
    | some pattern =>
      let expression := s.expression pattern
      match Regex.compile call.host.named? s.flags expression with
      | .error (.flaw flaw place) => return refusePattern expression (.flaw flaw place)
      | .error e => throw (.pattern e)
      | .ok regex =>
        let files :=
          if !operands.isEmpty then operands else if s.recursive then ["."] else ["-"]
        let withNames := s.withNames.getD (files.length > 1 || s.recursive)
        let sources ← files.mapM (sourcesOf call s.recursive)
        return searchAll s regex withNames ⟨.empty, false⟩ sources.flatten

end VirtualShell.Utility.Search
