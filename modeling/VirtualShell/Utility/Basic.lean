import VirtualShell.FileSystem.Change
import VirtualShell.Host
import VirtualShell.Shell.Signal

/-!
# Utilities

A utility is a command that sees its arguments, its input, a directory, the environment, the
machine and the files, and nothing else of the shell. It may change the files.

Most utilities read options first: words that start with a dash, made of letters that may share a
word. What is no option is an operand.
-/

namespace VirtualShell

/-! ## Texts of columns and paths -/

/-- A text with as many spaces in front as it needs for a width. -/
def Text.padLeft (width : Nat) (text : String) : String :=
  String.ofList (List.replicate (width - text.length) ' ') ++ text

/-- A text without the slashes at its end. -/
def Text.dropSlashes (text : String) : String :=
  String.ofList (text.toList.reverse.dropWhile (· == '/')).reverse

/-! ## Calls -/

/-- What a utility is given. -/
structure Call where
  arguments : List String
  input : String
  directory : String
  environment : Table String String
  host : Host

/-- What a utility does. -/
abbrev UtilityAction := ExceptT Fault (StateM FileSystem)

/-- A command that is given a call. -/
abbrev Utility := Call → UtilityAction Outcome

namespace Utility

variable {α σ : Type}

/-! ## Files -/

/-- The path of an operand. -/
def pathOf (call : Call) (operand : String) : String :=
  ((Path.ofString call.directory).resolve operand).render

/-- Ask the files; a failure breaks the utility. -/
def ask (question : FileSystem → Except FileError α) : UtilityAction α := do
  match question (← get) with
  | .ok a => return a
  | .error e => throw (.files e)

/-- Change the files. -/
def change (action : FileAction α) : UtilityAction (Except FileError α) := fun files =>
  let (result, files) := action.run files
  (.ok result, files)

/-- The text of an operand: of a file, or the input for a dash. A file that is missing or a directory
is the reason that there is none; any other failure breaks the utility. -/
def textOf (call : Call) (operand : String) : UtilityAction (Except FileErrorKind String) := do
  if operand = "-" then return .ok call.input
  match (← get).read (pathOf call operand) with
  | .ok text => return .ok text
  | .error ⟨.notFound, _⟩ => return .error .notFound
  | .error ⟨.isDirectory, _⟩ => return .error .isDirectory
  | .error e => throw (.files e)

/-! ## Outcomes -/

/-- Write a text. -/
def write (o : Outcome) (text : String) : Outcome :=
  { o with output := { o.output with stdout := o.output.stdout ++ text } }

/-- Write an error message; the status becomes another one. -/
def complain (o : Outcome) (message : String) (status : Int) : Outcome where
  output := { o.output with stderr := o.output.stderr ++ message ++ "\n" }
  status := status

/-! ## Options -/

/-- What is wrong with the arguments of a utility. -/
inductive UsageError where
  | invalidOption (text : String)
  | unrecognized (option : String)
  | argumentNeeded (letter : Char)
  | missing (what : String)
  deriving DecidableEq, Repr

/-- The wording of what is wrong with the arguments. -/
def UsageError.message : UsageError → String
  | .invalidOption text => "invalid option -- '" ++ text ++ "'"
  | .unrecognized option => "unrecognized option '" ++ option ++ "'"
  | .argumentNeeded letter => "option requires an argument -- '" ++ letter.toString ++ "'"
  | .missing what => what

/-- Refuse the arguments. -/
def refuse (name : String) (e : UsageError) (status : Int) : Outcome :=
  .failure (name ++ ": " ++ e.message ++ "\n") status

/-- A word of options: a dash with something after it. -/
def isOption (word : String) : Bool := word.startsWith "-" && word != "-"

/-- A word without its dash. -/
def withoutDash (word : String) : String := (word.drop 1).toString

/-- How options change the settings of a utility. -/
structure OptionRules (σ : Type) where
  /-- A whole word. -/
  word : σ → String → Option σ
  /-- A letter of a word. -/
  letter : σ → Char → Option σ
  /-- Two dashes end the options. -/
  endsAtDashes : Bool

/-- The settings after some letters. -/
def OptionRules.letters (rules : OptionRules σ) (s : σ) : List Char → Except UsageError σ
  | [] => .ok s
  | c :: rest =>
    match rules.letter s c with
    | some s => rules.letters s rest
    | none => .error (.invalidOption c.toString)

/-- **The settings and the operands** that arguments give. -/
def OptionRules.read (rules : OptionRules σ) (s : σ) :
    List String → Except UsageError (σ × List String)
  | [] => .ok (s, [])
  | word :: rest =>
    if rules.endsAtDashes && word = "--" then .ok (s, rest)
    else
      match rules.word s word with
      | some s => rules.read s rest
      | none =>
        if isOption word then do
          rules.read (← rules.letters s (word.toList.drop 1)) rest
        else do
          let (s, operands) ← rules.read s rest
          return (s, word :: operands)

end Utility

end VirtualShell
