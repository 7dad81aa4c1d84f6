import VirtualShell.Text.Case
import VirtualShell.Text.Character
import VirtualShell.Text.Integer
import VirtualShell.Text.Split
import VirtualShell.Utility.Basic

/-!
# Sorting lines

`sort` puts the lines of all its files in the order of their keys, and lines with the same key in the
order of the lines themselves. The key is the line or some of its fields, as a text, as a text in
upper case, or as the number at its start.
-/

namespace VirtualShell

/-! ## Rounding to sixty-four bits

Numbers with a fractional part are compared after rounding to the floating-point numbers of
sixty-four bits: fifty-three significant binary digits, none below two to the power of minus 1074,
ties to the even neighbour. A rounded number is a whole multiple of that least power, so it is held
as an integer; what is too large counts as infinite. -/

namespace Text

/-- The nearest whole number to a quotient; of two that are as near, the even one. -/
def roundQuotient (dividend divisor : Nat) : Nat :=
  let quotient := dividend / divisor
  let twice := 2 * (dividend % divisor)
  if twice > divisor || (twice = divisor && quotient % 2 = 1) then quotient + 1 else quotient

/-- The significant binary digits. -/
def precision : Nat := 53

/-- How many times the least positive number goes into one, as a power of two. -/
def leastExponent : Nat := 1074

/-- Infinity, as a multiple of the least positive number. -/
def infinite : Nat := Nat.pow 2 (1024 + leastExponent)

/-- **Rounding** a quotient, to a multiple of the least positive number. -/
def roundBinary64 (dividend divisor : Nat) : Nat :=
  let scaled := dividend * Nat.pow 2 leastExponent
  let unit := Nat.pow 2 ((scaled / divisor).log2 + 1 - precision)
  min infinite (roundQuotient scaled (divisor * unit) * unit)

end Text

namespace Utility.Sort

/-! ## Arguments -/

/-- How lines are sorted. -/
structure Settings where
  ignoreCase : Bool
  numeric : Bool
  reverse : Bool
  unique : Bool
  /-- The first and the last field of the key; to the end of the line when there is no last one. -/
  key : Option (Nat × Option Nat)
  separator : Option Char

/-- The settings unless options say otherwise. -/
def Settings.standard : Settings := ⟨false, false, false, false, none, none⟩

/-- What is wrong with the arguments. -/
inductive Flaw where
  | usage (e : UsageError)
  | emptySeparator
  | longSeparator (text : String)
  /-- A field of the key is no number; the first one or the last one. -/
  | badField (which part : String)
  | zeroField (key : String)
  | wordNeeded (option : String)

/-- The wording of what is wrong. -/
def Flaw.message : Flaw → String
  | .usage e => e.message
  | .emptySeparator => "empty tab"
  | .longSeparator text => "multi-character tab '" ++ text ++ "'"
  | .badField which part =>
    "invalid number at field " ++ which ++ ": invalid count at start of '" ++ part ++ "'"
  | .zeroField key => "field number is zero: invalid field specification '" ++ key ++ "'"
  | .wordNeeded option => "option '" ++ option ++ "' requires an argument"

/-- Reads arguments; a numeral that is too long is no flaw but a fault. -/
abbrev Reading := ExceptT Flaw (Except Fault)

/-- The digits of a field number, when only a fraction follows them. -/
def fieldDigits? (part : String) : Option String :=
  let (digits, rest) := part.toList.span Text.isDecimal
  let isFraction : Bool :=
    match rest with
    | [] => true
    | '.' :: fraction => !fraction.isEmpty && fraction.all Text.isDecimal
    | _ => false
  if !digits.isEmpty && isFraction then some (String.ofList digits) else none

/-- A field number of a key. -/
def readField (key which part : String) : Reading Nat := do
  match fieldDigits? part with
  | none => throw (.badField which part)
  | some digits =>
    match Text.readDecimal digits with
    | .error e => (throw (.numeral e) : Except Fault Nat)
    | .ok n => if n = 0 then throw (.zeroField key) else return n.toNat

/-- A key: a field number, or two with a comma between them. -/
def readKey (key : String) : Reading (Nat × Option Nat) := do
  match key.toList.span (· != ',') with
  | (first, []) => return (← readField key "start" (String.ofList first), none)
  | (first, _ :: last) =>
    let first ← readField key "start" (String.ofList first)
    let last ← readField key "end" (String.ofList last)
    return (first, some last)

/-- A field separator. -/
def readSeparator (text : String) : Reading Char :=
  match text.toList with
  | [] => throw .emptySeparator
  | [c] => return c
  | _ => throw (.longSeparator text)

/-- The settings with the value of the key or the separator. -/
def Settings.assign (s : Settings) (isKey : Bool) (value : String) : Reading Settings := do
  if isKey then return { s with key := some (← readKey value) }
  else return { s with separator := some (← readSeparator value) }

/-- The settings after an option letter that takes no value. -/
def Settings.letter? (s : Settings) : Char → Option Settings
  | 'f' => some { s with ignoreCase := true }
  | 'n' => some { s with numeric := true }
  | 'r' => some { s with reverse := true }
  | 'u' => some { s with unique := true }
  | _ => none

/-- The letter that a long option stands for. -/
def letterOf? : String → Option Char
  | "--ignore-case" => some 'f'
  | "--numeric-sort" => some 'n'
  | "--reverse" => some 'r'
  | "--unique" => some 'u'
  | _ => none

/-- The settings after the letters of a word. The value of a letter that takes one is what follows
it, or else the next word; `needed` tells that it is the next word, and whether it is a key. -/
def Settings.letters (s : Settings) : List Char → Reading (Settings × Option Char)
  | [] => return (s, none)
  | c :: rest =>
    if c = 'k' || c = 't' then
      if rest.isEmpty then return (s, some c)
      else return (← s.assign (c = 'k') (String.ofList rest), none)
    else
      match s.letter? c with
      | some s => s.letters rest
      | none => throw (.usage (.invalidOption c.toString))

/-- The long options that take a value, with the value after an equals sign. -/
def longValue? (word : String) : Option (Bool × String) :=
  if word.startsWith "--key=" then some (true, (word.drop 6).toString)
  else if word.startsWith "--field-separator=" then some (false, (word.drop 18).toString)
  else none

/-- The settings and the operands that the arguments give. -/
def readArguments (s : Settings) : List String → Reading (Settings × List String)
  | [] => return (s, [])
  | word :: rest =>
    if word = "--" then return (s, rest)
    else
      match (letterOf? word).bind s.letter?, longValue? word with
      | some s, _ => readArguments s rest
      | none, some (isKey, value) => do readArguments (← s.assign isKey value) rest
      | none, none =>
        if word = "--key" || word = "--field-separator" then
          match rest with
          | [] => throw (.wordNeeded word)
          | value :: rest => do readArguments (← s.assign (word = "--key") value) rest
        else if word.startsWith "--" then throw (.usage (.unrecognized word))
        else if isOption word then do
          let (s, needed) ← s.letters (word.toList.drop 1)
          match needed with
          | none => readArguments s rest
          | some c =>
            match rest with
            | [] => throw (.usage (.argumentNeeded c))
            | value :: rest => readArguments (← s.assign (c = 'k') value) rest
        else do
          let (s, operands) ← readArguments s rest
          return (s, word :: operands)

/-! ## Keys -/

/-- The key of a line. -/
inductive Key where
  | text (text : String)
  | number (value : Int)
  deriving DecidableEq

/-- The order of keys. -/
def Key.lt : Key → Key → Bool
  | .text a, .text b => a < b
  | .number a, .number b => a < b
  | .number _, .text _ => true
  | .text _, .number _ => false

/-- The value of some decimal digits. -/
def digitsValue (digits : List Char) : Nat :=
  digits.foldl (fun n c => 10 * n + (Text.decimalValue? c).getD 0) 0

/-- **The number at the start of a text**, rounded; zero when there is none. -/
def numberAt (text : List Char) : Int :=
  let (negative, text) :=
    match text.dropWhile Text.isBlank with
    | '-' :: rest => (true, rest)
    | rest => (false, rest)
  let whole := text.takeWhile Text.isDecimal
  let fraction :=
    match text.dropWhile Text.isDecimal with
    | '.' :: rest => rest.takeWhile Text.isDecimal
    | _ => []
  let size := Text.roundBinary64 (digitsValue (whole ++ fraction)) (Nat.pow 10 fraction.length)
  if negative then -(size : Int) else size

/-- The fields of a line that make up its key. -/
def keyText (s : Settings) (line : String) : String :=
  match s.key with
  | none => line
  | some (first, last) =>
    let (fields, joint) :=
      match s.separator with
      | some c => (Text.cutAt c line, c.toString)
      | none => (Text.words line, " ")
    let upTo := match last with
      | some last => fields.take last
      | none => fields
    joint.intercalate (upTo.drop (first - 1))

/-- The key of a line. -/
def keyOf (s : Settings) (line : String) : Key :=
  let text := keyText s line
  if s.numeric then .number (numberAt text.toList)
  else if s.ignoreCase then .text (Text.upper text)
  else .text text

/-- A line with its key comes before another one, or is the same. -/
def isBefore (a b : Key × String) : Bool := a.1.lt b.1 || (a.1 = b.1 && !(b.2 < a.2))

/-- The first line of each run of lines with the same key. -/
def firstOfRuns (last : Option Key) : List (Key × String) → List (Key × String)
  | [] => []
  | line :: rest =>
    if last = some line.1 then firstOfRuns last rest
    else line :: firstOfRuns (some line.1) rest

/-- **The sorted lines.** -/
def sortLines (s : Settings) (lines : List String) : List String :=
  let keyed := lines.map fun line => (keyOf s line, line)
  let sorted := keyed.mergeSort fun a b => if s.reverse then isBefore b a else isBefore a b
  (if s.unique then firstOfRuns none sorted else sorted).map (·.2)

/-! ## The utility -/

/-- What the option for help shows. -/
def help : String := "Usage: sort [OPTION]... [FILE]...
Write sorted concatenation of all FILE(s) to standard output.

  -f, --ignore-case           fold lower case to upper case characters
  -n, --numeric-sort          compare according to string numerical value
  -r, --reverse               reverse the result of comparisons
  -u, --unique                output only the first of an equal run
  -k, --key=POS1[,POS2]       sort via a key; POS1 and POS2 are field numbers
  -t, --field-separator=SEP   use SEP instead of non-blank to blank transition
      --help                  display this help and exit
"

/-- The texts of some files, each ended by a line feed; or the error message for the first that
cannot be read. -/
def readFiles (call : Call) : List String → UtilityAction (Except String String)
  | [] => return .ok ""
  | file :: rest => do
    match ← textOf call file with
    | .error reason =>
      let what := if reason = .notFound then "cannot read" else "read failed"
      return .error (what ++ ": " ++ file ++ ": " ++ reason.message)
    | .ok text =>
      let ended := if text.isEmpty || text.endsWith "\n" then text else text ++ "\n"
      match ← readFiles call rest with
      | .ok more => return .ok (ended ++ more)
      | .error message => return .error message

/-- **`sort`** -/
def run : Utility := fun call => do
  if "--help" ∈ call.arguments then return .ofText help
  match (readArguments .standard call.arguments).run with
  | .error f => throw f
  | .ok (.error flaw) => return .failure ("sort: " ++ flaw.message ++ "\n") 2
  | .ok (.ok (s, files)) =>
    match ← readFiles call (if files.isEmpty then ["-"] else files) with
    | .error message => return .failure ("sort: " ++ message ++ "\n") 2
    | .ok text => return .ofText (String.join ((sortLines s (Text.lines text)).map (· ++ "\n")))

end Utility.Sort

end VirtualShell
