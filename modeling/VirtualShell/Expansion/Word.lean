import VirtualShell.Expansion.Direct
import VirtualShell.Glob.Pathname

/-!
# Expanding words

The pieces of a word are expanded one after another into segments. A command substitution runs a
script, and the bounds of a substring are arithmetic texts that are read at this time, so both are
given by an `Expander`; what it knows how to do lies one level deeper, and with it every expansion
ends.
-/

namespace VirtualShell

/-- What the expansion of words rests on. -/
structure Expander where
  /-- Run a script for its output. -/
  substitute : Script → Run Outcome
  /-- The value of a bound of a substring. -/
  bound : String → Run Int

/-- The output of a script without the line feed that ends it. The status of the script becomes that
of the shell, and its error output is kept for the command. -/
def Expander.output (x : Expander) (script : Script) : Run String := do
  let outcome ← x.substitute script
  modify fun shell => { shell with
    status := outcome.status
    expansionErrors := shell.expansionErrors ++ outcome.output.stderr }
  let text := outcome.output.stdout
  return if text.endsWith "\n" then (text.dropEnd 1).toString else text

mutual

/-- **The segments of a piece of a word.** -/
def Part.expand (x : Expander) : Part → (quoted : Bool) → Run (List Segment)
  | .literal text, quoted => return [.literal quoted text]
  | .quoted text, _ => return [.literal true text]
  | .escaped text, _ => return [.literal true text]
  | .doubleQuoted parts, _ => do
    let segments ← Part.expandAll x parts true
    return if holdsAllParameters parts then segments else .literal true "" :: segments
  | .parameter name none, quoted => expandParameter name quoted
  | .parameter name (some op), quoted => do
    let value ← Run.orFault id ((← get).parameter? name)
    ParamOp.expand x op name value quoted
  | .tilde user, quoted => return [← expandTilde user quoted]
  | .arithmetic expression, quoted => do
    let value ← arithmeticValue (← expression.textBy (Word.expand x expression false))
    return [.value quoted (toString value)]
  | .substitution body _, quoted => do
    let text ← x.output body
    return [.value quoted text]
termination_by structural part => part

/-- **The segments of a word.** -/
def Word.expand (x : Expander) : Word → (quoted : Bool) → Run (List Segment)
  | ⟨parts, _⟩, quoted => Part.expandAll x parts quoted
termination_by structural word => word

/-- The segments of an operation on the value of a parameter. -/
def ParamOp.expand (x : Expander) :
    ParamOp → (name : String) → (value : Option String) → (quoted : Bool) → Run (List Segment)
  | .default word colon, _, value, quoted =>
    if isMissing value colon then do
      return (← Word.expand x word quoted).map (if quoted then id else Segment.splitting)
    else return [.value quoted (value.getD "")]
  | .assign word colon, name, value, quoted =>
    if isMissing value colon then
      if !isAssignable name then
        Run.exit 1 ("bash: $" ++ name ++ ": cannot assign in this way\n")
      else do
        let new ← word.textBy (Word.expand x word false)
        Run.setVariable name new
        return [.value quoted new]
    else return [.value quoted (value.getD "")]
  | .alternative word colon, _, value, quoted =>
    if isMissing value colon then return []
    else do
      return (← Word.expand x word quoted).map (if quoted then id else Segment.splitting)
  | .error word colon, name, value, quoted =>
    if isMissing value colon then do
      let message ← word.textBy (Word.expand x word false)
      let message := if message.isEmpty then "parameter null or not set" else message
      Run.exit 1 ("bash: " ++ name ++ ": " ++ message ++ "\n")
    else return [.value quoted (value.getD "")]
  | .length, name, value, quoted => do
    return [.value quoted (toString (lengthOf (← get) name value))]
  | .removePrefix pattern longest, _, value, quoted => do
    let pattern := Segment.patternOf (← Word.expand x pattern false)
    let text ← Run.orFault .pattern (Glob.removeStart longest pattern (value.getD ""))
    return [.value quoted text]
  | .removeSuffix pattern longest, _, value, quoted => do
    let pattern := Segment.patternOf (← Word.expand x pattern false)
    let text ← Run.orFault .pattern (Glob.removeEnd longest pattern (value.getD ""))
    return [.value quoted text]
  | .replace pattern replacement all, _, value, quoted => do
    let pattern := Segment.patternOf (← Word.expand x pattern false)
    let replacement ← replacement.textBy (Word.expand x replacement false)
    let text ← Run.orFault .pattern (Glob.replace all pattern replacement (value.getD ""))
    return [.value quoted text]
  | .substring offset length, _, value, quoted => do
    let start ← x.bound offset
    let size ← match length with
      | some length => some <$> x.bound length
      | none => pure none
    match slice (value.getD "") start size with
    | some text => return [.value quoted text]
    | none => Run.exit 1 ("bash: " ++ length.getD "" ++ ": substring expression < 0\n")
termination_by structural op => op

/-- The segments of some pieces. -/
def Part.expandAll (x : Expander) : List Part → (quoted : Bool) → Run (List Segment)
  | [], _ => return []
  | part :: parts, quoted => do
    let segments ← Part.expand x part quoted
    let more ← Part.expandAll x parts quoted
    return segments ++ more
termination_by structural parts => parts

end

namespace Word

/-- **The text of a word**: neither split nor matched against the files. -/
def text (x : Expander) (word : Word) : Run String :=
  word.textBy (word.expand x false)

/-- The pattern that a word stands for. -/
def pattern (x : Expander) (word : Word) : Run String := do
  return Segment.patternOf (← word.expand x false)

/-- The value of a word as an arithmetic text. -/
def value (x : Expander) (word : Word) : Run Int := do
  arithmeticValue (← word.text x)

/-- The paths that a field stands for when it holds wildcards, or its text. -/
def fieldPaths (field : Field) : Run (List String) := do
  if Glob.hasWildcard field.pattern then
    let shell ← get
    let paths ← Run.orFault .pattern (Glob.paths shell.files shell.directory field.pattern)
    return if paths.isEmpty then [field.text] else paths
  else return [field.text]

/-- **The fields of a word**: split at the separators, and then matched against the files. -/
def fields (x : Expander) (word : Word) : Run (List String) := do
  let segments ← word.expand x false
  let separators ← Run.variableOr "IFS" defaultSeparators
  let fields ← (Field.ofSegments separators segments).mapM fieldPaths
  return fields.flatten

/-- The fields of some words. -/
def allFields (x : Expander) (words : List Word) : Run (List String) := do
  return (← words.mapM (fields x)).flatten

end Word

/-! ## Bounds of substrings -/

/-- The value of the bound of a substring, where bounds stand inside one another at most so deep. -/
def boundWithin (substitute : Script → Run Outcome) : Nat → String → Run Int
  | 0, _ => Run.fault (.script (.lexical .nestingTooDeep 1))
  | n + 1, text => do
    let word ← Run.orFault .script (Word.parseExpanded text)
    word.value ⟨substitute, boundWithin substitute n⟩

/-- **Expansion over the running of scripts.** A bound inside the bound of a substring is a shorter
text, so there are enough levels. -/
def Expander.ofSubstitute (substitute : Script → Run Outcome) : Expander where
  substitute := substitute
  bound := fun text => boundWithin substitute (text.length + 1) text

end VirtualShell
