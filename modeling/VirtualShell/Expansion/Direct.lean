import VirtualShell.Expansion.Parameter
import VirtualShell.Glob.Text
import VirtualShell.Syntax.WordParser

/-!
# Expanding words that run no script

Whether the expansion of a word may run a script can be seen from the word. Most words cannot, and
when only their text is asked for they are expanded directly, by an expansion that has no way of
running scripts and breaks where it meets a command substitution.

The bounds of a substring are kept as text and read when the parameter is expanded. Of a bound it
is only known whether it holds the marks of a command substitution.
-/

namespace VirtualShell

/-! ## Words that run scripts -/

mutual

/-- Expanding the piece may run a script. -/
def Part.runsScript : Part → Bool
  | .literal _ | .quoted _ | .escaped _ | .tilde _ | .parameter _ none => false
  | .doubleQuoted parts => Part.anyRunsScript parts
  | .parameter _ (some op) => ParamOp.runsScript op
  | .substitution _ _ => true
  | .arithmetic expression => Word.runsScript expression
termination_by structural part => part

/-- Expanding the word may run a script. -/
def Word.runsScript : Word → Bool
  | ⟨parts, _⟩ => Part.anyRunsScript parts
termination_by structural word => word

/-- Working out the operation may run a script. The bounds of a substring are only searched for the
marks of a command substitution. -/
def ParamOp.runsScript : ParamOp → Bool
  | .default word _ | .assign word _ | .alternative word _ | .error word _ => Word.runsScript word
  | .length => false
  | .removePrefix pattern _ | .removeSuffix pattern _ => Word.runsScript pattern
  | .replace pattern replacement _ => Word.runsScript pattern || Word.runsScript replacement
  | .substring offset length => marksScript offset || (length.any marksScript)
termination_by structural op => op
where
  marksScript (text : String) : Bool := text.contains "$(" || text.contains '\x60'

/-- Expanding one of the pieces may run a script. -/
def Part.anyRunsScript : List Part → Bool
  | [] => false
  | part :: parts => Part.runsScript part || Part.anyRunsScript parts
termination_by structural parts => parts

end

/-! ## Values -/

/-- **The value of an arithmetic text.** What is wrong with it ends the script. -/
def arithmeticValue (text : String) : Run Int := do
  match ← Run.arithmetic text with
  | .ok value => return value
  | .error e => Run.exit 1 ("bash: " ++ Text.stripBlanks text ++ ": " ++ e.message ++ "\n")

/-- The quoted parts stand for all positional parameters, and perhaps for no field at all. -/
def holdsAllParameters (parts : List Part) : Bool :=
  parts.any fun part =>
    match part with
    | .parameter "@" none => true
    | _ => false

/-- The value of a parameter counts as missing. -/
def isMissing (value : Option String) (colon : Bool) : Bool :=
  match value with
  | none => true
  | some value => colon && value.isEmpty

/-! ## The direct expansion -/

mutual

/-- **The segments of a piece that runs no script**, given the values of bounds. -/
def Part.expandDirect (bound : String → Run Int) : Part → (quoted : Bool) → Run (List Segment)
  | .literal text, quoted => return [.literal quoted text]
  | .quoted text, _ => return [.literal true text]
  | .escaped text, _ => return [.literal true text]
  | .doubleQuoted parts, _ => do
    let segments ← Part.expandAllDirect bound parts true
    return if holdsAllParameters parts then segments else .literal true "" :: segments
  | .parameter name none, quoted => expandParameter name quoted
  | .parameter name (some op), quoted => do
    let value ← Run.orFault id ((← get).parameter? name)
    ParamOp.expandDirect bound op name value quoted
  | .tilde user, quoted => return [← expandTilde user quoted]
  | .arithmetic expression, quoted => do
    let text := Segment.textOf (← Word.expandDirect bound expression false)
    let value ← arithmeticValue text
    return [.value quoted (toString value)]
  | .substitution _ _, _ => Run.fault .unexpectedScript
termination_by structural part => part

/-- **The segments of a word that runs no script.** -/
def Word.expandDirect (bound : String → Run Int) : Word → (quoted : Bool) → Run (List Segment)
  | ⟨parts, _⟩, quoted => Part.expandAllDirect bound parts quoted
termination_by structural word => word

/-- The segments of an operation that runs no script, on the value of a parameter. -/
def ParamOp.expandDirect (bound : String → Run Int) :
    ParamOp → (name : String) → (value : Option String) → (quoted : Bool) → Run (List Segment)
  | .default word colon, _, value, quoted =>
    if isMissing value colon then do
      let segments ← Word.expandDirect bound word quoted
      return segments.map (if quoted then id else Segment.splitting)
    else return [.value quoted (value.getD "")]
  | .assign word colon, name, value, quoted =>
    if isMissing value colon then
      if !isAssignable name then
        Run.exit 1 ("bash: $" ++ name ++ ": cannot assign in this way\n")
      else do
        let new := Segment.textOf (← Word.expandDirect bound word false)
        Run.setVariable name new
        return [.value quoted new]
    else return [.value quoted (value.getD "")]
  | .alternative word colon, _, value, quoted =>
    if isMissing value colon then return []
    else do
      let segments ← Word.expandDirect bound word quoted
      return segments.map (if quoted then id else Segment.splitting)
  | .error word colon, name, value, quoted =>
    if isMissing value colon then do
      let message := Segment.textOf (← Word.expandDirect bound word false)
      let message := if message.isEmpty then "parameter null or not set" else message
      Run.exit 1 ("bash: " ++ name ++ ": " ++ message ++ "\n")
    else return [.value quoted (value.getD "")]
  | .length, name, value, quoted => do
    return [.value quoted (toString (lengthOf (← get) name value))]
  | .removePrefix pattern longest, _, value, quoted => do
    let pattern := Segment.patternOf (← Word.expandDirect bound pattern false)
    let text ← Run.orFault .pattern (Glob.removeStart longest pattern (value.getD ""))
    return [.value quoted text]
  | .removeSuffix pattern longest, _, value, quoted => do
    let pattern := Segment.patternOf (← Word.expandDirect bound pattern false)
    let text ← Run.orFault .pattern (Glob.removeEnd longest pattern (value.getD ""))
    return [.value quoted text]
  | .replace pattern replacement all, _, value, quoted => do
    let pattern := Segment.patternOf (← Word.expandDirect bound pattern false)
    let replacement := Segment.textOf (← Word.expandDirect bound replacement false)
    let text ← Run.orFault .pattern (Glob.replace all pattern replacement (value.getD ""))
    return [.value quoted text]
  | .substring offset length, _, value, quoted => do
    let start ← bound offset
    let size ← match length with
      | some length => some <$> bound length
      | none => pure none
    match slice (value.getD "") start size with
    | some text => return [.value quoted text]
    | none => Run.exit 1 ("bash: " ++ length.getD "" ++ ": substring expression < 0\n")
termination_by structural op => op

/-- The segments of some pieces that run no script. -/
def Part.expandAllDirect (bound : String → Run Int) :
    List Part → (quoted : Bool) → Run (List Segment)
  | [], _ => return []
  | part :: parts, quoted => do
    let segments ← Part.expandDirect bound part quoted
    let more ← Part.expandAllDirect bound parts quoted
    return segments ++ more
termination_by structural parts => parts

end

/-- The value of the bound of a substring that runs no script, where bounds stand inside one another
at most so deep. -/
def directBoundWithin : Nat → String → Run Int
  | 0, _ => Run.fault (.script (.lexical .nestingTooDeep 1))
  | n + 1, text => do
    let word ← Run.orFault .script (Word.parseExpanded text)
    arithmeticValue (Segment.textOf (← word.expandDirect (directBoundWithin n) false))

/-- **The value of a bound that runs no script.** A bound inside it is a shorter text, so there are
enough levels. -/
def directBound (text : String) : Run Int := directBoundWithin (text.length + 1) text

namespace Word

/-- The text of a word that runs no script. -/
def directText (word : Word) : Run String := do
  return Segment.textOf (← word.expandDirect directBound false)

/-- **The text of a word.** A word that may run a script has the given segments, every other one is
expanded directly. -/
def textBy (word : Word) (segments : Run (List Segment)) : Run String :=
  if word.runsScript then do return Segment.textOf (← segments) else word.directText

end Word

end VirtualShell
