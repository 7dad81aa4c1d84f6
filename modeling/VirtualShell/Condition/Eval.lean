import VirtualShell.Condition.Parser
import VirtualShell.Glob.Text
import VirtualShell.Regex.Matcher
import VirtualShell.Shell.Basic

/-!
# The answers of conditions

Conditions are answered in the state of a shell. Between double brackets numbers are arithmetic
texts, which may assign variables, and a match of a regular expression is kept in a variable.
-/

namespace VirtualShell.Condition

/-- Answers that may fail. -/
abbrev Answer := ExceptT Error Run

/-- The entry at the end of a path. -/
def entryOf? (operand : String) : Run (Option Entry) := do
  let path ← Run.pathOf operand
  return (← get).files.find? path.render

/-- Some of the permission bits of an entry are set. -/
def permits (e : Entry) (bits : Nat) : Bool := ((e.mode % 0o1000).toNat &&& bits) != 0

/-- The entry is as a test asks. -/
def UnaryOp.holdsOf (op : UnaryOp) (e : Entry) : Bool :=
  match op with
  | .exists | .existsOld => true
  | .isFile => match e.node with | .file _ => true | _ => false
  | .isDirectory => e.node == .directory
  | .hasContent => e.size > 0
  | .isReadable => permits e 0o444
  | .isWritable => permits e 0o222
  | .isExecutable => permits e 0o111
  | .isLink | .isLinkOld => match e.node with | .link _ => true | _ => false
  | .isEmpty | .isNotEmpty => false

/-- The answer of a test of one operand. A link is looked at itself only when links are asked for. -/
def UnaryOp.answer (op : UnaryOp) (operand : String) : Run Bool := do
  match op with
  | .isEmpty => return operand.isEmpty
  | .isNotEmpty => return !operand.isEmpty
  | .isLink | .isLinkOld =>
    let path ← Run.pathOf operand
    match (← get).files.statLink path.render with
    | .ok e => return op.holdsOf e
    | .error _ => return false
  | op =>
    match ← entryOf? operand with
    | some e => return op.holdsOf e
    | none => return false

/-- The number that an operand writes. -/
def numberOf (form : Form) (text : String) : Answer Int := do
  match form with
  | .brackets =>
    match ← (Run.arithmetic text : Run _) with
    | .ok value => return value
    | .error e => throw (.arithmetic text e)
  | .command =>
    match Text.readDecimal (Text.stripBlanks text) with
    | .ok value => return value
    | .error _ => throw (.integerExpected text)

/-- A text matches a pattern, or is the same as another one where no pattern is given. -/
def isEqual (left right : String) (pattern : Option String) : Run Bool :=
  match pattern with
  | some pattern => Run.orFault .pattern (Glob.isMatchOf pattern left)
  | none => return left == right

/-- The first match of a regular expression in a text is kept. -/
def findRegex (text pattern : String) : Answer Bool := do
  match Regex.compile (← (get : Run Shell)).host.named? .none pattern with
  | .error (.flaw flaw place) => throw (.badRegex pattern (.flaw flaw place))
  | .error e => (Run.fault (.pattern e) : Run Bool)
  | .ok regex =>
    match regex.search? text with
    | some found =>
      (Run.setVariable "BASH_REMATCH" found : Run Unit)
      return true
    | none => return false

/-- When the entries at two paths were last changed. -/
def times (left right : String) : Run (Option Int × Option Int) := do
  let a ← entryOf? left
  let b ← entryOf? right
  return (a.map (·.modified), b.map (·.modified))

/-- The path that an operand leads to. -/
def realPathOf (operand : String) : Run Path := do
  let path ← Run.pathOf operand
  Run.orFault .files (← Run.askFiles (·.realPath path.render))

/-- The answer of a test of two operands. -/
def BinaryOp.answer (form : Form) (op : BinaryOp) (left right : String)
    (pattern : Option String) : Answer Bool := do
  match op with
  | .equal | .equalTwice => isEqual left right pattern
  | .notEqual => return !(← isEqual left right pattern)
  | .before => return left < right
  | .after => return right < left
  | .regex => findRegex left right
  | .number comparison =>
    let a ← numberOf form left
    let b ← numberOf form right
    return comparison.holds a b
  | .newer =>
    match ← times left right with
    | (some a, some b) => return a > b
    | (a, b) => return a.isSome && b.isNone
  | .older =>
    match ← times left right with
    | (some a, some b) => return a < b
    | (a, b) => return b.isSome && a.isNone
  | .same =>
    match ← times left right with
    | (some _, some _) => return (← realPathOf left) == (← realPathOf right)
    | _ => return false

/-- **The answer of a condition.** What is joined is asked from left to right, as far as needed. -/
def Expr.answer (form : Form) : Expr → Answer Bool
  | .text value => return !value.isEmpty
  | .unary op operand => op.answer operand
  | .binary op left right pattern => op.answer form left right pattern
  | .not e => return !(← e.answer form)
  | .and left right => do
    if ← left.answer form then right.answer form else return false
  | .or left right => do
    if ← left.answer form then return true else right.answer form
  | .group inner => inner.answer form

/-- **The status of a condition**, and a message when it has no answer: zero when it holds, one when
it does not, two when something is wrong with it. Without any words a command does not hold. -/
def status (form : Form) (words : List Operand) : Run (Int × Option Error) := do
  if words.isEmpty && form = .command then return (1, none)
  match Expr.parse form words with
  | .error e => return (2, some e)
  | .ok e =>
    match ← (e.answer form).run with
    | .ok true => return (0, none)
    | .ok false => return (1, none)
    | .error e => return (2, some e)

end VirtualShell.Condition
