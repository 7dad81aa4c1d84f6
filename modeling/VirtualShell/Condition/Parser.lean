import VirtualShell.Condition.Basic
import VirtualShell.Reader

/-!
# Reading conditions

From loose to tight: "or", "and", negation, tests. Whether a word is an operator depends on the words
around it: a test of two operands is looked for first, so that an operator can be an operand too.
-/

namespace VirtualShell.Condition

/-- A condition at the front of some words, and what follows it. -/
abbrev Reading (words : List Operand) := Except Error (Expr × Rest words)

/-- The word after the first one is an operator between operands, and is followed by another word. -/
def binary? (words : List Operand) : Option (Operand × BinaryOp × Operand × Rest words) :=
  match words with
  | left :: op :: right :: rest =>
    (BinaryOp.ofSpelling? op.text).map fun op =>
      (left, op, right, ⟨rest, by simp only [List.length_cons]; omega⟩)
  | _ => none

/-- An exclamation mark negates what follows it, unless it is the left operand of the last test. -/
def negates (words : List Operand) : Bool :=
  match words with
  | [_, op, _] => (BinaryOp.ofSpelling? op.text).isNone
  | _ => true

/-- The words start with an operand and an operator that nothing follows. -/
def lacksRight (words : List Operand) : Bool :=
  match words with
  | first :: op :: _ =>
    (BinaryOp.ofSpelling? op.text).isSome && (UnaryOp.ofSpelling? first.text).isNone &&
      first.text != "(" && first.text != "!"
  | _ => false

/-- A test of one operand, or a text. -/
def readSimple (form : Form) (first : Operand) (rest : List Operand) : Reading (first :: rest) :=
  match UnaryOp.ofSpelling? first.text, rest with
  | some op, operand :: rest =>
    .ok (.unary op operand.text, ⟨rest, by simp only [List.length_cons]; omega⟩)
  | some op, [] =>
    match form with
    | .brackets => .error (.noOperand op)
    | .command => .ok (.text first.text, ⟨[], by simp⟩)
  | none, rest => .ok (.text first.text, ⟨rest, by simp⟩)

mutual

/-- Conditions joined by "or". -/
def readOr (form : Form) (words : List Operand) : Reading words :=
  match readAnd form words with
  | .error e => .error e
  | .ok (e, ⟨rest, h⟩) => readOrFrom form e ⟨rest, h⟩
termination_by (words.length, 5)

/-- What is joined to a condition by "or". -/
def readOrFrom {start : List Operand} (form : Form) (left : Expr) (words : Rest start) :
    Reading start :=
  match words with
  | ⟨op :: next :: rest, h⟩ =>
    if op.text = form.or then
      match readAnd form (next :: rest) with
      | .error e => .error e
      | .ok (right, ⟨rest', h'⟩) =>
        readOrFrom form (.or left right)
          ⟨rest', by simp only [List.length_cons] at h h'; omega⟩
    else .ok (left, ⟨op :: next :: rest, h⟩)
  | words => .ok (left, words)
termination_by (words.1.length, 0)
decreasing_by all_goals grind

/-- Conditions joined by "and". -/
def readAnd (form : Form) (words : List Operand) : Reading words :=
  match readNot form words with
  | .error e => .error e
  | .ok (e, ⟨rest, h⟩) => readAndFrom form e ⟨rest, h⟩
termination_by (words.length, 4)

/-- What is joined to a condition by "and". -/
def readAndFrom {start : List Operand} (form : Form) (left : Expr) (words : Rest start) :
    Reading start :=
  match words with
  | ⟨op :: next :: rest, h⟩ =>
    if op.text = form.and then
      match readNot form (next :: rest) with
      | .error e => .error e
      | .ok (right, ⟨rest', h'⟩) =>
        readAndFrom form (.and left right)
          ⟨rest', by simp only [List.length_cons] at h h'; omega⟩
    else .ok (left, ⟨op :: next :: rest, h⟩)
  | words => .ok (left, words)
termination_by (words.1.length, 0)
decreasing_by all_goals grind

/-- A condition that may be negated. -/
def readNot (form : Form) (words : List Operand) : Reading words :=
  match words with
  | first :: next :: rest =>
    if first.text = "!" && negates (first :: next :: rest) then
      match readNot form (next :: rest) with
      | .error e => .error e
      | .ok (e, ⟨rest', h⟩) => .ok (.not e, ⟨rest', by simp only [List.length_cons] at h ⊢; omega⟩)
    else readTest form (first :: next :: rest)
  | words => readTest form words
termination_by (words.length, 3)

/-- A test, or a condition in parentheses. -/
def readTest (form : Form) (words : List Operand) : Reading words :=
  match words with
  | [] => .error .argumentExpected
  | first :: rest =>
    match binary? (first :: rest) with
    | some (left, op, right, after) =>
      if op = .regex && form = .command then .error (.binaryExpected op)
      else
        let pattern := if form = .brackets && op.takesPattern then right.pattern else none
        .ok (.binary op left.text right.text pattern, after)
    | none =>
      if lacksRight (first :: rest) then
        .error (match form with
          | .brackets => .noRightOperand
          | .command => .unaryExpected first.text)
      else if first.text = "(" && !rest.isEmpty then
        match readOr form rest with
        | .error e => .error e
        | .ok (inner, ⟨close :: rest', h⟩) =>
          if close.text = ")" then
            .ok (.group inner, ⟨rest', by simp only [List.length_cons] at h ⊢; omega⟩)
          else .error .unclosed
        | .ok (_, ⟨[], _⟩) => .error .unclosed
      else readSimple form first rest
termination_by (words.length, 2)
decreasing_by all_goals grind

end

/-- **Reading a condition.** All words must be used up. -/
def Expr.parse (form : Form) (words : List Operand) : Except Error Expr :=
  if words.isEmpty then .error .noExpression
  else
    match readOr form words with
    | .error e => .error e
    | .ok (e, ⟨[], _⟩) => .ok e
    | .ok (_, ⟨word :: _, _⟩) =>
      .error (match form with
        | .brackets => .unexpected word.text
        | .command => .tooManyArguments)

end VirtualShell.Condition
