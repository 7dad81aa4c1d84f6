import VirtualShell.Arith.Parser
import VirtualShell.Variables

/-!
# Evaluating arithmetic expressions

Values are signed integers of sixty-four bits. Every operation works on integers and cuts its
result to that width, so sums, products, shifts and powers wrap around; division and remainder cut
toward zero; shift counts are taken modulo sixty-four.

A variable counts as the number or the expression that is its value, and as zero when it has no
value or one that is neither. Expressions in variables may refer to variables again, but only
`maxReferences` deep. Assignments made before an error stay.
-/

namespace VirtualShell.Arith

/-- The number of values of an integer. -/
def wordSize : Nat := Nat.pow 2 64

/-- **Wrapping.** The value between minus two to the sixty-third and two to the sixty-third, the
latter excluded, that differs from an integer by a multiple of the word size. -/
def wrap (n : Int) : Int := n.bmod wordSize

/-- Truth as a number. -/
def ofBool (b : Bool) : Int := if b then 1 else 0

/-- A power modulo the word size, by squaring. -/
def powerMod (base : Int) (exponent : Nat) : Int :=
  if exponent = 0 then 1
  else
    let square := powerMod (base * base % wordSize) (exponent / 2)
    if exponent % 2 = 1 then base * square % wordSize else square
termination_by exponent

/-- A shift count. -/
def shiftCount (n : Int) : Nat := (n % 64).toNat

/-- An operation on the bits of two numbers. -/
def onBits (f : BitVec 64 → BitVec 64 → BitVec 64) (a b : Int) : Int :=
  (f (.ofInt 64 a) (.ofInt 64 b)).toInt

/-- The value of an operator with one operand. -/
def UnaryOp.apply (op : UnaryOp) (a : Int) : Int :=
  match op with
  | .negate => wrap (-a)
  | .identity => a
  | .not => ofBool (a == 0)
  | .complement => -a - 1

/-- The value of an operator with two operands. -/
def BinaryOp.apply (op : BinaryOp) (a b : Int) : Except Error Int :=
  match op with
  | .comma => .ok b
  | .or => .ok (ofBool (a != 0 || b != 0))
  | .and => .ok (ofBool (a != 0 && b != 0))
  | .bitOr => .ok (onBits (· ||| ·) a b)
  | .bitXor => .ok (onBits (· ^^^ ·) a b)
  | .bitAnd => .ok (onBits (· &&& ·) a b)
  | .equal => .ok (ofBool (a == b))
  | .notEqual => .ok (ofBool (a != b))
  | .less => .ok (ofBool (a < b))
  | .lessEqual => .ok (ofBool (a ≤ b))
  | .greater => .ok (ofBool (a > b))
  | .greaterEqual => .ok (ofBool (a ≥ b))
  | .shiftLeft => .ok (wrap (a * Int.pow 2 (shiftCount b)))
  | .shiftRight => .ok (a >>> shiftCount b)
  | .add => .ok (wrap (a + b))
  | .subtract => .ok (wrap (a - b))
  | .multiply => .ok (wrap (a * b))
  | .divide => if b = 0 then .error .divisionByZero else .ok (wrap (a.tdiv b))
  | .remainder => if b = 0 then .error .divisionByZero else .ok (wrap (a.tmod b))
  | .power => if b < 0 then .error .negativeExponent else .ok (wrap (powerMod a b.toNat))

/-- A computation that reads and assigns variables and may fail. -/
abbrev Eval := ExceptT Error (StateM Variables)

/-- Give a variable a number. -/
def setNumber (name : String) (value : Int) : Eval Unit :=
  modify fun vars => vars.set name (toString value)

/-- **The value of an expression**, where `valueOf` gives the values of variables. -/
def Expr.eval (valueOf : String → Eval Int) : Expr → Eval Int
  | .number value => pure (wrap value)
  | .variable name => valueOf name
  | .unary op e => do
    let a ← e.eval valueOf
    return op.apply a
  | .binary .and left right => do
    let a ← left.eval valueOf
    if a = 0 then return 0
    let b ← right.eval valueOf
    return ofBool (b != 0)
  | .binary .or left right => do
    let a ← left.eval valueOf
    if a ≠ 0 then return 1
    let b ← right.eval valueOf
    return ofBool (b != 0)
  | .binary op left right => do
    let a ← left.eval valueOf
    let b ← right.eval valueOf
    op.apply a b
  | .conditional condition yes no => do
    let a ← condition.eval valueOf
    if a ≠ 0 then yes.eval valueOf else no.eval valueOf
  | .assign none name value => do
    let a ← value.eval valueOf
    setNumber name a
    return a
  | .assign (some op) name value => do
    let a ← value.eval valueOf
    let old ← valueOf name
    let new ← op.apply old a
    setNumber name new
    return new
  | .step s name before => do
    let old ← valueOf name
    let new := wrap (match s with | .up => old + 1 | .down => old - 1)
    setNumber name new
    return if before then new else old

/-- The value starts with the mark of a hexadecimal literal. -/
def isMarkedHex : List Char → Bool
  | '0' :: 'x' :: _ | '0' :: 'X' :: _ => true
  | _ => false

/-- The value of a variable, whose own references are followed by `deeper`; without it they go too
deep. A value that is malformed counts as zero. -/
def valueThrough (deeper : Option (String → Eval Int)) (name : String) : Eval Int := do
  let text := Text.stripBlanks (((← get).get? name).getD "")
  if text.isEmpty then return 0
  if Text.allDigits text || isMarkedHex text.toList then
    match readLiteral text.toList with
    | .ok value => return wrap value
    | .error (.malformed _) => return 0
    | .error e => throw e
  else
    match deeper with
    | none => throw .tooManyReferences
    | some valueOf =>
      match Expr.parse text with
      | .ok e => e.eval valueOf
      | .error (.malformed _) => return 0
      | .error e => throw e

/-- **The value of a variable**, with a bound on how deep references may still go. -/
def valueWithin : (references : Nat) → (name : String) → Eval Int
  | 0 => valueThrough none
  | references + 1 => valueThrough (some (valueWithin references))

/-- **The value of a text** that writes an expression. -/
def evaluate (text : String) : Eval Int := do
  let e ← Expr.parse text
  e.eval (valueWithin maxReferences)

end VirtualShell.Arith
