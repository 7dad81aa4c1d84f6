/-!
# Arithmetic expressions

An expression is built from numerals and variables by operators on sixty-four bit integers, by the
conditional operator, and by assignments and steps, which change a variable on the way.
-/

namespace VirtualShell.Arith

/-- Operators with one operand. -/
inductive UnaryOp where
  | negate
  | identity
  | not
  | complement
  deriving DecidableEq, Repr

/-- Operators with two operands. -/
inductive BinaryOp where
  | comma
  | or
  | and
  | bitOr
  | bitXor
  | bitAnd
  | equal
  | notEqual
  | less
  | lessEqual
  | greater
  | greaterEqual
  | shiftLeft
  | shiftRight
  | add
  | subtract
  | multiply
  | divide
  | remainder
  | power
  deriving DecidableEq, Repr

/-- Counting a variable up or down by one. -/
inductive Step where
  | up
  | down
  deriving DecidableEq, Repr

/-- An arithmetic expression. -/
inductive Expr where
  /-- A numeral, of any size: it is cut to sixty-four bits when it is evaluated. -/
  | number (value : Int)
  | variable (name : String)
  | unary (op : UnaryOp) (operand : Expr)
  | binary (op : BinaryOp) (left right : Expr)
  | conditional (condition yes no : Expr)
  /-- The value, combined with the old value by the operator if there is one. -/
  | assign (op : Option BinaryOp) (name : String) (value : Expr)
  /-- A step that gives the new value when it stands before the name and the old one after it. -/
  | step (step : Step) (name : String) (before : Bool)
  deriving DecidableEq, Repr

/-- How an operator with one operand is written. -/
def UnaryOp.spelling : UnaryOp → String
  | .negate => "-"
  | .identity => "+"
  | .not => "!"
  | .complement => "~"

/-- How an operator with two operands is written. -/
def BinaryOp.spelling : BinaryOp → String
  | .comma => ","
  | .or => "||"
  | .and => "&&"
  | .bitOr => "|"
  | .bitXor => "^"
  | .bitAnd => "&"
  | .equal => "=="
  | .notEqual => "!="
  | .less => "<"
  | .lessEqual => "<="
  | .greater => ">"
  | .greaterEqual => ">="
  | .shiftLeft => "<<"
  | .shiftRight => ">>"
  | .add => "+"
  | .subtract => "-"
  | .multiply => "*"
  | .divide => "/"
  | .remainder => "%"
  | .power => "**"

/-- **Precedence.** The tier of an operator that groups to the left; the lower, the tighter it
binds. A power binds tighter than all of them and groups to the right; the comma stands outside,
since it also joins assignments. -/
def BinaryOp.tier : BinaryOp → Nat
  | .power => 0
  | .multiply | .divide | .remainder => 1
  | .add | .subtract => 2
  | .shiftLeft | .shiftRight => 3
  | .less | .lessEqual | .greater | .greaterEqual => 4
  | .equal | .notEqual => 5
  | .bitAnd => 6
  | .bitXor => 7
  | .bitOr => 8
  | .and => 9
  | .or => 10
  | .comma => 11

/-- The tier of the loosest operator that groups to the left and joins no assignments. -/
def loosestTier : Nat := 10

/-- How a step is written. -/
def Step.spelling : Step → String
  | .up => "++"
  | .down => "--"

/-- How an assignment is written. -/
def assignmentSpelling : Option BinaryOp → String
  | none => "="
  | some op => op.spelling ++ "="

end VirtualShell.Arith
