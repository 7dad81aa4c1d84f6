import VirtualShell.Text.Integer

/-!
# What can be wrong with an arithmetic expression

An expression may be malformed: then it has no tree. Evaluation fails on a division by zero, on a
negative exponent and on variables that refer to one another too deeply. Numerals in the values of
variables bring reasons of their own.
-/

namespace VirtualShell.Arith

/-- The most variables whose values are expressions that may refer to one another in a chain. -/
def maxReferences : Nat := 32

/-- Why an expression has no tree. -/
inductive Flaw where
  /-- The base of a literal is not between two and sixty-four. -/
  | badBase (literal : String)
  /-- A literal has a digit that its base does not have. -/
  | badDigit (literal : String)
  | badOperator (rest : String)
  | operandExpected
  | unexpected (rest : String)
  deriving DecidableEq, Repr

/-- Why an expression has no value. -/
inductive Error where
  | malformed (flaw : Flaw)
  | divisionByZero
  | negativeExponent
  | tooManyReferences
  /-- A numeral that is none, or has too many digits. -/
  | numeral (cause : Text.IntegerError)
  /-- A digit of another script starts a numeral. -/
  | foreignDigit
  deriving DecidableEq, Repr

/-- The part of a message that shows where reading stopped. -/
def errorToken (text : String) : String := " (error token is \"" ++ text ++ "\")"

/-- The wording of a malformed expression. -/
def Flaw.message : Flaw → String
  | .badBase literal => "invalid arithmetic base" ++ errorToken literal
  | .badDigit literal => "value too great for base" ++ errorToken literal
  | .badOperator rest => "syntax error: invalid arithmetic operator" ++ errorToken rest
  | .operandExpected => "syntax error: operand expected"
  | .unexpected rest => "syntax error in expression" ++ errorToken rest

/-- The wording of a failed evaluation. -/
def Error.message : Error → String
  | .malformed flaw => flaw.message
  | .divisionByZero => "division by 0"
  | .negativeExponent => "exponent less than 0"
  | .tooManyReferences => "expression recursion level exceeded"
  | .numeral cause => cause.message
  | .foreignDigit => ""

end VirtualShell.Arith
