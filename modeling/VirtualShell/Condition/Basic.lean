import VirtualShell.Arith.Error
import VirtualShell.Regex.Error

/-!
# Conditions

A condition tests a text, a file, or two texts, numbers or files against each other; conditions are
negated, joined and put in parentheses. They are written with one word for each operator, operand
and parenthesis.
-/

namespace VirtualShell.Condition

/-! ## Operators -/

/-- A test of one operand. Two of them have an old spelling as well. -/
inductive UnaryOp where
  | exists
  | existsOld
  | isFile
  | isDirectory
  | hasContent
  | isReadable
  | isWritable
  | isExecutable
  | isLink
  | isLinkOld
  | isEmpty
  | isNotEmpty
  deriving DecidableEq, Repr

/-- How a test of one operand is written. -/
def UnaryOp.spelling : UnaryOp → String
  | .exists => "-e"
  | .existsOld => "-a"
  | .isFile => "-f"
  | .isDirectory => "-d"
  | .hasContent => "-s"
  | .isReadable => "-r"
  | .isWritable => "-w"
  | .isExecutable => "-x"
  | .isLink => "-L"
  | .isLinkOld => "-h"
  | .isEmpty => "-z"
  | .isNotEmpty => "-n"

/-- All tests of one operand. -/
def UnaryOp.all : List UnaryOp :=
  [.exists, .existsOld, .isFile, .isDirectory, .hasContent, .isReadable, .isWritable,
    .isExecutable, .isLink, .isLinkOld, .isEmpty, .isNotEmpty]

/-- The test of one operand that a word writes. -/
def UnaryOp.ofSpelling? (word : String) : Option UnaryOp := all.find? (·.spelling == word)

/-- How two numbers are compared. -/
inductive Comparison where
  | equal
  | notEqual
  | less
  | lessEqual
  | greater
  | greaterEqual
  deriving DecidableEq, Repr

/-- Two numbers compare in this way. -/
def Comparison.holds (c : Comparison) (a b : Int) : Bool :=
  match c with
  | .equal => a == b
  | .notEqual => a != b
  | .less => a < b
  | .lessEqual => a ≤ b
  | .greater => a > b
  | .greaterEqual => a ≥ b

/-- A test of two operands. Equality has two spellings. -/
inductive BinaryOp where
  | equal
  | equalTwice
  | notEqual
  | before
  | after
  | number (comparison : Comparison)
  | newer
  | older
  | same
  | regex
  deriving DecidableEq, Repr

/-- How a test of two operands is written. -/
def BinaryOp.spelling : BinaryOp → String
  | .equal => "="
  | .equalTwice => "=="
  | .notEqual => "!="
  | .before => "<"
  | .after => ">"
  | .number .equal => "-eq"
  | .number .notEqual => "-ne"
  | .number .less => "-lt"
  | .number .lessEqual => "-le"
  | .number .greater => "-gt"
  | .number .greaterEqual => "-ge"
  | .newer => "-nt"
  | .older => "-ot"
  | .same => "-ef"
  | .regex => "=~"

/-- All tests of two operands. -/
def BinaryOp.all : List BinaryOp :=
  [.equal, .equalTwice, .notEqual, .before, .after, .number .equal, .number .notEqual,
    .number .less, .number .lessEqual, .number .greater, .number .greaterEqual, .newer, .older,
    .same, .regex]

/-- The test of two operands that a word writes. -/
def BinaryOp.ofSpelling? (word : String) : Option BinaryOp := all.find? (·.spelling == word)

/-- The right operand may be a pattern. -/
def BinaryOp.takesPattern (op : BinaryOp) : Bool :=
  op == .equal || op == .equalTwice || op == .notEqual

/-! ## Trees -/

/-- How conditions are written: as the arguments of a command, or between double brackets. -/
inductive Form where
  | command
  | brackets
  deriving DecidableEq, Repr

/-- How "and" is written. -/
def Form.and : Form → String
  | .command => "-a"
  | .brackets => "&&"

/-- How "or" is written. -/
def Form.or : Form → String
  | .command => "-o"
  | .brackets => "||"

/-- A word of a condition, and the pattern it stands for when that is known. -/
structure Operand where
  text : String
  pattern : Option String
  deriving DecidableEq, Repr

/-- A condition. The right operand of a test may be a pattern. -/
inductive Expr where
  /-- The text is not empty. -/
  | text (text : String)
  | unary (op : UnaryOp) (operand : String)
  | binary (op : BinaryOp) (left right : String) (pattern : Option String)
  | not (operand : Expr)
  | and (left right : Expr)
  | or (left right : Expr)
  | group (inner : Expr)
  deriving DecidableEq, Repr

/-! ## Failures -/

/-- Why a condition has no answer. -/
inductive Error where
  | noExpression
  | argumentExpected
  | unexpected (word : String)
  | tooManyArguments
  | binaryExpected (op : BinaryOp)
  | unaryExpected (word : String)
  | noRightOperand
  | noOperand (op : UnaryOp)
  | unclosed
  | arithmetic (text : String) (error : Arith.Error)
  | integerExpected (text : String)
  | badRegex (pattern : String) (error : Regex.Error)

/-- The wording of a failure. -/
def Error.message : Error → String
  | .noExpression => "expression expected"
  | .argumentExpected => "argument expected"
  | .unexpected word => "syntax error near `" ++ word ++ "'"
  | .tooManyArguments => "too many arguments"
  | .binaryExpected op => op.spelling ++ ": binary operator expected"
  | .unaryExpected word => word ++ ": unary operator expected"
  | .noRightOperand => "unexpected argument `]]' to conditional binary operator"
  | .noOperand op => "unexpected argument to conditional unary operator `" ++ op.spelling ++ "'"
  | .unclosed => "`)' expected"
  | .arithmetic text error => text ++ ": " ++ error.message
  | .integerExpected text => text ++ ": integer expression expected"
  | .badRegex pattern error => "invalid regular expression `" ++ pattern ++ "': " ++ error.message

end VirtualShell.Condition
