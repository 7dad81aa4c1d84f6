import VirtualShell.Arith.Error
import VirtualShell.Arith.Expr
import VirtualShell.Reader
import VirtualShell.Syntax.Name
import VirtualShell.Text.Character
import VirtualShell.Text.Letter

/-!
# The tokens of an arithmetic expression

A text splits into literals, names and symbols; spaces, tabs and line feeds between them do not
count. Of two symbols that fit, the longer one is taken.
-/

namespace VirtualShell.Arith

/-! ## Integer literals

A literal is decimal, octal after a leading zero, hexadecimal after `0x`, or in any base from two
to sixty-four after that base and a number sign. The digits past nine are the small letters, the
capital letters, the at sign and the underscore; up to base thirty-six the case of a letter does
not matter. -/

/-- The value of a digit after a base. -/
def digitValue? (base : Nat) (c : Char) : Option Nat :=
  let value? :=
    if '0' ≤ c && c ≤ '9' then some (c.toNat - 48)
    else if 'a' ≤ c && c ≤ 'z' then some (c.toNat - 87)
    else if 'A' ≤ c && c ≤ 'Z' then some (if base ≤ 36 then c.toNat - 55 else c.toNat - 29)
    else if c == '@' then some 62
    else if c == '_' then some 63
    else none
  value?.filter (· < base)

/-- A character that may be a digit in some base. -/
def isBaseDigit (c : Char) : Bool := (digitValue? 64 c).isSome

/-- The number that some digits after a base write. -/
def readBaseDigits (base : Nat) (value : Nat) : List Char → Option Nat
  | [] => some value
  | c :: rest =>
    match digitValue? base c with
    | some d => readBaseDigits base (value * base + d) rest
    | none => none

/-- An integer as the text of a literal. -/
def readNumeral (base : Nat) (text : List Char) : Except Error Int :=
  match Text.readInteger base (String.ofList text) with
  | .ok n => .ok n
  | .error cause => .error (.numeral cause)

/-- A numeral after a base. -/
def readBased (literal base digits : List Char) : Except Error Int := do
  let n ← readNumeral 10 base
  if 2 ≤ n && n ≤ 64 then
    match readBaseDigits n.toNat 0 digits with
    | some value => return value
    | none => throw (.malformed (.badDigit (String.ofList literal)))
  else throw (.malformed (.badBase (String.ofList literal)))

/-- **The value of a literal.** -/
def readLiteral (literal : List Char) : Except Error Int :=
  match literal.dropWhile (· ≠ '#') with
  | _ :: digits => readBased literal (literal.takeWhile (· ≠ '#')) digits
  | [] =>
    match literal with
    | '0' :: 'x' :: digits | '0' :: 'X' :: digits => readNumeral 16 digits
    | '0' :: _ :: _ =>
      match readNumeral 8 literal with
      | .ok n => .ok n
      | .error _ => .error (.malformed (.badDigit (String.ofList literal)))
    | _ => readNumeral 10 literal

/-! ## Tokens -/

/-- An operator or a punctuation mark, as it is written. The signs and the comma are the operators
with two operands, whatever their place gives them to do. -/
inductive Symbol where
  | binary (op : BinaryOp)
  | assign (op : Option BinaryOp)
  | step (step : Step)
  | not
  | complement
  | question
  | colon
  | openParen
  | closeParen
  deriving DecidableEq, Repr

/-- A token. A literal keeps its text until it is parsed. -/
inductive Token where
  | literal (text : String)
  | name (name : String)
  | symbol (symbol : Symbol)
  deriving DecidableEq, Repr

/-- How a symbol is written. -/
def Symbol.spelling : Symbol → String
  | .binary op => op.spelling
  | .assign op => assignmentSpelling op
  | .step s => s.spelling
  | .not => "!"
  | .complement => "~"
  | .question => "?"
  | .colon => ":"
  | .openParen => "("
  | .closeParen => ")"

/-- How a token is written. -/
def Token.spelling : Token → String
  | .literal text => text
  | .name text => text
  | .symbol s => s.spelling

/-- Every symbol, longer ones first. -/
def symbols : List Symbol := [
  .assign (some .shiftLeft), .assign (some .shiftRight),
  .binary .power, .step .up, .step .down, .binary .shiftLeft, .binary .shiftRight,
  .binary .lessEqual, .binary .greaterEqual, .binary .equal, .binary .notEqual, .binary .and,
  .binary .or, .assign (some .add), .assign (some .subtract), .assign (some .multiply),
  .assign (some .divide), .assign (some .remainder), .assign (some .bitAnd),
  .assign (some .bitXor), .assign (some .bitOr),
  .binary .add, .binary .subtract, .binary .multiply, .binary .divide, .binary .remainder,
  .binary .less, .binary .greater, .assign none, .not, .complement, .binary .bitAnd,
  .binary .bitXor, .binary .bitOr, .question, .colon, .openParen, .closeParen, .binary .comma]

/-- Separates tokens. -/
def isSeparator (c : Char) : Bool := c == ' ' || c == '\t' || c == '\n'

/-- A hexadecimal digit. -/
def isHexDigit (c : Char) : Bool := (digitValue? 16 c).isSome

/-- How many characters of the text make up the literal at its front. -/
def literalLength (text : List Char) : Nat :=
  let count := (text.takeWhile Text.isAsciiDigit).length
  match text.drop count with
  | '#' :: rest =>
    match (rest.takeWhile isBaseDigit).length with
    | 0 => count
    | n => count + 1 + n
  | _ =>
    match text with
    | '0' :: c :: rest =>
      if c == 'x' || c == 'X' then
        match (rest.takeWhile isHexDigit).length with
        | 0 => count
        | n => 2 + n
      else count
    | _ => count

/-- The first word of a text, for a diagnostic. -/
def firstWord (text : List Char) : String :=
  String.ofList ((text.dropWhile Text.isBlank).takeWhile fun c => !Text.isBlank c)

/-- The token at the front of a text and its length, which is not zero. -/
def Token.first (text : List Char) : Except Error (Token × Nat) :=
  match text with
  | [] => .error (.malformed .operandExpected)
  | c :: _ =>
    if Text.isDigit c then
      if Text.isAsciiDigit c then
        let n := literalLength text
        if (text.drop n).head?.any fun c => Text.isAlphanumeric c || c == '_' then
          .error (.malformed (.badDigit (firstWord text)))
        else .ok (.literal (String.ofList (text.take n)), n)
      else .error .foreignDigit
    else
      match takeName text with
      | some (taken, _) => .ok (.name (String.ofList taken), taken.length)
      | none =>
        match symbols.find? fun s => s.spelling.toList.isPrefixOf text with
        | some s => .ok (.symbol s, s.spelling.length)
        | none => .error (.malformed (.badOperator (String.ofList text)))

/-- The tokens of a text, after those already found, which are held backwards. -/
def tokensFrom (found : List Token) (text : List Char) : Except Error (List Token) :=
  match text with
  | [] => .ok found.reverse
  | c :: rest =>
    if isSeparator c then tokensFrom found rest
    else
      match Token.first (c :: rest) with
      | .error e => .error e
      | .ok (token, n) => tokensFrom (token :: found) (rest.drop (n - 1))
termination_by text.length

/-- The tokens of a text. -/
def tokens (text : String) : Except Error (List Token) := tokensFrom [] text.toList

end VirtualShell.Arith
