import VirtualShell.Text.Integer
import VirtualShell.Token.Delimiter

/-!
# What can be wrong with a script

A script is refused for a lexical reason (a delimiter left open, nesting past the bound, a
parameter expansion that is none), for a grammatical one, or because a numeral in it cannot be
read. The causes are data; `SyntaxError.message` words them.
-/

namespace VirtualShell

/-- The deepest nesting of commands, words and substitutions. -/
def maxNesting : Nat := 64

/-- The longest script, in characters. -/
def maxScriptLength : Nat := 1000000

/-- The most tokens of a script, the end of input included. -/
def maxTokenCount : Nat := 100000

/-- A reason found while looking at characters. -/
inductive LexicalCause where
  | unclosed (d : Delimiter)
  | nestingTooDeep
  | badSubstitution (content : String)
  deriving DecidableEq, Repr

/-- A reason found while looking at tokens. -/
inductive GrammarCause where
  | lexical (cause : LexicalCause)
  | scriptTooLarge (length : Nat)
  | tooManyTokens (count : Nat)
  | unexpectedEnd
  | unexpectedToken (text : String)
  | missingKeyword (keyword : String)
  | badArithmeticFor
  | badIdentifier (name : String)
  | badFunctionBody (name : String)
  | unclosedConditional
  | emptyConditional
  | missingHereDocument
  deriving DecidableEq, Repr

/-- A refused script, with the line where that is known. -/
inductive SyntaxError where
  | lexical (cause : LexicalCause) (line : Nat)
  | grammar (cause : GrammarCause) (line : Option Nat)
  | integer (cause : Text.IntegerError)
  deriving DecidableEq, Repr

/-- The character that closes a delimiter. -/
def Delimiter.closer : Delimiter → Char
  | .single => '\''
  | .double => '"'
  | .backtick => '`'
  | .paren => ')'
  | .brace => '}'

/-- The wording of a lexical reason. -/
def LexicalCause.message : LexicalCause → String
  | .unclosed d => "unexpected EOF while looking for matching `" ++ d.closer.toString ++ "'"
  | .nestingTooDeep =>
    "syntax error: nesting too deep (more than " ++ toString maxNesting ++ " levels)"
  | .badSubstitution content => "$\x7b" ++ content ++ "\x7d: bad substitution"

/-- The wording of a grammatical reason. -/
def GrammarCause.message : GrammarCause → String
  | .lexical cause => cause.message
  | .scriptTooLarge length => "script too large (" ++ toString length ++ " bytes)"
  | .tooManyTokens count => "too many tokens (" ++ toString count ++ ")"
  | .unexpectedEnd => "syntax error: unexpected end of file"
  | .unexpectedToken text => "syntax error near unexpected token `" ++ text ++ "'"
  | .missingKeyword keyword =>
    "syntax error: unexpected end of file, expected `" ++ keyword ++ "'"
  | .badArithmeticFor => "syntax error: invalid arithmetic for loop"
  | .badIdentifier name => "`" ++ name ++ "': not a valid identifier"
  | .badFunctionBody name =>
    "syntax error: function body of `" ++ name ++ "' must be a compound command"
  | .unclosedConditional => "syntax error: unexpected end of file, expected `]]'"
  | .emptyConditional => "syntax error: empty [[ ]] expression"
  | .missingHereDocument => "here-document without body"

/-- The wording of a refused script. -/
def SyntaxError.message : SyntaxError → String
  | .lexical cause _ => cause.message
  | .grammar cause _ => cause.message
  | .integer cause => cause.message

end VirtualShell
