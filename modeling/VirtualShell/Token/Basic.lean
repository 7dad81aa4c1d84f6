/-!
# Tokens

A script is read as a sequence of words, operators and line ends. A word keeps its text with all
quotes; an arithmetic command keeps the text between its double parentheses. A here-document is
attached to the operator that introduces it.
-/

namespace VirtualShell

/-! ## Operators

The operators that connect commands, redirect their files and end the clauses of a `case`, each as
a value of its own with its spelling. -/

/-- Joins two pipelines of a statement. -/
inductive Connective where
  | and
  | or
  deriving DecidableEq, Repr

/-- How a connective is written. -/
def Connective.spelling : Connective → String
  | .and => "&&"
  | .or => "||"

/-- What a redirection does with its file descriptor. -/
inductive RedirectOp where
  | input
  | output
  | append
  | clobber
  | hereDocument
  | hereDocumentTabs
  | hereString
  | duplicateOutput
  | duplicateInput
  | bothOutput
  | bothAppend
  deriving DecidableEq, Repr

/-- How a redirection operator is written. -/
def RedirectOp.spelling : RedirectOp → String
  | .input => "<"
  | .output => ">"
  | .append => ">>"
  | .clobber => ">|"
  | .hereDocument => "<<"
  | .hereDocumentTabs => "<<-"
  | .hereString => "<<<"
  | .duplicateOutput => ">&"
  | .duplicateInput => "<&"
  | .bothOutput => "&>"
  | .bothAppend => "&>>"

/-- The operators that a here-document follows. -/
def RedirectOp.takesHereDocument (op : RedirectOp) : Bool :=
  op == .hereDocument || op == .hereDocumentTabs

/-- What happens after the body of a `case` clause: the statement ends, the next body runs
untested, or the later patterns are tried. -/
inductive ClauseEnd where
  | stop
  | fallThrough
  | resume
  deriving DecidableEq, Repr

/-- How the end of a clause is written. -/
def ClauseEnd.spelling : ClauseEnd → String
  | .stop => ";;"
  | .fallThrough => ";&"
  | .resume => ";;&"

/-! ## Tokens -/

/-- What a token is. -/
inductive TokenKind where
  | word
  | newline
  | semicolon
  | ampersand
  | pipe
  | connective (op : Connective)
  | redirect (op : RedirectOp)
  | clauseEnd (how : ClauseEnd)
  | openParen
  | closeParen
  | arithmetic
  deriving DecidableEq, Repr

/-- The spelling of a token whose kind fixes it; words and arithmetic commands have none. -/
def TokenKind.spelling : TokenKind → String
  | .word => ""
  | .newline => "\n"
  | .semicolon => ";"
  | .ampersand => "&"
  | .pipe => "|"
  | .connective op => op.spelling
  | .redirect op => op.spelling
  | .clauseEnd how => how.spelling
  | .openParen => "("
  | .closeParen => ")"
  | .arithmetic => ""

/-- A here-document: its delimiter without quotes, whether the delimiter was quoted, whether
leading tabs are dropped, and its lines. -/
structure HereDocument where
  delimiter : String
  quoted : Bool
  stripTabs : Bool
  body : String
  deriving DecidableEq, Repr

/-- A token, the line it is reported on, and for a redirection the file descriptor written before
it and the here-document it introduces. -/
structure Token where
  kind : TokenKind
  text : String
  line : Nat
  descriptor : Option Nat
  hereDocument : Option HereDocument
  deriving DecidableEq, Repr

/-- The tokens of a script and the line on which it ends. -/
structure TokenStream where
  tokens : List Token
  lastLine : Nat
  deriving Repr

end VirtualShell
