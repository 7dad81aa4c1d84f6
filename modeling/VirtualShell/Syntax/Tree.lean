import VirtualShell.Token.Basic

/-!
# Scripts as trees

A script is a list of statements; a statement joins pipelines by `&&` and `||`; a pipeline feeds
commands into one another. Compound commands hold statements again, and words hold scripts inside
command substitutions, so all these types are defined together.
-/

namespace VirtualShell

/-- The two loops that are controlled by the status of a command. -/
inductive LoopKind where
  | whileTrue
  | untilTrue
  deriving DecidableEq, Repr

mutual

/-- A piece of a word. -/
inductive Part where
  /-- Unquoted text, which may hold glob characters. -/
  | literal (text : String)
  /-- Text between single quotes. -/
  | quoted (text : String)
  /-- A character after a backslash. -/
  | escaped (text : String)
  /-- Text between double quotes. -/
  | doubleQuoted (parts : List Part)
  /-- A parameter with at most one operation on its value. -/
  | parameter (name : String) (op : Option ParamOp)
  /-- The output of a script. -/
  | substitution (body : Script) (backtick : Bool)
  /-- The value of an arithmetic expression. -/
  | arithmetic (expression : Word)
  /-- A home directory at the start of a word. -/
  | tilde (user : Option String)

/-- A word: pieces whose expansions are joined, and the text it was read from. -/
structure Word where
  parts : List Part
  raw : String

/-- An operation on the value of a parameter. With a colon, an empty value counts as unset. -/
inductive ParamOp where
  | default (word : Word) (colon : Bool)
  | assign (word : Word) (colon : Bool)
  | alternative (word : Word) (colon : Bool)
  | error (word : Word) (colon : Bool)
  | length
  | removePrefix (pattern : Word) (longest : Bool)
  | removeSuffix (pattern : Word) (longest : Bool)
  | replace (pattern replacement : Word) (all : Bool)
  /-- The bounds stay text and are read when the parameter is expanded. -/
  | substring (offset : String) (length : Option String)

/-- A list of statements. -/
structure Script where
  statements : List Statement

/-- Pipelines joined by connectives. -/
structure Statement where
  first : Pipeline
  rest : List (Connective × Pipeline)
  background : Bool

/-- Commands that run one after another, each reading what the one before it wrote. -/
structure Pipeline where
  commands : List Command
  negated : Bool

/-- The assignment of a value, or of the old value with another one added. -/
structure Assignment where
  name : String
  value : Option Word
  append : Bool

/-- Where a redirection leads. -/
inductive Target where
  | word (word : Word)
  | hereDocument (delimiter : String) (content : Word) (quoted stripTabs : Bool)

/-- A redirection, with the file descriptor written before it. -/
structure Redirection where
  op : RedirectOp
  target : Target
  descriptor : Option Nat

/-- A condition and what is run when it holds. -/
structure Clause where
  condition : List Statement
  body : List Statement

/-- A clause of a `case`. -/
structure CaseItem where
  patterns : List Word
  body : List Statement
  ending : ClauseEnd

/-- A command that is a word with arguments, or only assignments and redirections. -/
structure SimpleCommand where
  assignments : List Assignment
  name : Option Word
  args : List Word
  redirections : List Redirection
  line : Nat

/-- A command made of other commands. -/
inductive Compound where
  | ifElse (clauses : List Clause) (orElse : Option (List Statement))
  /-- Without words the loop runs over the positional parameters. -/
  | forEach (name : String) (words : Option (List Word)) (body : List Statement)
  | forArithmetic (init condition update : Option Word) (body : List Statement)
  | loop (kind : LoopKind) (condition body : List Statement)
  | case (subject : Word) (items : List CaseItem)
  | group (body : List Statement)
  | arithmetic (expression : Word)
  | test (words : List Word)

/-- A command. The redirections of a function definition apply to its body at every call. -/
inductive Command where
  | simple (command : SimpleCommand)
  | compound (body : Compound) (redirections : List Redirection)
  | function (name : String) (body : Compound) (redirections : List Redirection)

end

/-- A word of one piece of plain text. -/
def Word.ofLiteral (text : String) : Word := ⟨[.literal text], text⟩

end VirtualShell
