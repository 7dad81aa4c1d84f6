import VirtualShell.Proofs.Arith.Token
import VirtualShell.Proofs.Reading.Extent

/-!
# The source text of a script

A script whose words stand between single quotes has a text of its own: every token is followed by a
blank, every statement ends with a semicolon or an ampersand at the end of a line, and so do the
openings of compound commands. A function is defined by its name and parentheses, or by `function`
where its name is a keyword.

* `Script.tokens`, `Script.source` — the tokens and the text of a script.
* `Statement.listTokens_eq` and the like — the tokens of a list are those of its members.
* `Command.WellFormed` — the commands that the grammar has, nested so many levels deep.
* **`Script.WellFormed`** — the scripts of such commands, which nest less deep than the limit.
-/

namespace VirtualShell

/-! ## Tokens -/

/-- A word that is a text between single quotes. -/
def Word.inQuotes (text : String) : Word := ⟨[.quoted text], "'" ++ text ++ "'"⟩

namespace Token

/-- A word on a line. -/
def ofWord (line : Nat) (text : String) : Token := ⟨.word, text, line, none, none⟩

/-- A word that belongs to the grammar. -/
def keyword (text : String) : Token := ofWord 0 text

/-- A token that is spelled as its kind says. -/
def ofKind (kind : TokenKind) : Token := ⟨kind, kind.spelling, 0, none, none⟩

/-- The end of a line. -/
def lineEnd : Token := ofKind .newline

/-- The text of a token, and a blank after it. -/
def source (t : Token) : List Char :=
  ((t.descriptor.map toString).getD "").toList ++ t.text.toList ++ [' ']

end Token

/-- The text of an assignment. -/
def Assignment.text (a : Assignment) : String :=
  a.name ++ (if a.append then "+=" else "=") ++ (a.value.map Word.raw).getD ""

/-- A redirection to a word. Here-documents are left out. -/
def Redirection.tokens (line : Nat) (r : Redirection) : List Token :=
  match r.target with
  | .word w => [⟨.redirect r.op, r.op.spelling, line, r.descriptor, none⟩, .ofWord line w.raw]
  | .hereDocument .. => []

/-- Assignments, the name, the arguments and the redirections, all on the line of the command. -/
def SimpleCommand.tokens (c : SimpleCommand) : List Token :=
  c.assignments.map (fun a => .ofWord c.line a.text) ++
    (c.name.toList ++ c.args).map (fun w => .ofWord c.line w.raw) ++
    c.redirections.flatMap (Redirection.tokens c.line)

/-- The words that mean something at the start of a command. -/
def keywords : List String :=
  ["!", "if", "for", "while", "until", "case", "function", "\x7b", "[[", "then", "else", "elif",
    "fi", "do", "done", "esac", "in", "\x7d", "]]"]

/-- The beginning of a function definition. -/
def functionHead (name : String) : List Token :=
  if keywords.contains name then [.keyword "function", .keyword name]
  else [.keyword name, .ofKind .openParen, .ofKind .closeParen]

/-- The keyword of a loop. -/
def LoopKind.keyword : LoopKind → String
  | .whileTrue => "while"
  | .untilTrue => "until"

/-- The words of a loop, which runs over the positional parameters when there are none. -/
def loopWords (words : Option (List Word)) : List Token :=
  match words with
  | none => []
  | some words => .keyword "in" :: words.map fun w => .ofWord 0 w.raw

/-- The patterns of a `case` clause with bars between them. -/
def patternTokens : List Word → List Token
  | [] => []
  | first :: rest =>
    .ofWord 0 first.raw :: rest.flatMap fun w => [.ofKind .pipe, .ofWord 0 w.raw]

mutual

/-- The tokens of a statement and of the line end after it. -/
def Statement.tokens : Statement → List Token
  | ⟨first, rest, background⟩ =>
    Pipeline.tokens first ++ Statement.linkTokens rest ++
      [.ofKind (if background then .ampersand else .semicolon), .lineEnd]
termination_by structural statement => statement

/-- The pipelines after the first one of a statement. -/
def Statement.linkTokens : List (Connective × Pipeline) → List Token
  | [] => []
  | (op, pipeline) :: rest =>
    .ofKind (.connective op) :: (Pipeline.tokens pipeline ++ Statement.linkTokens rest)
termination_by structural rest => rest

/-- The tokens of a list of statements. -/
def Statement.listTokens : List Statement → List Token
  | [] => []
  | statement :: rest => Statement.tokens statement ++ Statement.listTokens rest
termination_by structural statements => statements

/-- The tokens of a pipeline. -/
def Pipeline.tokens : Pipeline → List Token
  | ⟨[], _⟩ => []
  | ⟨first :: rest, negated⟩ =>
    (if negated then [.keyword "!"] else []) ++ (Command.tokens first ++ Command.stageTokens rest)
termination_by structural pipeline => pipeline

/-- The commands after the first one of a pipeline. -/
def Command.stageTokens : List Command → List Token
  | [] => []
  | command :: rest => .ofKind .pipe :: (Command.tokens command ++ Command.stageTokens rest)
termination_by structural commands => commands

/-- The tokens of a command. -/
def Command.tokens : Command → List Token
  | .simple c => c.tokens
  | .compound body redirections =>
    Compound.tokens body ++ redirections.flatMap (Redirection.tokens 0)
  | .function name body redirections =>
    functionHead name ++ (Compound.tokens body ++ redirections.flatMap (Redirection.tokens 0))
termination_by structural command => command

/-- The tokens of a compound command. Arithmetic commands are left out. -/
def Compound.tokens : Compound → List Token
  | .ifElse clauses none => Clause.listTokens clauses "if" ++ [.keyword "fi"]
  | .ifElse clauses (some orElse) =>
    Clause.listTokens clauses "if" ++ .keyword "else" :: .lineEnd :: Statement.listTokens orElse ++
      [.keyword "fi"]
  | .forEach name words body =>
    .keyword "for" :: .keyword name :: loopWords words ++
      .lineEnd :: .keyword "do" :: .lineEnd :: Statement.listTokens body ++ [.keyword "done"]
  | .loop kind condition body =>
    .keyword kind.keyword :: Statement.listTokens condition ++
      .keyword "do" :: .lineEnd :: Statement.listTokens body ++ [.keyword "done"]
  | .case subject items =>
    .keyword "case" :: .ofWord 0 subject.raw :: .keyword "in" :: .lineEnd ::
      CaseItem.listTokens items ++ [.keyword "esac"]
  | .group body =>
    .keyword "\x7b" :: .lineEnd :: Statement.listTokens body ++ [.keyword "\x7d"]
  | .test words => .keyword "[[" :: words.map (fun w => .ofWord 0 w.raw) ++ [.keyword "]]"]
  | .arithmetic _ => []
  | .forArithmetic _ _ _ _ => []
termination_by structural body => body

/-- The clauses of an `if`, the first one after the given keyword. -/
def Clause.listTokens : List Clause → String → List Token
  | [], _ => []
  | ⟨condition, body⟩ :: rest, keyword =>
    .keyword keyword :: Statement.listTokens condition ++
      .keyword "then" :: .lineEnd :: Statement.listTokens body ++ Clause.listTokens rest "elif"
termination_by structural clauses => clauses

/-- The clauses of a `case`. -/
def CaseItem.listTokens : List CaseItem → List Token
  | [] => []
  | ⟨patterns, body, ending⟩ :: rest =>
    patternTokens patterns ++ .ofKind .closeParen :: .lineEnd :: Statement.listTokens body ++
      .ofKind (.clauseEnd ending) :: .lineEnd :: CaseItem.listTokens rest
termination_by structural items => items

end

/-- The tokens of a clause of an `if`. -/
def Clause.tokens (keyword : String) (clause : Clause) : List Token :=
  .keyword keyword :: clause.condition.flatMap Statement.tokens ++
    .keyword "then" :: .lineEnd :: clause.body.flatMap Statement.tokens

/-- The tokens of a clause of a `case`. -/
def CaseItem.tokens (item : CaseItem) : List Token :=
  patternTokens item.patterns ++ .ofKind .closeParen :: .lineEnd ::
    item.body.flatMap Statement.tokens ++ [.ofKind (.clauseEnd item.ending), .lineEnd]

@[simp] theorem Statement.listTokens_eq (statements : List Statement) :
    listTokens statements = statements.flatMap tokens := by
  induction statements with
  | nil => rfl
  | cons statement rest ih => rw [listTokens, ih, List.flatMap_cons]

@[simp] theorem Statement.linkTokens_eq (rest : List (Connective × Pipeline)) :
    linkTokens rest =
      rest.flatMap fun link => .ofKind (.connective link.1) :: link.2.tokens := by
  induction rest with
  | nil => rfl
  | cons link rest ih => rw [linkTokens, ih, List.flatMap_cons, List.cons_append]

@[simp] theorem Command.stageTokens_eq (commands : List Command) :
    stageTokens commands = commands.flatMap fun command => .ofKind .pipe :: command.tokens := by
  induction commands with
  | nil => rfl
  | cons command rest ih => rw [stageTokens, ih, List.flatMap_cons, List.cons_append]

@[simp] theorem Clause.listTokens_cons (clause : Clause) (rest : List Clause) (keyword : String) :
    listTokens (clause :: rest) keyword =
      clause.tokens keyword ++ rest.flatMap (tokens "elif") := by
  induction rest generalizing clause keyword with
  | nil =>
    obtain ⟨condition, body⟩ := clause
    simp [listTokens, tokens]
  | cons next rest ih =>
    obtain ⟨condition, body⟩ := clause
    rw [listTokens, ih next "elif"]
    simp [tokens]

@[simp] theorem CaseItem.listTokens_eq (items : List CaseItem) :
    listTokens items = items.flatMap tokens := by
  induction items with
  | nil => rfl
  | cons item rest ih =>
    obtain ⟨patterns, body, ending⟩ := item
    simp [listTokens, ih, tokens]

/-- The tokens of a script. -/
def Script.tokens (script : Script) : List Token := script.statements.flatMap Statement.tokens

/-- **The source text of a script.** -/
def Script.source (script : Script) : String :=
  String.ofList (script.tokens.flatMap Token.source)

/-! ## Well-formed scripts -/

/-- A text between single quotes, which does not hold one. -/
def Word.IsQuoted (w : Word) : Prop := ∃ text : String, '\'' ∉ text.toList ∧ w = .inQuotes text

/-- A word in which nothing is quoted or expanded. -/
structure IsPlainWord (text : String) : Prop where
  nonempty : text ≠ ""
  start : text.toList.head? ≠ some '#'
  chars : ∀ c ∈ text.toList, isMetacharacter c = false ∧ c ∉ Delimiter.marks

/-- A name and a value, if any. -/
structure Assignment.WellFormed (a : Assignment) : Prop where
  name : Arith.isName a.name = true
  value : ∀ w ∈ a.value, w.IsQuoted

/-- A redirection to a word. A descriptor stands only before an operator that starts with `<` or
`>`, and is a numeral that can be read. -/
structure Redirection.WellFormed (r : Redirection) : Prop where
  op : r.op.takesHereDocument = false
  target : ∃ w : Word, w.IsQuoted ∧ r.target = .word w
  starts : ∀ n ∈ r.descriptor, ∃ c ∈ r.op.spelling.toList.head?, c = '<' ∨ c = '>'
  digits : ∀ n ∈ r.descriptor, (toString n).length ≤ Text.maxDecimalDigits

/-- Arguments need a name, and there is something at least. -/
structure SimpleCommand.WellFormed (c : SimpleCommand) : Prop where
  assignments : ∀ a ∈ c.assignments, a.WellFormed
  words : ∀ w ∈ c.name.toList ++ c.args, w.IsQuoted
  named : c.name = none → c.args = []
  redirections : ∀ r ∈ c.redirections, r.WellFormed
  nonempty : c.assignments ≠ [] ∨ c.name ≠ none ∨ c.redirections ≠ []

section

variable (P : Command → Prop)

/-- A pipeline of some commands, of which there is one at least. -/
structure Pipeline.Of (pipeline : Pipeline) : Prop where
  nonempty : pipeline.commands ≠ []
  commands : ∀ c ∈ pipeline.commands, P c

/-- A statement of some commands. -/
structure Statement.Of (statement : Statement) : Prop where
  first : statement.first.Of P
  rest : ∀ link ∈ statement.rest, link.2.Of P

/-- A list of statements of some commands that is not empty. -/
structure Statement.BodyOf (body : List Statement) : Prop where
  nonempty : body ≠ []
  statements : ∀ s ∈ body, s.Of P

/-- A clause of a `case`, whose list of statements may be empty. -/
structure CaseItem.Of (item : CaseItem) : Prop where
  nonempty : item.patterns ≠ []
  patterns : ∀ w ∈ item.patterns, w.IsQuoted
  body : ∀ s ∈ item.body, s.Of P

/-- The compound commands of some commands; arithmetic ones are left out. -/
def Compound.Of : Compound → Prop
  | .ifElse clauses orElse => clauses ≠ [] ∧
    (∀ clause ∈ clauses, Statement.BodyOf P clause.condition ∧ Statement.BodyOf P clause.body) ∧
    ∀ list ∈ orElse, Statement.BodyOf P list
  | .forEach name words body =>
    Arith.isName name = true ∧ (∀ list ∈ words, ∀ w ∈ list, w.IsQuoted) ∧ Statement.BodyOf P body
  | .loop _ condition body => Statement.BodyOf P condition ∧ Statement.BodyOf P body
  | .case subject items => subject.IsQuoted ∧ ∀ item ∈ items, item.Of P
  | .group body => Statement.BodyOf P body
  | .test words => words ≠ [] ∧ ∀ w ∈ words, w.IsQuoted
  | .arithmetic _ => False
  | .forArithmetic _ _ _ _ => False

end

/-- **A command of the grammar** that nests so many levels deep at most. A simple command is one
level, and so are a compound command around others and a function around its body. -/
def Command.WellFormed : (depth : Nat) → Command → Prop
  | 0, _ => False
  | _ + 1, .simple c => c.WellFormed
  | depth + 1, .compound body redirections =>
    body.Of (Command.WellFormed depth) ∧ ∀ r ∈ redirections, r.WellFormed
  | depth + 1, .function name body redirections =>
    IsPlainWord name ∧ Command.WellFormed depth (.compound body redirections)

/-- **A script of the grammar** that nests less deep than the limit. -/
def Script.WellFormed (script : Script) : Prop :=
  ∀ s ∈ script.statements, s.Of (Command.WellFormed (maxNesting - 1))

end VirtualShell
