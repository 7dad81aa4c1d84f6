import VirtualShell.Reader
import VirtualShell.Syntax.Error
import VirtualShell.Syntax.Name
import VirtualShell.Syntax.Tree
import VirtualShell.Token.Lexer

/-!
# From tokens to scripts

A recursive descent parser. Inside a list of statements a command ends at an operator or a line
end, and the list itself ends at a closing parenthesis, at the end of a `case` clause or at a
keyword that the enclosing construct waits for.

Commands nest inside commands and, through substitutions, inside words. Everything here is written
over a `Level`, which parses the words and commands one level further in: `Parser.command` is the
parser of commands of this level. So no function calls itself through nesting, and the bound on
nesting is the number of levels. The pieces that must consume a token, so that loops over them end,
return a `Rest`; all others are `TokenReader`s.
-/

namespace VirtualShell

/-! ## Levels -/

/-- The line of the next token, or the last line of the script when none is left. -/
def lineOfNext (lastLine : Nat) : List Token → Nat
  | [] => lastLine
  | t :: _ => t.line

/-- How quoting changes the reading of a word: not at all, as between double quotes, or as in
here-documents and arithmetic, where a double quote is an ordinary character. -/
inductive Quoting where
  | unquoted
  | double
  | hereDocument
  deriving DecidableEq, Repr

/-- The parsers of the words and commands one level further in. -/
structure Level where
  parts : Quoting → List Char → Except SyntaxError (List Part)
  command : (lastLine : Nat) → (tokens : List Token) →
    Except SyntaxError (Command × Rest tokens)

/-- Takes tokens off the front of a list. -/
abbrev TokenReader := Reader SyntaxError Token

namespace Reader

/-- Drop line ends. -/
def skipNewlines : TokenReader Unit := skipWhile fun t => t.kind == .newline

/-- Drop line ends and semicolons. -/
def skipSeparators : TokenReader Unit :=
  skipWhile fun t => t.kind == .newline || t.kind == .semicolon

end Reader

/-- What a parser of one script knows: the level further in and the line on which the script
ends. -/
structure Parser where
  lower : Level
  lastLine : Nat

namespace Parser

variable {α : Type}

/-! ## Errors and single tokens -/

/-- The refusal of the next token. -/
def unexpectedAt (p : Parser) : List Token → SyntaxError
  | [] => .grammar .unexpectedEnd (some p.lastLine)
  | t :: _ =>
    let text := if t.kind == .newline then "newline" else t.text
    .grammar (.unexpectedToken text) (some t.line)

/-- **Lexical faults inside a script.** A fault on the first line of a word is reported on the line
of the next token. -/
def relocate (p : Parser) (tokens : List Token) : SyntaxError → SyntaxError
  | .lexical cause line =>
    .grammar (.lexical cause) (some (if line != 1 then line else lineOfNext p.lastLine tokens))
  | e => e

/-- Run something that looks at no tokens. -/
def lift (p : Parser) (r : Except SyntaxError α) : TokenReader α := fun tokens =>
  match r with
  | .error e => .error (p.relocate tokens e)
  | .ok a => .ok (a, ⟨tokens, Nat.le_refl _⟩)

/-- Refuse the next token. -/
def unexpected (p : Parser) : TokenReader α := fun tokens => .error (p.unexpectedAt tokens)

/-- The next token is the given word. -/
def atWord (text : String) : List Token → Bool
  | t :: _ => t.kind == .word && t.text == text
  | [] => false

/-- Take the next token if it is of the given kind. -/
def expect (p : Parser) (kind : TokenKind) : TokenReader Token := fun tokens =>
  match tokens with
  | t :: rest =>
    if t.kind == kind then .ok (t, ⟨rest, by simp⟩) else .error (p.unexpectedAt (t :: rest))
  | [] => .error (p.unexpectedAt [])

/-- Take the next token if it is the given word. -/
def keyword (p : Parser) (text : String) : TokenReader Unit := fun tokens =>
  match tokens with
  | t :: rest =>
    if t.kind == .word && t.text == text then .ok ((), ⟨rest, by simp⟩)
    else .error (p.unexpectedAt (t :: rest))
  | [] => .error (.grammar (.missingKeyword text) (some p.lastLine))

/-- Take the given word if it comes next. -/
def keyword? (text : String) : TokenReader Bool := fun tokens =>
  match tokens with
  | t :: rest =>
    if t.kind == .word && t.text == text then .ok (true, ⟨rest, by simp⟩)
    else .ok (false, ⟨t :: rest, Nat.le_refl _⟩)
  | [] => .ok (false, ⟨[], Nat.le_refl _⟩)

/-- The word that a text spells. -/
def word (p : Parser) (text : String) : TokenReader Word :=
  p.lift ((p.lower.parts .unquoted text.toList).map fun parts => ⟨parts, text⟩)

/-- Text in which only expansions count, read as one double-quoted piece. -/
def expandedText (p : Parser) (text : String) : TokenReader Word :=
  p.lift ((p.lower.parts .hereDocument text.toList).map fun parts =>
    ⟨[.doubleQuoted parts], text⟩)

/-! ## Lists, statements and pipelines -/

/-- A list of statements ends here: at the end of the script, a closing parenthesis, the end of a
`case` clause, or one of the given keywords. -/
def atListEnd (stops : List String) : List Token → Bool
  | [] => true
  | t :: _ =>
    match t.kind with
    | .closeParen => true
    | .clauseEnd _ => true
    | .word => stops.contains t.text
    | _ => false

/-- The command one level further in. -/
def innerCommand (p : Parser) : TokenReader Command := fun tokens =>
  match p.lower.command p.lastLine tokens with
  | .error e => .error e
  | .ok (c, ⟨rest, h⟩) => .ok (c, ⟨rest, Nat.le_of_lt h⟩)

/-- Further commands of a pipeline; `done` holds the earlier ones, last first. -/
def stages (p : Parser) (done : List Command) : TokenReader (List Command) :=
  Reader.repeatFrom done fun done t =>
    if t.kind == .pipe then some do
      Reader.skipNewlines
      let c ← p.innerCommand
      pure (c :: done)
    else none

/-- A pipeline. Every `!` before it turns its status around. -/
def pipeline (p : Parser) (negated : Bool) (tokens : List Token) :
    Except SyntaxError (Pipeline × Rest tokens) :=
  match tokens with
  | t :: tokens' =>
    if t.kind == .word && t.text == "!" then
      match p.pipeline (!negated) tokens' with
      | .error e => .error e
      | .ok (r, ⟨rest, h⟩) => .ok (r, ⟨rest, by simp only [List.length_cons]; omega⟩)
    else
      match p.lower.command p.lastLine (t :: tokens') with
      | .error e => .error e
      | .ok (c, ⟨rest, h⟩) =>
        match p.stages [c] rest with
        | .error e => .error e
        | .ok (cs, ⟨rest', h'⟩) => .ok (⟨cs.reverse, negated⟩, ⟨rest', by omega⟩)
  | [] =>
    match p.lower.command p.lastLine [] with
    | .error e => .error e
    | .ok (c, ⟨rest, h⟩) => .ok (⟨[c], negated⟩, ⟨rest, h⟩)

/-- The connective that a token is. -/
def connective? (t : Token) : Option Connective :=
  match t.kind with
  | .connective op => some op
  | _ => none

/-- Further pipelines of a statement, each with the connective before it, last first. -/
def links (p : Parser) : TokenReader (List (Connective × Pipeline)) :=
  Reader.repeatFrom [] fun done t =>
    (connective? t).map fun op => do
      Reader.skipNewlines
      let r ← fun tokens =>
        match p.pipeline false tokens with
        | .error e => .error e
        | .ok (r, ⟨rest, h⟩) => .ok (r, ⟨rest, Nat.le_of_lt h⟩)
      pure ((op, r) :: done)

/-- A statement, which does not run in the background unless an ampersand follows. -/
def statement (p : Parser) (tokens : List Token) :
    Except SyntaxError (Statement × Rest tokens) :=
  match p.pipeline false tokens with
  | .error e => .error e
  | .ok (first, ⟨rest, h⟩) =>
    match p.links rest with
    | .error e => .error e
    | .ok (more, ⟨rest', h'⟩) => .ok (⟨first, more.reverse, false⟩, ⟨rest', by omega⟩)

/-- **A list of statements** up to where it ends; `done` holds the earlier ones, last first. After a
statement comes a semicolon, a line end, an ampersand, or the end of the list. -/
def statements (p : Parser) (stops : List String) {start : List Token} (done : List Statement)
    (tokens : Tail start) : Except SyntaxError (List Statement × Tail start) :=
  let next := tokens.1.dropWhile fun t => t.kind == .newline
  have hnext : next.length ≤ tokens.1.length := (tokens.1.dropWhile_sublist _).length_le
  have hstart : tokens.1.length ≤ start.length := tokens.2
  if atListEnd stops next then .ok (done.reverse, ⟨next, by omega⟩)
  else
    match p.statement next with
    | .error e => .error e
    | .ok (s, ⟨[], h⟩) => .ok ((s :: done).reverse, ⟨[], by simp⟩)
    | .ok (s, ⟨t :: rest, h⟩) =>
      have hrest : rest.length + 1 < next.length := by simpa using h
      if t.kind == .semicolon || t.kind == .newline then
        p.statements stops (s :: done) ⟨rest, by omega⟩
      else if t.kind == .ampersand then
        p.statements stops ({ s with background := true } :: done) ⟨rest, by omega⟩
      else if atListEnd stops (t :: rest) then
        .ok ((s :: done).reverse, ⟨t :: rest, by simp only [List.length_cons]; omega⟩)
      else .error (p.unexpectedAt (t :: rest))
termination_by tokens.1.length

/-- A list of statements as a `TokenReader`. -/
def statementList (p : Parser) (stops : List String) : TokenReader (List Statement) := fun tokens =>
  p.statements stops [] ⟨tokens, Nat.le_refl _⟩

/-- A list of at least one statement. -/
def body (p : Parser) (stops : List String) : TokenReader (List Statement) := do
  let list ← p.statementList stops
  if list.isEmpty then p.unexpected else pure list

/-! ## Redirections and simple commands -/

/-- The redirection whose operator was just taken. -/
def redirection (p : Parser) (operator : Token) (op : RedirectOp) : TokenReader Redirection := do
  let target ← p.expect .word
  if op.takesHereDocument then
    match operator.hereDocument with
    | none => Reader.fail (.grammar .missingHereDocument (some operator.line))
    | some doc =>
      let content ←
        if doc.quoted then pure ⟨[.quoted doc.body], doc.body⟩ else p.expandedText doc.body
      pure ⟨op, .hereDocument doc.delimiter content doc.quoted doc.stripTabs, operator.descriptor⟩
  else
    let target ← p.word target.text
    pure ⟨op, .word target, operator.descriptor⟩

/-- The redirections after a compound command. -/
def redirections (p : Parser) : TokenReader (List Redirection) := do
  let done ← Reader.repeatFrom [] fun done t =>
    match t.kind with
    | .redirect op => some do
      let r ← p.redirection t op
      pure (r :: done)
    | _ => none
  pure done.reverse

/-- Add a word to a simple command: an assignment as long as there is no command name, then the
name, then arguments. Lists are kept last first. -/
def addWord (p : Parser) (c : SimpleCommand) (text : String) : TokenReader SimpleCommand := do
  match c.name with
  | some _ =>
    let arg ← p.word text
    pure { c with args := arg :: c.args }
  | none =>
    match readAssignment? text with
    | some (name, append, value) =>
      let value ← if value.isEmpty then pure none else some <$> p.word value
      pure { c with assignments := ⟨name, value, append⟩ :: c.assignments }
    | none =>
      let name ← p.word text
      pure { c with name := some name }

/-- Add what starts with the given token to a simple command. -/
def simpleItem (p : Parser) (c : SimpleCommand) (t : Token) : Option (TokenReader SimpleCommand) :=
  match t.kind with
  | .redirect op => some do
    let r ← p.redirection t op
    pure { c with redirections := r :: c.redirections }
  | .word => some (p.addWord c t.text)
  | _ => none

/-! ## Compound commands -/

/-- The body of a loop. -/
def doGroup (p : Parser) : TokenReader (List Statement) := do
  Reader.skipSeparators
  p.keyword "do"
  let list ← p.body ["done"]
  p.keyword "done"
  pure list

/-- A condition, `then`, and what is run when it holds. -/
def clause (p : Parser) : TokenReader Clause := do
  let condition ← p.body ["then"]
  p.keyword "then"
  let list ← p.body ["elif", "else", "fi"]
  pure ⟨condition, list⟩

/-- The clauses of an `if`, after the first one. -/
def clauses (p : Parser) (first : Clause) : TokenReader (List Clause) := do
  let done ← Reader.repeatFrom [first] fun done t =>
    if t.kind == .word && t.text == "elif" then some ((· :: done) <$> p.clause) else none
  pure done.reverse

/-- What follows `if`. -/
def ifElse (p : Parser) : TokenReader Compound := do
  let first ← p.clause
  let clauses ← p.clauses first
  let orElse ← if ← keyword? "else" then some <$> p.body ["fi"] else pure none
  p.keyword "fi"
  pure (.ifElse clauses orElse)

/-- Words up to the first token that is none. -/
def wordList (p : Parser) : TokenReader (List Word) := do
  let done ← Reader.repeatFrom [] fun done t =>
    if t.kind == .word then some ((· :: done) <$> p.word t.text) else none
  pure done.reverse

/-- One of the three sections of an arithmetic `for`; a blank one is absent. -/
def section? (p : Parser) (text : List Char) : TokenReader (Option Word) :=
  let text := Text.strip text
  if text.isEmpty then pure none else some <$> p.expandedText (String.ofList text)

/-- What follows `for`. -/
def forLoop (p : Parser) : TokenReader Compound := do
  match ← Reader.peek with
  | some t =>
    if t.kind == .arithmetic then
      let _ ← p.expect .arithmetic
      match t.text.toList.splitOn ';' with
      | [init, condition, update] =>
        let init ← p.section? init
        let condition ← p.section? condition
        let update ← p.section? update
        let list ← p.doGroup
        pure (.forArithmetic init condition update list)
      | _ => Reader.fail (.grammar .badArithmeticFor (some t.line))
    else
      let t ← p.expect .word
      if !isValidName t.text then
        Reader.fail (.grammar (.badIdentifier t.text) (some t.line))
      else
        Reader.skipNewlines
        let words ← if ← keyword? "in" then some <$> p.wordList else pure none
        let list ← p.doGroup
        pure (.forEach t.text words list)
  | none => p.unexpected

/-- What follows `while` or `until`. -/
def conditionLoop (p : Parser) (kind : LoopKind) : TokenReader Compound := do
  let condition ← p.body ["do"]
  p.keyword "do"
  let list ← p.body ["done"]
  p.keyword "done"
  pure (.loop kind condition list)

/-- The patterns of a `case` clause, after the first one. -/
def patterns (p : Parser) (first : Word) : TokenReader (List Word) := do
  let done ← Reader.repeatFrom [first] fun done t =>
    if t.kind == .pipe then some do
      let t ← p.expect .word
      let w ← p.word t.text
      pure (w :: done)
    else none
  pure done.reverse

/-- What follows the first pattern of a `case` clause, whose text is given. -/
def caseItem (p : Parser) (first : String) : TokenReader CaseItem := do
  let first ← p.word first
  let patterns ← p.patterns first
  let _ ← p.expect .closeParen
  let list ← p.statementList ["esac"]
  let ending ← fun tokens =>
    match tokens with
    | { kind := .clauseEnd how, .. } :: rest => .ok (how, ⟨rest, by simp⟩)
    | tokens => .ok (.stop, ⟨tokens, Nat.le_refl _⟩)
  Reader.skipNewlines
  pure ⟨patterns, list, ending⟩

/-- The clauses of a `case` up to `esac`. A clause may have a parenthesis before its patterns. -/
def caseItems (p : Parser) : TokenReader (List CaseItem) := do
  let done ← Reader.repeatFrom [] fun done t =>
    if t.kind == .word then
      if t.text == "esac" then none else some ((· :: done) <$> p.caseItem t.text)
    else if t.kind == .openParen then some do
      let first ← p.expect .word
      let item ← p.caseItem first.text
      pure (item :: done)
    else some (Reader.fail (p.unexpectedAt [t]))
  match ← Reader.peek with
  | none => p.unexpected
  | some _ => pure done.reverse

/-- What follows `case`. -/
def caseOf (p : Parser) : TokenReader Compound := do
  let subject ← p.expect .word
  Reader.skipNewlines
  p.keyword "in"
  Reader.skipNewlines
  let items ← p.caseItems
  p.keyword "esac"
  let subject ← p.word subject.text
  pure (.case subject items)

/-- What follows an opening brace. -/
def group (p : Parser) : TokenReader Compound := do
  let list ← p.body ["\x7d"]
  p.keyword "\x7d"
  pure (.group list)

/-- **The operand after `=~`** keeps its raw text: parentheses and bars belong to the regular
expression. It ends at `]]`, `&&` or `||` outside of parentheses, and at a line end. -/
def regexOperand (depth : Nat) (raw : String) : List Token → String × List Token
  | [] => (raw, [])
  | t :: tokens =>
    if t.kind == .newline then (raw, t :: tokens)
    else if depth == 0 && (atWord "]]" (t :: tokens) || (connective? t).isSome) then
      (raw, t :: tokens)
    else
      match t.kind with
      | .openParen => regexOperand (depth + 1) (raw ++ t.text) tokens
      | .closeParen =>
        match depth with
        | 0 => (raw, t :: tokens)
        | depth + 1 => regexOperand depth (raw ++ t.text) tokens
      | .arithmetic => regexOperand depth (raw ++ "((" ++ t.text ++ "))") tokens
      | _ =>
        let fd := (t.descriptor.map toString).getD ""
        regexOperand depth (raw ++ fd ++ t.text) tokens

theorem regexOperand_length_le (depth : Nat) (raw : String) (tokens : List Token) :
    (regexOperand depth raw tokens).2.length ≤ tokens.length := by
  fun_induction regexOperand depth raw tokens <;> grind

/-- The operands that a word token inside `[[ ]]` stands for, last first. -/
def operandWord (p : Parser) (t : Token) : TokenReader (List Word) := do
  let w ← p.word t.text
  if t.text == "=~" then
    let raw ← fun tokens =>
      .ok ((regexOperand 0 "" tokens).1, ⟨_, regexOperand_length_le 0 "" tokens⟩)
    if raw.isEmpty then pure [w]
    else
      let operand ← p.word raw
      pure [operand, w]
  else pure [w]

/-- The operands between two pairs of parentheses inside `[[ ]]`, last first. -/
def innerOperands (p : Parser) (done : List Word) : List Token → TokenReader (List Word)
  | [] => pure done
  | t :: tokens => do
    let w ← if t.kind == .word then p.word t.text else pure (Word.ofLiteral t.text)
    p.innerOperands (w :: done) tokens

/-- The operands that one token inside `[[ ]]` stands for, last first. Two parentheses are two
groupings, not an arithmetic command. -/
def operands (p : Parser) (t : Token) : TokenReader (List Word) :=
  match t.kind with
  | .newline => pure []
  | .word => p.operandWord t
  | .arithmetic => do
    let inner ← p.lift (TokenStream.ofText t.text)
    let list ← p.innerOperands [] inner.tokens
    pure ([Word.ofLiteral ")", Word.ofLiteral ")"] ++ list ++
      [Word.ofLiteral "(", Word.ofLiteral "("])
  | _ => pure [Word.ofLiteral t.text]

/-- The operands up to `]]`; `startLine` is the line of the opening brackets. -/
def testOperands (p : Parser) (startLine : Nat) : TokenReader (List Word) := do
  let done ← Reader.repeatFrom [] fun done t =>
    if t.kind == .word && t.text == "]]" then none else some ((· ++ done) <$> p.operands t)
  match ← Reader.peek with
  | none => Reader.fail (.grammar .unclosedConditional (some startLine))
  | some _ =>
    p.keyword "]]"
    pure done.reverse

/-- What follows `[[` on the given line. -/
def test (p : Parser) (line : Nat) : TokenReader Compound := do
  let words ← p.testOperands line
  if words.isEmpty then Reader.fail (.grammar .emptyConditional (some line))
  else pure (.test words)

/-! ## Commands -/

/-- What follows the name of a function definition: empty parentheses, if any, and the body. -/
def functionBody (p : Parser) (name : Token) : TokenReader Command := do
  match ← Reader.peek with
  | some { kind := .openParen, .. } =>
    let _ ← p.expect .openParen
    let _ ← p.expect .closeParen
  | _ => pure ()
  Reader.skipNewlines
  match ← p.innerCommand with
  | .compound body redirections => pure (.function name.text body redirections)
  | _ => Reader.fail (.grammar (.badFunctionBody name.text) (some name.line))

/-- A compound command and the redirections after it. -/
def withRedirections (p : Parser) (compound : TokenReader Compound) : TokenReader Command := do
  let c ← compound
  let rs ← p.redirections
  pure (.compound c rs)

/-- The words that cannot start a command. -/
def misplacedKeywords : List String :=
  ["then", "else", "elif", "fi", "do", "done", "esac", "\x7d", "]]", "in"]

/-- The parser for what follows a keyword that starts a command. -/
def keywordCommand? (p : Parser) (t : Token) : Option (TokenReader Command) :=
  match t.text with
  | "if" => some (p.withRedirections p.ifElse)
  | "for" => some (p.withRedirections p.forLoop)
  | "while" => some (p.withRedirections (p.conditionLoop .whileTrue))
  | "until" => some (p.withRedirections (p.conditionLoop .untilTrue))
  | "case" => some (p.withRedirections p.caseOf)
  | "\x7b" => some (p.withRedirections p.group)
  | "[[" => some (p.withRedirections (p.test t.line))
  | "function" => some (p.expect .word >>= p.functionBody)
  | _ => none

/-- A simple command that starts with the given token, which is a word or a redirection. -/
def simpleCommand (p : Parser) (t : Token) : TokenReader Command := do
  let c ← (p.simpleItem ⟨[], none, [], [], t.line⟩ t).getD p.unexpected
  let c ← Reader.repeatFrom c p.simpleItem
  pure (.simple { c with
    assignments := c.assignments.reverse
    args := c.args.reverse
    redirections := c.redirections.reverse })

/-- What follows the first token of a command. -/
def commandAfter (p : Parser) (t : Token) (tokens : List Token) : TokenReader Command :=
  match t.kind with
  | .arithmetic => p.withRedirections do
    let expression ← p.expandedText t.text
    pure (.arithmetic expression)
  | .redirect _ => p.simpleCommand t
  | .word =>
    match p.keywordCommand? t with
    | some read => read
    | none =>
      if misplacedKeywords.contains t.text then Reader.fail (p.unexpectedAt (t :: tokens))
      else
        match tokens with
        | { kind := .openParen, .. } :: { kind := .closeParen, .. } :: _ => p.functionBody t
        | _ => p.simpleCommand t
  | _ => Reader.fail (p.unexpectedAt (t :: tokens))

/-- **A command.** It takes its first token and whatever belongs to it. -/
def command (p : Parser) (tokens : List Token) : Except SyntaxError (Command × Rest tokens) :=
  match tokens with
  | [] => .error (p.unexpectedAt [])
  | t :: rest =>
    match p.commandAfter t rest rest with
    | .error e => .error e
    | .ok (c, ⟨rest', h⟩) => .ok (c, ⟨rest', by simp only [List.length_cons]; omega⟩)

end Parser

/-! ## Scripts -/

/-- **The script that a text spells,** its commands read by the given level. -/
def Level.script (lower : Level) (text : String) : Except SyntaxError Script :=
  if text.length > maxScriptLength then
    .error (.grammar (.scriptTooLarge text.length) none)
  else
    match TokenStream.ofText text with
    | .error (.lexical cause line) => .error (.grammar (.lexical cause) (some line))
    | .error e => .error e
    | .ok stream =>
      let count := stream.tokens.length + 1
      if count > maxTokenCount then .error (.grammar (.tooManyTokens count) none)
      else
        let p : Parser := ⟨lower, stream.lastLine⟩
        match p.statementList [] stream.tokens with
        | .error e => .error e
        | .ok (list, ⟨[], _⟩) => .ok ⟨list⟩
        | .ok (_, ⟨t :: rest, _⟩) => .error (p.unexpectedAt (t :: rest))

end VirtualShell
