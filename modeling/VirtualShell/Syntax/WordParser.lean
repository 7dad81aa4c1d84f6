import VirtualShell.Syntax.ScriptParser

/-!
# From raw words to their parts

The text of a word is split into quoted pieces, escapes, expansions and plain text. Between double
quotes only expansions and a few escapes count; in here-documents and arithmetic the double quote
itself is plain.

* `Level.scanParts` — the pieces of a text, the constructs inside them read one level further in.
* `Level.bracedParameter` — what stands between the braces of a parameter expansion.
-/

namespace VirtualShell

/-! ## Small readings -/

/-- The characters that a backslash escapes; between quotes it is ordinary before all others. -/
def Quoting.escapes : Quoting → Char → Bool
  | .unquoted, _ => true
  | .double, c => c == '$' || c == '`' || c == '"' || c == '\\'
  | .hereDocument, c => c == '$' || c == '`' || c == '\\'

/-- The parameters whose name is one special character. -/
def isSpecialParameter (c : Char) : Bool :=
  c == '?' || c == '#' || c == '@' || c == '*' || c == '$' || c == '!' || c == '-'

/-- The parameter named directly after a dollar sign: a name, one digit or a special one. -/
def takeParameter (text : List Char) : Option (List Char × List Char) :=
  match takeName text with
  | some found => some found
  | none =>
    match text with
    | c :: rest => if Text.isAsciiDigit c || isSpecialParameter c then some ([c], rest) else none
    | [] => none

/-- The parameter named at the start of a braced expansion, where a number may have more digits. -/
def takeBracedParameter (text : List Char) : Option (List Char × List Char) :=
  match takeName text with
  | some found => some found
  | none =>
    match text with
    | c :: rest =>
      if Text.isAsciiDigit c then
        some (c :: rest.takeWhile Text.isAsciiDigit, rest.dropWhile Text.isAsciiDigit)
      else if isSpecialParameter c then some ([c], rest)
      else none
    | [] => none

/-- Characters of a user name after a tilde. -/
def isUserChar (c : Char) : Bool :=
  ('A' ≤ c && c ≤ 'Z') || ('a' ≤ c && c ≤ 'z') || Text.isAsciiDigit c ||
    c == '_' || c == '.' || c == '+' || c == '-'

/-- **A tilde and a user name** at the start of a word, up to a slash or the end of the word; a last
line feed counts as the end. -/
def takeTilde (text : List Char) : Option (Option String × List Char) :=
  match text with
  | '~' :: rest =>
    let user := rest.takeWhile isUserChar
    let rest := rest.dropWhile isUserChar
    if rest.isEmpty || rest.head? == some '/' || rest == ['\n'] then
      some (if user.isEmpty then none else some (String.ofList user), rest)
    else none
  | _ => none

/-- The backslashes that backticks require before a dollar sign, a backtick or a backslash. -/
def unescapeBackticks : List Char → List Char
  | '\\' :: c :: rest =>
    if c == '$' || c == '`' || c == '\\' then c :: unescapeBackticks rest
    else '\\' :: unescapeBackticks (c :: rest)
  | c :: rest => c :: unescapeBackticks rest
  | [] => []
termination_by text => text.length

/-- The character for which a letter stands after a backslash in `$'...'`. -/
def ansiEscape? : Char → Option Char
  | 'n' => some '\n'
  | 't' => some '\t'
  | 'r' => some '\r'
  | 'a' => some (Char.ofNat 7)
  | 'b' => some (Char.ofNat 8)
  | 'f' => some (Char.ofNat 12)
  | 'v' => some (Char.ofNat 11)
  | 'e' => some (Char.ofNat 27)
  | 'E' => some (Char.ofNat 27)
  | '\\' => some '\\'
  | '\'' => some '\''
  | '"' => some '"'
  | '?' => some '?'
  | _ => none

/-- The text of `$'...'` after the opening quote, and what follows the closing one. An unknown
escape keeps its backslash. -/
def takeAnsiQuoted (read : List Char) : List Char → Option (List Char × List Char)
  | [] => none
  | '\'' :: rest => some (read.reverse, rest)
  | '\\' :: c :: rest =>
    match ansiEscape? c with
    | some d => takeAnsiQuoted (d :: read) rest
    | none => takeAnsiQuoted ('\\' :: read) (c :: rest)
  | c :: rest => takeAnsiQuoted (c :: read) rest
termination_by text => text.length

theorem takeAnsiQuoted_length_lt {read text value rest : List Char}
    (h : takeAnsiQuoted read text = some (value, rest)) : rest.length < text.length := by
  fun_induction takeAnsiQuoted read text <;> grind

theorem takeName_length_lt {text name rest : List Char}
    (h : takeName text = some (name, rest)) : rest.length < text.length := by
  unfold takeName at h
  split at h
  · next c tail =>
    have := (tail.dropWhile_sublist Text.isNameChar).length_le
    grind
  · simp at h

theorem takeParameter_length_lt {text name rest : List Char}
    (h : takeParameter text = some (name, rest)) : rest.length < text.length := by
  unfold takeParameter at h
  grind [→ takeName_length_lt]

/-- Split at the first occurrence of a character that no backslash escapes. -/
def splitUnescaped (sep : Char) (read : List Char) : List Char → Option (List Char × List Char)
  | [] => none
  | '\\' :: c :: rest => splitUnescaped sep (c :: '\\' :: read) rest
  | c :: rest =>
    if c == sep then some (read.reverse, rest) else splitUnescaped sep (c :: read) rest

/-! ## Braced parameters -/

namespace Level

/-- The word that a text spells, its parts read at this level. -/
def word (l : Level) (text : List Char) : Except SyntaxError Word :=
  (l.parts .unquoted text).map fun parts => ⟨parts, String.ofList text⟩

/-- Text in which only expansions count, read as one double-quoted piece. -/
def expandedText (l : Level) (text : List Char) : Except SyntaxError Word :=
  (l.parts .hereDocument text).map fun parts => ⟨[.doubleQuoted parts], String.ofList text⟩

/-- The operation written after the name of a braced parameter; nothing when there is none of that
form. -/
def parameterOp? (l : Level) : List Char → Option (Except SyntaxError ParamOp)
  | ':' :: '-' :: rest => some ((l.word rest).map (.default · true))
  | ':' :: '=' :: rest => some ((l.word rest).map (.assign · true))
  | ':' :: '+' :: rest => some ((l.word rest).map (.alternative · true))
  | ':' :: '?' :: rest => some ((l.word rest).map (.error · true))
  | '-' :: rest => some ((l.word rest).map (.default · false))
  | '=' :: rest => some ((l.word rest).map (.assign · false))
  | '+' :: rest => some ((l.word rest).map (.alternative · false))
  | '?' :: rest => some ((l.word rest).map (.error · false))
  | '#' :: '#' :: rest => some ((l.word rest).map (.removePrefix · true))
  | '#' :: rest => some ((l.word rest).map (.removePrefix · false))
  | '%' :: '%' :: rest => some ((l.word rest).map (.removeSuffix · true))
  | '%' :: rest => some ((l.word rest).map (.removeSuffix · false))
  | '/' :: '/' :: rest => some (replacement rest true)
  | '/' :: rest => some (replacement rest false)
  | ':' :: rest =>
    let offset := String.ofList (rest.takeWhile (· != ':'))
    match rest.dropWhile (· != ':') with
    | [] => some (.ok (.substring offset none))
    | _ :: length => some (.ok (.substring offset (some (String.ofList length))))
  | _ => none
where
  /-- A pattern, and after a slash that no backslash escapes, the text that replaces it. -/
  replacement (text : List Char) (all : Bool) : Except SyntaxError ParamOp := do
    let (pattern, text) := (splitUnescaped '/' [] text).getD (text, [])
    let pattern ← l.word pattern
    let text ← l.word text
    pure (.replace pattern text all)

/-- **The inside of a braced expansion:** the length of a parameter, or a parameter with at most one
operation. -/
def bracedParameter (l : Level) (content : List Char) : Except SyntaxError Part :=
  let bad : SyntaxError := .lexical (.badSubstitution (String.ofList content)) 1
  let measured : Option (List Char) :=
    match content with
    | '#' :: name =>
      match takeBracedParameter name with
      | some (name, []) => some name
      | _ => none
    | _ => none
  match measured with
  | some name => .ok (.parameter (String.ofList name) (some .length))
  | none =>
    match takeBracedParameter content with
    | none => .error bad
    | some (name, []) => .ok (.parameter (String.ofList name) none)
    | some (name, rest) =>
      match l.parameterOp? rest with
      | none => .error bad
      | some op => op.map fun op => .parameter (String.ofList name) (some op)

/-! ## The parts of a word -/

/-- The arithmetic text, when what stands in parentheses is in a second pair of them. -/
def arithmeticText? : List Char → Option (List Char)
  | '(' :: inner =>
    match Delimiter.close .paren inner with
    | .ok (expression, []) => some expression
    | _ => none
  | _ => none

/-- What a dollar sign starts: the part, and the text after it. `rest` is the text after the dollar
sign; a dollar sign that starts nothing is plain. -/
def dollarPart? (l : Level) (quoting : Quoting) (rest : List Char) :
    Except SyntaxError (Option (Part × { after : List Char // after.length < rest.length })) :=
  match rest with
  | '(' :: text =>
    match h : Delimiter.close .paren text with
    | .error d => .error (.lexical (.unclosed d) 1)
    | .ok (inner, after) =>
      have hafter : after.length < ('(' :: text).length := by
        have := Delimiter.close_length_lt h; simp; omega
      match arithmeticText? inner with
      | some expression => do
        let w ← l.expandedText expression
        pure (some (.arithmetic w, ⟨after, hafter⟩))
      | none => do
        let body ← l.script (String.ofList inner)
        pure (some (.substitution body false, ⟨after, hafter⟩))
  | '\x7b' :: text =>
    match h : Delimiter.close .brace text with
    | .error d => .error (.lexical (.unclosed d) 1)
    | .ok (content, after) => do
      let part ← l.bracedParameter content
      pure (some (part, ⟨after, by have := Delimiter.close_length_lt h; simp; omega⟩))
  | c :: text =>
    if c == '\'' && quoting == .unquoted then
      match h : takeAnsiQuoted [] text with
      | none => .error (.lexical (.unclosed .single) 1)
      | some (value, after) =>
        .ok (some (.quoted (String.ofList value),
          ⟨after, by have := takeAnsiQuoted_length_lt h; simp; omega⟩))
    else
      match h : takeParameter (c :: text) with
      | some (name, after) =>
        .ok (some (.parameter (String.ofList name) none, ⟨after, takeParameter_length_lt h⟩))
      | none => .ok none
  | [] => .ok none

/-- The part that starts with a character other than a backslash, and the text after it; `rest` is
the text after that character. Nothing when the character is plain. -/
def part? (l : Level) (quoting : Quoting) (c : Char) (rest : List Char) :
    Except SyntaxError (Option (Part × { after : List Char // after.length ≤ rest.length })) :=
  if c == '\'' && quoting == .unquoted then
    match h : Delimiter.close .single rest with
    | .error d => .error (.lexical (.unclosed d) 1)
    | .ok (inner, after) =>
      .ok (some (.quoted (String.ofList inner),
        ⟨after, Nat.le_of_lt (Delimiter.close_length_lt h)⟩))
  else if c == '"' && quoting == .unquoted then
    match h : Delimiter.close .double rest with
    | .error d => .error (.lexical (.unclosed d) 1)
    | .ok (inner, after) => do
      let parts ← l.parts .double inner
      pure (some (.doubleQuoted parts, ⟨after, Nat.le_of_lt (Delimiter.close_length_lt h)⟩))
  else if c == '`' then
    match h : Delimiter.close .backtick rest with
    | .error d => .error (.lexical (.unclosed d) 1)
    | .ok (inner, after) => do
      let body ← l.script (String.ofList (unescapeBackticks inner))
      pure (some (.substitution body true, ⟨after, Nat.le_of_lt (Delimiter.close_length_lt h)⟩))
  else if c == '$' then do
    match ← l.dollarPart? quoting rest with
    | some (part, after) => pure (some (part, ⟨after.1, Nat.le_of_lt after.2⟩))
    | none => pure none
  else .ok none

/-- Plain text, kept backwards, becomes a part unless it is empty. -/
def flush (plain : List Char) (done : List Part) : List Part :=
  if plain.isEmpty then done else .literal (String.ofList plain.reverse) :: done

/-- **The parts of a text.** `done` holds the parts so far, last first, and `plain` the plain text
since then, backwards. -/
def scanParts (l : Level) (quoting : Quoting) (done : List Part) (plain : List Char)
    (text : List Char) : Except SyntaxError (List Part) :=
  match text with
  | [] => .ok (flush plain done).reverse
  | '\\' :: [] => l.scanParts quoting done ('\\' :: plain) []
  | '\\' :: '\n' :: rest => l.scanParts quoting done plain rest
  | '\\' :: c :: rest =>
    if quoting.escapes c then
      l.scanParts quoting (.escaped c.toString :: flush plain done) [] rest
    else l.scanParts quoting done ('\\' :: plain) (c :: rest)
  | c :: rest =>
    match l.part? quoting c rest with
    | .error e => .error e
    | .ok none => l.scanParts quoting done (c :: plain) rest
    | .ok (some (part, ⟨after, _h⟩)) =>
      l.scanParts quoting (part :: flush plain done) [] after
termination_by text.length
decreasing_by all_goals simp only [List.length_cons]; omega

/-- The parts of a whole text; only at its start can a tilde stand for a home directory. -/
def partsOf (l : Level) (quoting : Quoting) (text : List Char) :
    Except SyntaxError (List Part) :=
  match if quoting == .unquoted then takeTilde text else none with
  | some (user, rest) => l.scanParts quoting [.tilde user] [] rest
  | none => l.scanParts quoting [] [] text

end Level

/-! ## Levels -/

/-- **The parsers with a number of levels left.** With none left nothing can be read. -/
def Level.ofDepth : Nat → Level
  | 0 => {
      parts := fun _ _ => .error (.lexical .nestingTooDeep 1)
      command := fun lastLine tokens =>
        .error (.grammar (.lexical .nestingTooDeep) (some (lineOfNext lastLine tokens))) }
  | n + 1 =>
    let lower := Level.ofDepth n
    { parts := lower.partsOf
      command := fun lastLine tokens => Parser.command ⟨lower, lastLine⟩ tokens }

/-- The outermost level. -/
def Level.outermost : Level := .ofDepth maxNesting

/-- The script that a text spells. -/
def Script.parse (text : String) : Except SyntaxError Script :=
  Level.outermost.script text

/-- The word that a text spells. -/
def Word.parse (text : String) : Except SyntaxError Word :=
  Level.outermost.word text.toList

/-- A text in which only expansions count: the body of a here-document, or an arithmetic
expression. -/
def Word.parseExpanded (text : String) : Except SyntaxError Word :=
  Level.outermost.expandedText text.toList

end VirtualShell
