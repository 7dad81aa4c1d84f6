import VirtualShell.Token.Basic
import VirtualShell.Syntax.Error

/-!
# From text to tokens

The lexer takes one construct after another off the text: blanks and comments, line ends,
redirections with the file descriptor before them, operators, arithmetic commands and words. The
lines after a line with here-document operators are the bodies of these here-documents, in order.

* `Scanner.step` — the next construct.
* **`Scanner.step_length_lt`** — every step takes something off the text, so the lexer ends.
* `TokenStream.ofText` — all tokens of a text.
-/

namespace VirtualShell

/-! ## Operators -/

/-- The longest operator at the front of a text, and what follows it. -/
def TokenKind.operator? : List Char → Option (TokenKind × List Char)
  | ';' :: ';' :: '&' :: rest => some (.clauseEnd .resume, rest)
  | '<' :: '<' :: '<' :: rest => some (.redirect .hereString, rest)
  | '<' :: '<' :: '-' :: rest => some (.redirect .hereDocumentTabs, rest)
  | '&' :: '>' :: '>' :: rest => some (.redirect .bothAppend, rest)
  | ';' :: ';' :: rest => some (.clauseEnd .stop, rest)
  | ';' :: '&' :: rest => some (.clauseEnd .fallThrough, rest)
  | '&' :: '&' :: rest => some (.connective .and, rest)
  | '|' :: '|' :: rest => some (.connective .or, rest)
  | '>' :: '>' :: rest => some (.redirect .append, rest)
  | '>' :: '|' :: rest => some (.redirect .clobber, rest)
  | '>' :: '&' :: rest => some (.redirect .duplicateOutput, rest)
  | '<' :: '&' :: rest => some (.redirect .duplicateInput, rest)
  | '&' :: '>' :: rest => some (.redirect .bothOutput, rest)
  | '<' :: '<' :: rest => some (.redirect .hereDocument, rest)
  | ';' :: rest => some (.semicolon, rest)
  | '&' :: rest => some (.ampersand, rest)
  | '|' :: rest => some (.pipe, rest)
  | '<' :: rest => some (.redirect .input, rest)
  | '>' :: rest => some (.redirect .output, rest)
  | '(' :: rest => some (.openParen, rest)
  | ')' :: rest => some (.closeParen, rest)
  | _ => none

/-- Ends a word that is not quoted. -/
def isMetacharacter (c : Char) : Bool :=
  c == ' ' || c == '\t' || c == '\n' || c == ';' || c == '&' || c == '|' ||
    c == '<' || c == '>' || c == '(' || c == ')'

theorem TokenKind.operator?_length_lt {text rest : List Char} {kind : TokenKind}
    (h : operator? text = some (kind, rest)) : rest.length < text.length := by
  unfold operator? at h
  split at h <;> grind

theorem TokenKind.not_metacharacter_of_operator?_eq_none {c : Char} {text : List Char}
    (h : operator? (c :: text) = none) (hs : c ≠ ' ') (ht : c ≠ '\t') (hn : c ≠ '\n') :
    isMetacharacter c = false := by
  unfold operator? at h
  split at h <;> simp_all [isMetacharacter]

/-! ## Here-documents -/

/-- The text up to the next line feed, and the text after it. -/
def takeLine (text : List Char) : List Char × List Char :=
  (text.takeWhile (· != '\n'), (text.dropWhile (· != '\n')).tail)

theorem takeLine_length_lt (c : Char) (text : List Char) :
    (takeLine (c :: text)).2.length < (c :: text).length := by
  have := ((c :: text).dropWhile_sublist (· != '\n')).length_le
  simp only [takeLine, List.length_tail]
  grind

/-- A here-document whose body is still to come. -/
structure PendingDocument where
  delimiter : List Char
  stripTabs : Bool
  deriving DecidableEq, Repr

/-- **The body of a here-document.** Lines are added to `body` up to the delimiter line or to the
end of the text. Gives the body, the number of lines read, and the text after them. -/
def PendingDocument.readBody (doc : PendingDocument) (body : String) (count : Nat) :
    List Char → String × Nat × List Char
  | [] => (body, count, [])
  | c :: text =>
    let line := (takeLine (c :: text)).1
    let line := if doc.stripTabs then line.dropWhile (· == '\t') else line
    if line == doc.delimiter then (body, count + 1, (takeLine (c :: text)).2)
    else doc.readBody (body ++ String.ofList line ++ "\n") (count + 1) (takeLine (c :: text)).2
termination_by text => text.length
decreasing_by exact takeLine_length_lt c text

theorem PendingDocument.readBody_length_le (doc : PendingDocument) (body : String) (count : Nat)
    (text : List Char) : (doc.readBody body count text).2.2.length ≤ text.length := by
  fun_induction doc.readBody body count text <;> grind [takeLine_length_lt]

/-- The delimiter of a here-document without its quotes and backslashes. -/
def unquoteDelimiter : List Char → List Char
  | '\\' :: c :: rest => c :: unquoteDelimiter rest
  | c :: rest => if c == '\'' || c == '"' then unquoteDelimiter rest else c :: unquoteDelimiter rest
  | [] => []

/-- A delimiter with any quoting makes the body literal. -/
def isQuotedDelimiter (word : List Char) : Bool :=
  word.any fun c => c == '\'' || c == '"' || c == '\\'

/-! ## The scanner -/

/-- The state of the lexer: the text ahead, its line, the tokens so far (last first), the
here-documents whose bodies are due, and the bodies read (last first). -/
structure Scanner where
  rest : List Char
  line : Nat
  tokens : List Token
  pending : List PendingDocument
  bodies : List String

namespace Scanner

/-- Add a token on the current line. -/
def emit (s : Scanner) (kind : TokenKind) (text : String) (descriptor : Option Nat) : Scanner :=
  { s with tokens := ⟨kind, text, s.line, descriptor, none⟩ :: s.tokens }

/-- Read the bodies of all here-documents that are due. -/
def readBodies (s : Scanner) : List PendingDocument → Scanner
  | [] => { s with pending := [] }
  | doc :: docs =>
    let (body, count, rest) := doc.readBody "" 0 s.rest
    readBodies { s with rest := rest, line := s.line + count, bodies := body :: s.bodies } docs

theorem readBodies_length_le (s : Scanner) (docs : List PendingDocument) :
    (s.readBodies docs).rest.length ≤ s.rest.length := by
  induction docs generalizing s with
  | nil => simp [readBodies]
  | cons doc docs ih =>
    have := doc.readBody_length_le "" 0 s.rest
    simp only [readBodies]
    grind

/-- A word after a here-document operator is the delimiter of the document. -/
def noteDelimiter (s : Scanner) (word : List Char) : Scanner :=
  match s.tokens with
  | { kind := .redirect op, text := text, line := line, descriptor := fd, .. } :: earlier =>
    if op.takesHereDocument then
      let delimiter := unquoteDelimiter word
      let tabs := op == .hereDocumentTabs
      let doc := ⟨String.ofList delimiter, isQuotedDelimiter word, tabs, ""⟩
      { s with
        tokens := ⟨.redirect op, text, line, fd, some doc⟩ :: earlier
        pending := s.pending ++ [⟨delimiter, tabs⟩] }
    else s
  | _ => s

@[simp] theorem noteDelimiter_rest (s : Scanner) (word : List Char) :
    (s.noteDelimiter word).rest = s.rest := by
  unfold noteDelimiter
  grind

/-- A word from the front of the text. -/
def readWord (s : Scanner) : Except SyntaxError Scanner :=
  match Delimiter.scan isMetacharacter [] [] s.rest with
  | .error d => .error (.lexical (.unclosed d) s.line)
  | .ok (read, rest) =>
    let word := read.reverse
    let s' := (s.noteDelimiter word).emit .word (String.ofList word) none
    .ok { s' with rest := rest, line := s.line + read.count '\n' }

/-- **Two opening parentheses.** They start an arithmetic command when the outer pair holds nothing
but the inner pair, and are two operators otherwise. `inner` is the text after the first one. -/
def readParens (s : Scanner) (inner : List Char) : Except SyntaxError Scanner :=
  match Delimiter.close .paren inner with
  | .error d => .error (.lexical (.unclosed d) s.line)
  | .ok (content, rest) =>
    match Delimiter.close .paren content.tail with
    | .ok (expression, []) =>
      let s := { s with line := s.line + content.count '\n', rest := rest }
      .ok (s.emit .arithmetic (String.ofList expression) none)
    | _ => .ok ({ s with rest := inner }.emit .openParen "(" none)

/-- The file descriptor written before a redirection: a run of digits directly before `<` or `>`. -/
def descriptor? (text : List Char) : Option (List Char × List Char) :=
  let digits := text.takeWhile Text.isDigit
  let rest := text.dropWhile Text.isDigit
  match rest with
  | c :: _ => if !digits.isEmpty && (c == '<' || c == '>') then some (digits, rest) else none
  | [] => none

/-- An operator from the front of the text, or a word where none stands. -/
def readOperator (s : Scanner) (descriptor : Option Nat) : Except SyntaxError Scanner :=
  match TokenKind.operator? s.rest with
  | some (kind, rest) => .ok ({ s with rest := rest }.emit kind kind.spelling descriptor)
  | none => s.readWord

/-- **One step.** Takes the next construct, which starts with `c`, off the text. -/
def step (s : Scanner) (c : Char) (rest : List Char) : Except SyntaxError Scanner :=
  if c == ' ' || c == '\t' then .ok { s with rest := rest }
  else if c == '\\' && rest.head? == some '\n' then
    .ok { s with rest := rest.tail, line := s.line + 1 }
  else if c == '#' then .ok { s with rest := rest.dropWhile (· != '\n') }
  else if c == '\n' then
    let s := s.emit .newline "\n" none
    let s := { s with rest := rest, line := s.line + 1 }
    .ok (s.readBodies s.pending)
  else if c == '(' && rest.head? == some '(' then { s with rest := c :: rest }.readParens rest
  else
    match descriptor? (c :: rest) with
    | some (digits, rest) =>
      match Text.readDecimal (String.ofList digits) with
      | .error cause => .error (.integer cause)
      | .ok fd => { s with rest := rest }.readOperator (some fd.toNat)
    | none => { s with rest := c :: rest }.readOperator none

/-! ## Progress -/

theorem readWord_length_le {s s' : Scanner} (h : s.readWord = .ok s') :
    s'.rest.length ≤ s.rest.length := by
  unfold readWord at h
  grind [→ Delimiter.scan_length_le]

theorem readWord_length_lt {s s' : Scanner} {c : Char} {text : List Char}
    (h : s.readWord = .ok s') (hs : s.rest = c :: text) (hc : isMetacharacter c = false) :
    s'.rest.length < s.rest.length := by
  unfold readWord at h
  rw [hs] at h ⊢
  split at h
  · simp at h
  · next hr =>
    have := Delimiter.scan_length_lt hr (by simp [hc])
    grind

theorem readParens_length_le {s s' : Scanner} {inner : List Char}
    (h : s.readParens inner = .ok s') : s'.rest.length ≤ inner.length := by
  unfold readParens at h
  split at h
  · simp at h
  · next hc =>
    have := Delimiter.close_length_lt hc
    split at h
    · cases h; simp only [emit]; omega
    · cases h; simp [emit]

theorem readOperator_length_le {s s' : Scanner} {fd : Option Nat}
    (h : s.readOperator fd = .ok s') : s'.rest.length ≤ s.rest.length := by
  unfold readOperator at h
  split at h
  · next hk =>
    have := TokenKind.operator?_length_lt hk
    cases h; simp only [emit]; omega
  · exact readWord_length_le h

theorem descriptor?_length_lt {text digits rest : List Char}
    (h : descriptor? text = some (digits, rest)) : rest.length < text.length := by
  have := congrArg List.length (List.takeWhile_append_dropWhile (p := Text.isDigit) (l := text))
  simp only [descriptor?] at h
  cases htake : text.takeWhile Text.isDigit <;> grind

/-- Every step takes something off the text. -/
theorem step_length_lt {s s' : Scanner} {c : Char} {rest : List Char}
    (h : s.step c rest = .ok s') : s'.rest.length < (c :: rest).length := by
  unfold step at h
  split at h
  · cases h; simp
  split at h
  · cases h
    simp only [List.length_cons, List.length_tail]; omega
  split at h
  · cases h
    have := (rest.dropWhile_sublist (· != '\n')).length_le
    simp; omega
  split at h
  · cases h
    have := readBodies_length_le
      { s.emit .newline "\n" none with rest := rest, line := (s.emit .newline "\n" none).line + 1 }
      s.pending
    simp only [emit, List.length_cons] at this ⊢; omega
  split at h
  · have := readParens_length_le h
    simp; omega
  next hblank _ _ hnewline _ =>
  split at h
  · next hd =>
    have := descriptor?_length_lt hd
    split at h
    · simp at h
    · have := readOperator_length_le h
      simp_all; omega
  · unfold readOperator at h
    split at h
    · next hk =>
      have := TokenKind.operator?_length_lt hk
      cases h; simpa [emit] using this
    · next hk =>
      simp only [Bool.or_eq_true, beq_iff_eq, not_or] at hblank hnewline
      exact readWord_length_lt h rfl
        (TokenKind.not_metacharacter_of_operator?_eq_none hk hblank.1 hblank.2 hnewline)

/-! ## All tokens -/

/-- Take steps to the end of the text. -/
def run (s : Scanner) : Except SyntaxError Scanner :=
  match hs : s.rest with
  | [] => .ok s
  | c :: rest =>
    match h : s.step c rest with
    | .error e => .error e
    | .ok s' =>
      have : s'.rest.length < s.rest.length := hs ▸ step_length_lt h
      s'.run
termination_by s.rest.length

end Scanner

/-- Give the here-documents their bodies, in order; `done` holds the finished tokens, last
first. -/
def attachBodies (done : List Token) : List String → List Token → List Token
  | _, [] => done.reverse
  | bodies, t :: tokens =>
    match t.hereDocument, bodies with
    | some doc, body :: bodies =>
      attachBodies ({ t with hereDocument := some { doc with body := body } } :: done) bodies tokens
    | _, bodies => attachBodies (t :: done) bodies tokens

/-- **The tokens of a text.** A here-document whose lines never come is empty. -/
def TokenStream.ofText (text : String) : Except SyntaxError TokenStream :=
  match Scanner.run ⟨text.toList, 1, [], [], []⟩ with
  | .error e => .error e
  | .ok s => .ok ⟨attachBodies [] s.bodies.reverse s.tokens.reverse, s.line⟩

end VirtualShell
