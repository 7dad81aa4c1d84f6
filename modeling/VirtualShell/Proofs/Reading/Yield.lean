import VirtualShell.Proofs.Reading.Command
import VirtualShell.Proofs.Reading.Source

/-!
# The tokens that a tree is read from

Every token that a parser takes has one place in what it gives: there it is a word, an operator or a
keyword, or a separator or a line end between two parts. The grammar says which tokens stand where.
It is written over the commands one level further in, as the parser is.

* `Listed`, `Optionally`, `Announced`, `AfterLineEnds` — the tokens of things that are put together.
* `SimpleCommand.Yields`, `Pipeline.Yields`, `Statements.Yields`, `Compound.Yields` — the tokens of
  a part of a script.
* `Command.YieldsBy` — the tokens of a command, given those of the commands inside.
* **`Command.YieldsWithin`** — the tokens of a command that nests so many levels deep.
* **`Reader.Consumes`** — a reader takes tokens off the front, and they are those of what it gives.
-/

namespace VirtualShell

open Reader

/-! ## Things that are put together -/

section

variable {α τ : Type} {R : α → List τ → Prop}

/-- The items of several things, one after the other. -/
inductive Listed (R : α → List τ → Prop) : List α → List τ → Prop
  | nil : Listed R [] []
  | cons {a : α} {as : List α} {ts us : List τ} (ha : R a ts) (has : Listed R as us) :
      Listed R (a :: as) (ts ++ us)

/-- The items of a thing that may be absent. -/
inductive Optionally (R : α → List τ → Prop) : Option α → List τ → Prop
  | absent : Optionally R none []
  | present {a : α} {ts : List τ} (ha : R a ts) : Optionally R (some a) ts

/-- The items of a thing, after one that announces it. -/
inductive Announced (mark : τ → Prop) (R : α → List τ → Prop) : α → List τ → Prop
  | mk {t : τ} {a : α} {ts : List τ} (ht : mark t) (ha : R a ts) : Announced mark R a (t :: ts)

/-- The tokens of a thing, after line ends. -/
inductive AfterLineEnds (R : α → List Token → Prop) : α → List Token → Prop
  | mk {ends ts : List Token} {a : α} (hends : LineEnds ends) (ha : R a ts) :
      AfterLineEnds R a (ends ++ ts)

theorem Listed.concat {as : List α} {a : α} {ts us : List τ} (h : Listed R as ts) (ha : R a us) :
    Listed R (as ++ [a]) (ts ++ us) := by
  induction h with
  | nil => simpa using Listed.cons ha .nil
  | cons hb _ ih => simpa using Listed.cons hb ih

end

/-! ## Words and redirections -/

/-- The token is the given word. -/
def Token.IsWord (text : String) (t : Token) : Prop := t.kind = .word ∧ t.text = text

/-- A word is one token, whose text it keeps. -/
inductive Word.Yields (w : Word) : List Token → Prop
  | token {t : Token} (ht : t.kind = .word) (hraw : w.raw = t.text) : Word.Yields w [t]

/-- A word for a text, and none for the empty one. -/
def IsWordOf (text : String) (word : Option Word) : Prop :=
  word.map Word.raw = if text.isEmpty then none else some text

/-- A redirection is an operator and a word. A here-document comes with its operator. -/
inductive Redirection.Yields : Redirection → List Token → Prop
  | word {op : RedirectOp} {operator : Token} {w : Word} {ts : List Token}
      (hop : operator.kind = .redirect op) (htakes : op.takesHereDocument = false)
      (hw : w.Yields ts) :
      Redirection.Yields ⟨op, .word w, operator.descriptor⟩ (operator :: ts)
  | hereDocument {op : RedirectOp} {operator delimiter : Token} {doc : HereDocument}
      {content : Word} (hop : operator.kind = .redirect op) (htakes : op.takesHereDocument = true)
      (hdelimiter : delimiter.kind = .word) (hdoc : operator.hereDocument = some doc)
      (hcontent : content.raw = doc.body) :
      Redirection.Yields
        ⟨op, .hereDocument doc.delimiter content doc.quoted doc.stripTabs, operator.descriptor⟩
        [operator, delimiter]

/-! ## Simple commands -/

/-- An assignment is one token. -/
inductive Assignment.Yields : Assignment → List Token → Prop
  | token {t : Token} {name text : String} {append : Bool} {value : Option Word}
      (ht : t.kind = .word) (hread : readAssignment? t.text = some (name, append, text))
      (hvalue : IsWordOf text value) : Assignment.Yields ⟨name, value, append⟩ [t]

/-- A simple command that starts on a line: assignments before the name, arguments after it, and
redirections among them. -/
inductive SimpleCommand.Yields (line : Nat) : SimpleCommand → List Token → Prop
  | nothing : SimpleCommand.Yields line ⟨[], none, [], [], line⟩ []
  | assignment {c : SimpleCommand} {a : Assignment} {ts us : List Token}
      (hc : SimpleCommand.Yields line c ts) (hname : c.name = none) (ha : a.Yields us) :
      SimpleCommand.Yields line { c with assignments := c.assignments ++ [a] } (ts ++ us)
  | name {c : SimpleCommand} {w : Word} {ts us : List Token}
      (hc : SimpleCommand.Yields line c ts) (hname : c.name = none)
      (hno : readAssignment? w.raw = none) (hw : w.Yields us) :
      SimpleCommand.Yields line { c with name := some w } (ts ++ us)
  | argument {c : SimpleCommand} {w : Word} {ts us : List Token}
      (hc : SimpleCommand.Yields line c ts) (hname : c.name ≠ none) (hw : w.Yields us) :
      SimpleCommand.Yields line { c with args := c.args ++ [w] } (ts ++ us)
  | redirection {c : SimpleCommand} {r : Redirection} {ts us : List Token}
      (hc : SimpleCommand.Yields line c ts) (hr : r.Yields us) :
      SimpleCommand.Yields line { c with redirections := c.redirections ++ [r] } (ts ++ us)

/-- The lists of a simple command that were kept last first. -/
def SimpleCommand.inOrder (c : SimpleCommand) : SimpleCommand :=
  { c with
    assignments := c.assignments.reverse
    args := c.args.reverse
    redirections := c.redirections.reverse }

/-! ## Operands of tests -/

/-- What a token adds to the operand of `=~`. -/
def Token.operandText (t : Token) : String :=
  match t.kind with
  | .openParen | .closeParen => t.text
  | .arithmetic => "((" ++ t.text ++ "))"
  | _ => (t.descriptor.map toString).getD "" ++ t.text

/-- The words that are read from one token between double brackets, and from those that `=~` takes
after it. Two parentheses hold tokens of their own. -/
inductive Operands.Yields : List Word → List Token → Prop
  | lineEnd {t : Token} (ht : t.kind = .newline) : Operands.Yields [] [t]
  | word {w : Word} {ts : List Token} (hw : w.Yields ts) : Operands.Yields [w] ts
  | regex {t : Token} {w : Word} {operand : Option Word} {ts : List Token} (ht : t.IsWord "=~")
      (hw : w.Yields [t]) (hoperand : IsWordOf (String.join (ts.map Token.operandText)) operand) :
      Operands.Yields (w :: operand.toList) (t :: ts)
  | arithmetic {t : Token} {stream : TokenStream} {inner : List Word} (ht : t.kind = .arithmetic)
      (hstream : TokenStream.ofText t.text = .ok stream)
      (hinner : inner.map Word.raw = stream.tokens.map Token.text) :
      Operands.Yields
        ([.ofLiteral "(", .ofLiteral "("] ++ inner ++ [.ofLiteral ")", .ofLiteral ")"]) [t]
  | operator {t : Token} (hkind : t.kind ≠ .newline ∧ t.kind ≠ .word ∧ t.kind ≠ .arithmetic) :
      Operands.Yields [.ofLiteral t.text] [t]

/-! ## Pipelines and statements -/

section

variable (P : Command → List Token → Prop)

/-- A pipeline: commands with bars between them, and a `!` before it for every time that its status
is turned around. -/
inductive Pipeline.Yields : Pipeline → List Token → Prop
  | commands {c : Command} {cs : List Command} {ts us : List Token} (hc : P c ts)
      (hcs : Listed (Announced (fun t => t.kind = .pipe) (AfterLineEnds P)) cs us) :
      Pipeline.Yields ⟨c :: cs, false⟩ (ts ++ us)
  | negated {t : Token} {r : Pipeline} {ts : List Token} (ht : t.IsWord "!")
      (hr : Pipeline.Yields r ts) : Pipeline.Yields ⟨r.commands, !r.negated⟩ (t :: ts)

/-- A pipeline after the connective that joins it to a statement. -/
def Link.Yields (link : Connective × Pipeline) : List Token → Prop :=
  Announced (fun t => t.kind = .connective link.1) (AfterLineEnds (Pipeline.Yields P)) link.2

/-- A statement without what separates it from the next one. -/
inductive Statement.Yields : Statement → List Token → Prop
  | mk {first : Pipeline} {rest : List (Connective × Pipeline)} {ts us : List Token}
      (hfirst : first.Yields P ts) (hrest : Listed (Link.Yields P) rest us) :
      Statement.Yields ⟨first, rest, false⟩ (ts ++ us)

/-- The token ends a statement, and sends it to the background or does not. -/
inductive Separates : (background : Bool) → Token → Prop
  | foreground {t : Token} (ht : t.kind = .semicolon ∨ t.kind = .newline) : Separates false t
  | background {t : Token} (ht : t.kind = .ampersand) : Separates true t

/-- **A list of statements**, with line ends before each of them and a separator after all but the
last one. -/
inductive Statements.Yields : List Statement → List Token → Prop
  | none {ends : List Token} (hends : LineEnds ends) : Statements.Yields [] ends
  | last {s : Statement} {ends ts : List Token} (hends : LineEnds ends) (hs : s.Yields P ts) :
      Statements.Yields [s] (ends ++ ts)
  | cons {s : Statement} {background : Bool} {ss : List Statement} {t : Token}
      {ends ts us : List Token} (hends : LineEnds ends) (hs : s.Yields P ts)
      (ht : Separates background t) (hss : Statements.Yields ss us) :
      Statements.Yields ({ s with background } :: ss) (ends ++ (ts ++ t :: us))

/-- A list of at least one statement. -/
def Body.Yields (list : List Statement) (ts : List Token) : Prop :=
  list ≠ [] ∧ Statements.Yields P list ts

/-! ## Compound commands -/

/-- A condition, `then`, and what is run when it holds. -/
inductive Clause.Yields : Clause → List Token → Prop
  | mk {condition list : List Statement} {t : Token} {ts us : List Token}
      (hcondition : Body.Yields P condition ts) (ht : t.IsWord "then")
      (hlist : Body.Yields P list us) : Clause.Yields ⟨condition, list⟩ (ts ++ t :: us)

/-- The body of a loop between `do` and `done`, after separators. -/
inductive LoopBody.Yields : List Statement → List Token → Prop
  | mk {list : List Statement} {before ts : List Token} {start stop : Token}
      (hbefore : ∀ t ∈ before, t.kind = .newline ∨ t.kind = .semicolon) (hstart : start.IsWord "do")
      (hlist : Body.Yields P list ts) (hstop : stop.IsWord "done") :
      LoopBody.Yields list (before ++ start :: (ts ++ [stop]))

/-- The end of a clause of a `case`. The last clause may do without it. -/
inductive ClauseEnd.Yields : ClauseEnd → List Token → Prop
  | absent : ClauseEnd.Yields .stop []
  | token {t : Token} {how : ClauseEnd} (ht : t.kind = .clauseEnd how) : ClauseEnd.Yields how [t]

/-- A clause of a `case`: patterns with bars between them, a closing parenthesis, and statements.
There may be an opening parenthesis before it, and line ends after it. -/
inductive CaseItem.Yields : CaseItem → List Token → Prop
  | mk {first : Word} {more : List Word} {list : List Statement} {ending : ClauseEnd}
      {close : Token} {paren ts us bs es ends : List Token}
      (hparen : paren.map Token.kind = [] ∨ paren.map Token.kind = [.openParen])
      (hfirst : first.Yields ts)
      (hmore : Listed (Announced (fun t => t.kind = .pipe) Word.Yields) more us)
      (hclose : close.kind = .closeParen) (hlist : Statements.Yields P list bs)
      (hending : ending.Yields es) (hends : LineEnds ends) :
      CaseItem.Yields ⟨first :: more, list, ending⟩
        (paren ++ (ts ++ (us ++ close :: (bs ++ (es ++ ends)))))

/-- **A compound command** without the redirections after it. -/
inductive Compound.Yields : Compound → List Token → Prop
  | ifElse {first : Clause} {more : List Clause} {orElse : Option (List Statement)}
      {start stop : Token} {ts us vs : List Token} (hstart : start.IsWord "if")
      (hfirst : first.Yields P ts)
      (hmore : Listed (Announced (Token.IsWord "elif") (Clause.Yields P)) more us)
      (horElse : Optionally (Announced (Token.IsWord "else") (Body.Yields P)) orElse vs)
      (hstop : stop.IsWord "fi") :
      Compound.Yields (.ifElse (first :: more) orElse) (start :: (ts ++ (us ++ (vs ++ [stop]))))
  | forEach {words : Option (List Word)} {list : List Statement} {start name : Token}
      {ends ts us : List Token} (hstart : start.IsWord "for") (hname : name.kind = .word)
      (hvalid : isValidName name.text) (hends : LineEnds ends)
      (hwords : Optionally (Announced (Token.IsWord "in") (Listed Word.Yields)) words ts)
      (hlist : LoopBody.Yields P list us) :
      Compound.Yields (.forEach name.text words list) (start :: name :: (ends ++ (ts ++ us)))
  | forArithmetic {init condition update : Option Word} {list : List Statement}
      {start sections : Token} {first second third : List Char} {ts : List Token}
      (hstart : start.IsWord "for") (hkind : sections.kind = .arithmetic)
      (hsplit : sections.text.toList.splitOn ';' = [first, second, third])
      (hinit : IsWordOf (.ofList (Text.strip first)) init)
      (hcondition : IsWordOf (.ofList (Text.strip second)) condition)
      (hupdate : IsWordOf (.ofList (Text.strip third)) update)
      (hlist : LoopBody.Yields P list ts) :
      Compound.Yields (.forArithmetic init condition update list) (start :: sections :: ts)
  | loop {kind : LoopKind} {condition list : List Statement} {start middle stop : Token}
      {ts us : List Token} (hstart : start.IsWord kind.keyword)
      (hcondition : Body.Yields P condition ts) (hmiddle : middle.IsWord "do")
      (hlist : Body.Yields P list us) (hstop : stop.IsWord "done") :
      Compound.Yields (.loop kind condition list) (start :: (ts ++ middle :: (us ++ [stop])))
  | case {subject : Word} {items : List CaseItem} {start middle stop : Token}
      {ss ends ends' ts : List Token} (hstart : start.IsWord "case") (hsubject : subject.Yields ss)
      (hends : LineEnds ends) (hmiddle : middle.IsWord "in") (hends' : LineEnds ends')
      (hitems : Listed (CaseItem.Yields P) items ts) (hstop : stop.IsWord "esac") :
      Compound.Yields (.case subject items)
        (start :: (ss ++ (ends ++ middle :: (ends' ++ (ts ++ [stop])))))
  | group {list : List Statement} {start stop : Token} {ts : List Token}
      (hstart : start.IsWord "\x7b") (hlist : Body.Yields P list ts) (hstop : stop.IsWord "\x7d") :
      Compound.Yields (.group list) (start :: (ts ++ [stop]))
  | arithmetic {expression : Word} {t : Token} (ht : t.kind = .arithmetic)
      (hraw : expression.raw = t.text) : Compound.Yields (.arithmetic expression) [t]
  | test {parts : List (List Word)} {start stop : Token} {ts : List Token}
      (hstart : start.IsWord "[[") (hparts : Listed Operands.Yields parts ts)
      (hne : parts.flatten ≠ []) (hstop : stop.IsWord "]]") :
      Compound.Yields (.test parts.flatten) (start :: (ts ++ [stop]))

/-! ## Commands -/

/-- The definition of a function from its name on, with the given parentheses. -/
inductive Definition.Yields (name : Token) (parens : List Token) : Command → List Token → Prop
  | mk {body : Compound} {rs : List Redirection} {ends ts : List Token} (hends : LineEnds ends)
      (hbody : P (.compound body rs) ts) :
      Definition.Yields name parens (.function name.text body rs) (name :: (parens ++ (ends ++ ts)))

/-- The tokens are an opening and a closing parenthesis. -/
def EmptyParens (tokens : List Token) : Prop :=
  tokens.map Token.kind = [.openParen, .closeParen]

/-- **A command**, given the tokens of the commands inside. A function that is defined without
`function` has parentheses after its name. -/
inductive Command.YieldsBy : Command → List Token → Prop
  | simple {c : SimpleCommand} {t : Token} {ts : List Token}
      (hc : SimpleCommand.Yields t.line c (t :: ts)) : Command.YieldsBy (.simple c) (t :: ts)
  | compound {c : Compound} {rs : List Redirection} {ts us : List Token} (hc : c.Yields P ts)
      (hrs : Listed Redirection.Yields rs us) : Command.YieldsBy (.compound c rs) (ts ++ us)
  | function {c : Command} {name : Token} {parens ts : List Token} (hname : name.kind = .word)
      (hparens : EmptyParens parens) (hc : Definition.Yields P name parens c ts) :
      Command.YieldsBy c ts
  | functionKeyword {c : Command} {start name : Token} {parens ts : List Token}
      (hstart : start.IsWord "function") (hname : name.kind = .word)
      (hparens : parens = [] ∨ EmptyParens parens) (hc : Definition.Yields P name parens c ts) :
      Command.YieldsBy c (start :: ts)

end

/-- **A command that nests at most so many levels deep.** -/
def Command.YieldsWithin : Nat → Command → List Token → Prop
  | 0 => fun _ _ => False
  | n + 1 => Command.YieldsBy (Command.YieldsWithin n)

/-! ## At least one token -/

section

variable {P : Command → List Token → Prop}

/-- What is read before its separator does not run in the background. -/
theorem Statement.Yields.foreground {s : Statement} {ts : List Token} (h : s.Yields P ts) :
    { s with background := false } = s := by
  cases h
  rfl

theorem Compound.Yields.ne_nil {c : Compound} {ts : List Token} (h : c.Yields P ts) : ts ≠ [] := by
  cases h <;> exact List.cons_ne_nil _ _

theorem Redirection.Yields.ne_nil {r : Redirection} {operator : Token} {ts : List Token}
    (h : r.Yields (operator :: ts)) : ts ≠ [] := by
  cases h with
  | word _ _ hw =>
    cases hw
    exact List.cons_ne_nil _ _
  | hereDocument => exact List.cons_ne_nil _ _

theorem Command.YieldsBy.ne_nil {c : Command} {ts : List Token} (h : c.YieldsBy P ts) :
    ts ≠ [] := by
  cases h with
  | simple | functionKeyword => exact List.cons_ne_nil _ _
  | compound hc => exact List.append_ne_nil_of_left_ne_nil hc.ne_nil _
  | function _ _ hc =>
    cases hc
    exact List.cons_ne_nil _ _

theorem Command.YieldsWithin.ne_nil {depth : Nat} {c : Command} {ts : List Token}
    (h : c.YieldsWithin depth ts) : ts ≠ [] := by
  cases depth with
  | zero => exact h.elim
  | succ n => exact YieldsBy.ne_nil h

variable (hP : ∀ c ts, P c ts → ts ≠ [])
include hP

theorem Pipeline.Yields.ne_nil {r : Pipeline} {ts : List Token} (h : r.Yields P ts) : ts ≠ [] := by
  cases h with
  | commands hc => exact List.append_ne_nil_of_left_ne_nil (hP _ _ hc) _
  | negated => exact List.cons_ne_nil _ _

theorem Statement.Yields.ne_nil {s : Statement} {ts : List Token} (h : s.Yields P ts) :
    ts ≠ [] := by
  obtain ⟨hfirst, -⟩ := h
  exact List.append_ne_nil_of_left_ne_nil (hfirst.ne_nil hP) _

end

/-! ## What a reader takes -/

namespace Reader

variable {ε τ α β σ : Type}

/-- **A reader takes items off the front**, and what it gives has these items. -/
def Consumes (Q : α → List τ → Prop) (read : Reader ε τ α) (items : List τ) : Prop :=
  ∀ a rest, read.outcome items = .ok (a, rest) → ∃ taken, taken ++ rest = items ∧ Q a taken

namespace Consumes

variable {Q R : α → List τ → Prop} {read : Reader ε τ α} {items : List τ}

theorem pure {a : α} (h : Q a []) : Consumes Q (pure a : Reader ε τ α) items := by
  rintro b rest hread
  cases hread
  exact ⟨[], rfl, h⟩

theorem congr {read' : Reader ε τ α} (h : Consumes Q read' items)
    (hsame : read.outcome items = read'.outcome items) : Consumes Q read items := by
  unfold Consumes
  rw [hsame]
  exact h

theorem fail {e : ε} : Consumes Q (Reader.fail e) items := by
  rintro a rest hread
  cases hread

theorem mono (h : Consumes Q read items) (hQ : ∀ a taken, Q a taken → R a taken) :
    Consumes R read items := by
  intro a rest hread
  obtain ⟨taken, htaken, ha⟩ := h a rest hread
  exact ⟨taken, htaken, hQ a taken ha⟩

/-- **One after the other**: the second reader is given what the first one leaves. -/
theorem bind {R : β → List τ → Prop} {f : α → Reader ε τ β} (h : Consumes Q read items)
    (hf : ∀ a taken rest, taken ++ rest = items → Q a taken →
      Consumes (fun b more => R b (taken ++ more)) (f a) rest) :
    Consumes R (read >>= f) items := by
  intro b rest' hread
  rw [outcome_bind] at hread
  rcases hfirst : read.outcome items with e | ⟨a, rest⟩ <;> rw [hfirst] at hread
  · cases hread
  · obtain ⟨taken, htaken, ha⟩ := h a rest hfirst
    obtain ⟨more, hmore, hb⟩ := hf a taken rest htaken ha b rest' hread
    exact ⟨taken ++ more, by rw [List.append_assoc, hmore, htaken], hb⟩

theorem map {R : β → List τ → Prop} {g : α → β} (h : Consumes Q read items)
    (hg : ∀ a taken, Q a taken → R (g a) taken) : Consumes R (g <$> read) items := by
  refine h.bind fun a taken rest _ ha => .pure ?_
  rw [List.append_nil]
  exact hg a taken ha

theorem pure_bind {R : β → List τ → Prop} {f : α → Reader ε τ β} {a : α}
    (h : Consumes R (f a) items) : Consumes R (Pure.pure a >>= f) items :=
  h.congr (outcome_bind _ _ items)

/-- A look at the next item takes nothing. -/
theorem peek {f : Option τ → Reader ε τ α} (h : Consumes Q (f items.head?) items) :
    Consumes Q (Reader.peek >>= f) items := by
  exact h.congr (outcome_bind _ _ items)

theorem skipWhile (p : τ → Bool) :
    Consumes (fun _ taken => ∀ t ∈ taken, p t) (skipWhile p : Reader ε τ Unit) items := by
  rintro a rest hread
  cases hread
  exact ⟨items.takeWhile p, List.takeWhile_append_dropWhile, fun t => List.mem_takeWhile_imp⟩

/-- **A loop keeps what each of its turns keeps** of the items taken so far. -/
theorem repeatFrom {I : σ → List τ → Prop} {step : σ → τ → Option (Reader ε τ σ)}
    (hstep : ∀ s before t read items, I s before → step s t = some read →
      Consumes (fun s' more => I s' (before ++ t :: more)) read items)
    {s : σ} {before : List τ} (hs : I s before) (items : List τ) :
    Consumes (fun s' taken => I s' (before ++ taken)) (repeatFrom s step) items := by
  induction hn : items.length using Nat.strongRecOn generalizing s before items with
  | ind n ih =>
    subst hn
    intro s' rest' hread
    cases items with
    | nil =>
      rw [outcome_repeatFrom_nil] at hread
      cases hread
      exact ⟨[], rfl, by simpa using hs⟩
    | cons t items =>
      rw [outcome_repeatFrom_cons] at hread
      cases hturn : step s t with
      | none =>
        rw [hturn] at hread
        cases hread
        exact ⟨[], rfl, by simpa using hs⟩
      | some read =>
        rw [hturn] at hread
        dsimp only at hread
        rcases hfirst : read.outcome items with e | ⟨a, rest⟩ <;> rw [hfirst] at hread
        · cases hread
        · obtain ⟨taken, htaken, ha⟩ := hstep s before t read items hs hturn a rest hfirst
          have hlt : rest.length < (t :: items).length :=
            Nat.lt_succ_of_le (outcome_length_le hfirst)
          obtain ⟨more, hmore, hs'⟩ := ih _ hlt ha rest rfl s' rest' hread
          refine ⟨t :: (taken ++ more), ?_, by simpa using hs'⟩
          rw [List.cons_append, List.append_assoc, hmore, htaken]

/-- **A loop that collects things**, last first, each from the items of its turn. -/
theorem listed {R : α → List τ → Prop} {step : List α → τ → Option (Reader ε τ (List α))}
    (hstep : ∀ done t read items, step done t = some read →
      Consumes (fun done' more => ∃ a, done' = a :: done ∧ R a (t :: more)) read items)
    (done : List α) (items : List τ) :
    Consumes (fun done' taken => ∃ as, done'.reverse = done.reverse ++ as ∧ Listed R as taken)
      (Reader.repeatFrom done step) items := by
  refine repeatFrom
    (I := fun (done' : List α) taken =>
      ∃ as, done'.reverse = done.reverse ++ as ∧ Listed R as taken)
    (fun done' before t read items hdone hturn => ?_) ⟨[], by simp, .nil⟩ items
  obtain ⟨as, has, hlisted⟩ := hdone
  refine (hstep done' t read items hturn).mono ?_
  rintro _ more ⟨a, rfl, ha⟩
  exact ⟨as ++ [a], by simp [has], hlisted.concat ha⟩

/-- A loop that starts with nothing gives the things that it collects. -/
theorem collected {R : α → List τ → Prop} {step : List α → τ → Option (Reader ε τ (List α))}
    (hstep : ∀ done t read items, step done t = some read →
      Consumes (fun done' more => ∃ a, done' = a :: done ∧ R a (t :: more)) read items)
    (items : List τ) :
    Consumes (fun done taken => Listed R done.reverse taken) (Reader.repeatFrom [] step) items := by
  refine (listed hstep [] items).mono ?_
  rintro done taken ⟨as, hdone, has⟩
  rw [hdone]
  exact has

end Consumes

end Reader

end VirtualShell
