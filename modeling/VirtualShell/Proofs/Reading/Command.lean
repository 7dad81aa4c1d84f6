import VirtualShell.Proofs.Reading.Reader

/-!
# Commands that are followed by a line end

A parser of commands does not look past the line end after a command, so it reads the same command
whatever comes after that line end. A list of statements goes on there: it reads what follows as it
would read it by itself.
-/

namespace VirtualShell

open Reader

/-- **Two levels that go along with each other**: one reads the words that a rule is about as the
other does, and its commands too when a line end follows. -/
structure Level.Along (rule : TokenRule) (l l' : Level) : Prop where
  parts (quoting : Quoting) {text : List Char} :
    rule.fine text → rule.Repeats rule.Parts (l.parts quoting text) (l'.parts quoting text)
  command {tail : List Token} (htail : StartsLine tail) (lastLine lastLine' : Nat) :
    AlongRefusing rule tail (fun _ => True) (ofRest (l.command lastLine))
      (ofRest (l'.command lastLine'))

namespace Parser

/-- Two parsers whose inner levels go along with each other, with a line end and more tokens for one
of them. -/
structure Along (rule : TokenRule) (tail : List Token) (p p' : Parser) : Prop where
  startsLine : StartsLine tail
  lower : Level.Along rule p.lower p'.lower

variable {rule : TokenRule} {tail : List Token} {α : Type} {good : α → Prop}

/-! ## Errors and single tokens -/

theorem final_unexpectedAt (p : Parser) (tokens : List Token) :
    rule.Final (p.unexpectedAt tokens) := by
  cases tokens <;> exact TokenRule.final_grammar _ _

theorem final_relocate (p : Parser) (tokens : List Token) {e : SyntaxError}
    (h : rule.refused e) : rule.Final (p.relocate tokens e) := by
  cases e with
  | lexical cause line => exact TokenRule.final_grammar _ _
  | grammar cause line => exact TokenRule.final_grammar _ _
  | integer cause => exact ⟨h, nofun⟩

namespace Along

theorem refusing_unexpected {p : Parser} {read' : TokenReader α} :
    AlongRefusing rule tail good p.unexpected read' :=
  ⟨fun tokens _ => final_unexpectedAt p tokens, _, rfl⟩

theorem lift (p p' : Parser) {x y : Except SyntaxError α} (hxy : rule.Repeats good x y) :
    Reader.Along rule tail True good (p.lift x) (p'.lift y) := by
  intro tokens htokens
  cases x with
  | error e => exact final_relocate p tokens hxy
  | ok a =>
    obtain ⟨ha, rfl⟩ := hxy
    exact ⟨ha, htokens, fun _ => rfl⟩

theorem expect (p p' : Parser) (kind : TokenKind) :
    AlongRefusing rule tail rule.Fine (p.expect kind) (p'.expect kind) := by
  refine ⟨fun tokens htokens => ?_, _, rfl⟩
  cases tokens with
  | nil => exact final_unexpectedAt p []
  | cons t rest =>
    have hfine := TokenRule.fine_of_tokens htokens
    unfold outcome Parser.expect
    dsimp only [List.cons_append]
    split
    · exact ⟨hfine, rule.tokens_tail htokens, fun _ => rfl⟩
    · exact final_unexpectedAt p (t :: rest)

theorem keyword (p p' : Parser) (text : String) :
    AlongRefusing rule tail (fun _ => True) (p.keyword text) (p'.keyword text) := by
  refine ⟨fun tokens htokens => ?_, _, rfl⟩
  cases tokens with
  | nil => exact TokenRule.final_grammar _ _
  | cons t rest =>
    unfold outcome Parser.keyword
    dsimp only [List.cons_append]
    split
    · exact ⟨trivial, rule.tokens_tail htokens, fun _ => rfl⟩
    · exact final_unexpectedAt p (t :: rest)

theorem keyword? (htail : StartsLine tail) (text : String) :
    Reader.Along rule tail True (fun _ => True) (Parser.keyword? text) (Parser.keyword? text) := by
  intro tokens htokens
  cases tokens with
  | nil =>
    refine ⟨trivial, htokens, fun _ => ?_⟩
    cases tail with
    | nil => rfl
    | cons t tail =>
      have hkind := htail t rfl
      simp [outcome, Parser.keyword?, hkind, Except.map]
  | cons t rest =>
    unfold outcome Parser.keyword?
    dsimp only [List.cons_append]
    split
    · exact ⟨trivial, rule.tokens_tail htokens, fun _ => rfl⟩
    · exact ⟨trivial, htokens, fun _ => rfl⟩

variable {p p' : Parser} (h : p.Along rule tail p')
include h

theorem word {text : String} (htext : rule.fine text.toList) :
    Reader.Along rule tail True (fun _ => True) (p.word text) (p'.word text) :=
  lift p p' ((h.lower.parts .unquoted htext).map fun _ _ => trivial)

theorem expandedText {text : String} (htext : rule.fine text.toList) :
    Reader.Along rule tail True (fun _ => True) (p.expandedText text) (p'.expandedText text) :=
  lift p p' ((h.lower.parts .hereDocument htext).map fun _ _ => trivial)

/-! ## Lists, statements and pipelines -/

omit h in
theorem innerCommand_eq (p : Parser) : p.innerCommand = ofRest (p.lower.command p.lastLine) := by
  funext tokens
  unfold innerCommand ofRest
  rcases p.lower.command p.lastLine tokens with e | ⟨c, rest, hrest⟩ <;> rfl

theorem innerCommand :
    AlongRefusing rule tail (fun _ => True) p.innerCommand p'.innerCommand := by
  rw [innerCommand_eq, innerCommand_eq]
  exact h.lower.command h.startsLine p.lastLine p'.lastLine

theorem stages (done : List Command) :
    Reader.Along rule tail True (fun _ => True) (p.stages done) (p'.stages done) := by
  refine .repeatFrom h.startsLine (fun s t _ => ?_) (fun _ s t ht => by simp [ht]) done
  split
  · refine (Reader.Along.bindRefusing (.skipWhile _) fun _ _ => ?_).along
    exact h.innerCommand.bind fun c _ => .ok trivial
  · trivial

omit h in
/-- A pipeline is a `!` and a pipeline, or a command and what it is piped into. -/
theorem outcome_pipeline (p : Parser) (negated : Bool) (t : Token) (tokens : List Token) :
    (ofRest (p.pipeline negated)).outcome (t :: tokens) =
      if t.kind == .word && t.text == "!" then (ofRest (p.pipeline (!negated))).outcome tokens
      else
        (do
          let c ← p.innerCommand
          let cs ← p.stages [c]
          pure (⟨cs.reverse, negated⟩ : Pipeline)).outcome (t :: tokens) := by
  unfold outcome ofRest
  rw [Parser.pipeline]
  split
  · rcases p.pipeline (!negated) tokens with e | ⟨r, rest, hrest⟩ <;> rfl
  · rw [← outcome.eq_def, outcome_bind, innerCommand_eq]
    unfold outcome ofRest
    rcases p.lower.command p.lastLine (t :: tokens) with e | ⟨c, rest, hrest⟩
    · rfl
    · change _ = ((p.stages [c] >>= _ : TokenReader Pipeline).outcome rest)
      rw [outcome_bind, outcome]
      dsimp only
      rcases p.stages [c] rest with e | ⟨cs, rest', hrest'⟩ <;> rfl

theorem pipeline (negated : Bool) :
    AlongRefusing rule tail (fun _ => True) (ofRest (p.pipeline negated))
      (ofRest (p'.pipeline negated)) := by
  obtain ⟨e, he⟩ := h.innerCommand.refuses
  rw [innerCommand_eq] at he
  have hend (negated : Bool) : (ofRest (p.pipeline negated)).outcome [] = .error e := by
    unfold outcome ofRest at he ⊢
    rw [Parser.pipeline]
    rcases hcommand : p.lower.command p.lastLine [] with e' | found
    all_goals
      rw [hcommand] at he
      cases he
    rfl
  refine ⟨fun tokens htokens => ?_, e, hend negated⟩
  induction tokens generalizing negated with
  | nil =>
    have hfinal := h.innerCommand.along [] htokens
    rw [innerCommand_eq, he] at hfinal
    rw [hend]
    exact hfinal
  | cons t tokens ih =>
    rw [List.cons_append, outcome_pipeline, outcome_pipeline]
    split
    · exact ih (!negated) (rule.tokens_tail htokens)
    · refine (h.innerCommand.bind fun c _ => ?_).along (t :: tokens) htokens
      exact (h.stages [c]).bind fun cs _ => .ok trivial

omit h in
theorem links_eq (p : Parser) : p.links = Reader.repeatFrom [] fun done t =>
    (connective? t).map fun op => (do
      skipNewlines
      let r ← ofRest (p.pipeline false)
      pure ((op, r) :: done)) := by
  refine congrArg (Reader.repeatFrom []) (funext fun done => funext fun t => ?_)
  refine congrArg (fun read => (connective? t).map read) (funext fun op => ?_)
  refine congrArg (fun read => skipNewlines >>= read) (funext fun _ => ?_)
  refine congrArg (fun read => read >>= fun r => pure ((op, r) :: done)) (funext fun tokens => ?_)
  unfold ofRest
  rcases p.pipeline false tokens with e | ⟨r, rest, hrest⟩ <;> rfl

theorem links : Reader.Along rule tail True (fun _ => True) p.links p'.links := by
  rw [links_eq, links_eq]
  refine .repeatFrom h.startsLine (fun s t _ => ?_) (fun _ s t ht => by simp [connective?, ht]) []
  cases connective? t with
  | none => trivial
  | some op =>
    refine (Reader.Along.bindRefusing (.skipWhile _) fun _ _ => ?_).along
    exact (h.pipeline false).bind fun r _ => .ok trivial

omit h in
/-- A statement is a pipeline and those that are joined to it. -/
theorem outcome_statement (p : Parser) : (ofRest p.statement).outcome =
    (do
      let first ← ofRest (p.pipeline false)
      let more ← p.links
      pure (⟨first, more.reverse, false⟩ : Statement)).outcome := by
  funext tokens
  rw [outcome_bind]
  unfold outcome ofRest Parser.statement
  rcases p.pipeline false tokens with e | ⟨c, rest, hrest⟩
  · rfl
  · change _ = ((p.links >>= _ : TokenReader Statement).outcome rest)
    rw [outcome_bind, outcome]
    dsimp only
    rcases p.links rest with e | ⟨cs, rest', hrest'⟩ <;> rfl

theorem statement :
    AlongRefusing rule tail (fun _ => True) (ofRest p.statement) (ofRest p'.statement) := by
  refine .congr ((h.pipeline false).bind fun first _ => h.links.bind fun more _ => ?_)
    (outcome_statement p) (outcome_statement p')
  exact .ok trivial

/-- The list of statements that goes on after some of them. -/
def statementsFrom (p : Parser) (stops : List String) (done : List Statement) :
    TokenReader (List Statement) := fun tokens => p.statements stops done (.all tokens)

omit h in
/-- What is read does not depend on the list that the tokens are part of. -/
theorem statements_start (p : Parser) (stops : List String) (done : List Statement)
    (tokens : List Token) {start : List Token} (hle : tokens.length ≤ start.length) :
    ((p.statements stops done (⟨tokens, hle⟩ : Tail start)).map fun found =>
      (found.1, found.2.1)) = (statementsFrom p stops done).outcome tokens := by
  induction hn : tokens.length using Nat.strongRecOn generalizing tokens done start with
  | ind n ih =>
    subst hn
    have hnext : (tokens.dropWhile fun t => t.kind == .newline).length ≤ tokens.length :=
      (tokens.dropWhile_sublist _).length_le
    rw [outcome, statementsFrom, Tail.all, statements, statements]
    dsimp only
    split
    · rfl
    · rcases p.statement (tokens.dropWhile fun t => t.kind == .newline) with
        e | ⟨s, - | ⟨t, rest⟩, hrest⟩
      · rfl
      · rfl
      · have hlt : rest.length < tokens.length := by
          simp only [List.length_cons] at hrest
          omega
        dsimp only
        split
        · exact (ih rest.length hlt _ rest _ rfl).trans (ih rest.length hlt _ rest _ rfl).symm
        split
        · exact (ih rest.length hlt _ rest _ rfl).trans (ih rest.length hlt _ rest _ rfl).symm
        split <;> rfl

/-- What comes after a statement: a separator and further statements, or the end of the list. -/
def afterStatement (p : Parser) (stops : List String) (done : List Statement) :
    Statement × List Token → Except SyntaxError (List Statement × List Token)
  | (s, []) => .ok ((s :: done).reverse, [])
  | (s, t :: rest) =>
    if t.kind == .semicolon || t.kind == .newline then
      (statementsFrom p stops (s :: done)).outcome rest
    else if t.kind == .ampersand then
      (statementsFrom p stops ({ s with background := true } :: done)).outcome rest
    else if atListEnd stops (t :: rest) then .ok ((s :: done).reverse, t :: rest)
    else .error (p.unexpectedAt (t :: rest))

omit h in
/-- **A list of statements** ends at once, or is a statement and what comes after it. -/
theorem outcome_statements (p : Parser) (stops : List String) (done : List Statement)
    (tokens : List Token) : (statementsFrom p stops done).outcome tokens =
      let next := tokens.dropWhile fun t => t.kind == .newline
      if atListEnd stops next then .ok (done.reverse, next)
      else (ofRest p.statement).outcome next >>= afterStatement p stops done := by
  rw [outcome, statementsFrom, Tail.all, statements]
  dsimp only
  split
  · rfl
  · rw [outcome, ofRest]
    rcases p.statement (tokens.dropWhile fun t => t.kind == .newline) with
      e | ⟨s, - | ⟨t, rest⟩, hrest⟩
    · rfl
    · rfl
    · change _ = afterStatement p stops done (s, t :: rest)
      rw [afterStatement]
      dsimp only
      split
      · exact statements_start p stops _ rest _
      split
      · exact statements_start p stops _ rest _
      split <;> rfl

omit h in
/-- Line ends are no statements. -/
theorem outcome_statements_lineEnds (htail : LineEnds tail) (p : Parser) (stops : List String)
    (done : List Statement) : (statementsFrom p stops done).outcome tail = .ok (done.reverse, []) := by
  have hdrop : tail.dropWhile (fun t => t.kind == .newline) = [] := by
    induction tail with
    | nil => rfl
    | cons t tail ih =>
      rw [List.dropWhile_cons_of_pos (by simp [htail t List.mem_cons_self])]
      exact ih fun t ht => htail t (List.mem_cons_of_mem _ ht)
  rw [outcome_statements, hdrop]
  rfl

omit h in
/-- A line end before statements is passed over. -/
theorem outcome_statements_cons {t : Token} (ht : t.kind = .newline) (p : Parser)
    (stops : List String) (done : List Statement) (tokens : List Token) :
    (statementsFrom p stops done).outcome (t :: tokens) =
      (statementsFrom p stops done).outcome tokens := by
  rw [outcome_statements, outcome_statements, List.dropWhile_cons_of_pos (by simp [ht])]

omit h in
/-- The statements that were read before stay in front. -/
theorem outcome_statementsFrom (p : Parser) (stops : List String) (done : List Statement)
    (tokens : List Token) : (statementsFrom p stops done).outcome tokens =
      ((statementsFrom p stops []).outcome tokens).map fun found =>
        (done.reverse ++ found.1, found.2) := by
  induction hn : tokens.length using Nat.strongRecOn generalizing done tokens with
  | ind n ih =>
    subst hn
    rw [outcome_statements, outcome_statements p stops []]
    dsimp only
    have hle := (tokens.dropWhile_sublist fun t => t.kind == .newline).length_le
    generalize tokens.dropWhile (fun t => t.kind == .newline) = next at hle
    split
    · simp [Except.map]
    rcases hs : (ofRest p.statement).outcome next with e | ⟨s, - | ⟨t, rest⟩⟩
    · rfl
    · simp [afterStatement, Bind.bind, Except.bind, Except.map]
    · have hlt : rest.length < tokens.length :=
        Nat.lt_of_succ_le (Nat.le_trans (outcome_length_le hs) hle)
      have hnext (s : Statement) : (statementsFrom p stops (s :: done)).outcome rest =
          ((statementsFrom p stops [s]).outcome rest).map fun found =>
            (done.reverse ++ found.1, found.2) := by
        rw [ih _ hlt (s :: done) rest rfl, ih _ hlt [s] rest rfl]
        cases (statementsFrom p stops []).outcome rest <;> simp [Except.map]
      change afterStatement p stops done (s, t :: rest) =
        (afterStatement p stops [] (s, t :: rest)).map _
      rw [afterStatement, afterStatement]
      split
      · exact hnext s
      split
      · exact hnext _
      split
      · simp [Except.map]
      · rfl

/-- Two lists of statements that are the same. Where nothing else is left the second one goes on
with what follows. -/
def StatementsAlong (rule : TokenRule) (tail : List Token) (p' : Parser) (stops : List String)
    (first second : Except SyntaxError (List Statement × List Token)) : Prop :=
  match first with
  | .error e => rule.Final e
  | .ok (list, rest) =>
    rule.tokens rest ∧ second =
      if rest = [] then (statementsFrom p' stops list.reverse).outcome tail
      else .ok (list, rest ++ tail)

/-- **The same statements are read.** -/
theorem statements (stops : List String) (done : List Statement) {tokens : List Token}
    (htokens : rule.tokens tokens) :
    StatementsAlong rule tail p' stops ((statementsFrom p stops done).outcome tokens)
      ((statementsFrom p' stops done).outcome (tokens ++ tail)) := by
  induction hn : tokens.length using Nat.strongRecOn generalizing tokens done with
  | ind n ih =>
    subst hn
    have hnext := TokenRule.tokens_dropWhile htokens fun t => t.kind == .newline
    have hdrop : (tokens ++ tail).dropWhile (fun t => t.kind == .newline) = _ :=
      List.dropWhile_append
    rw [outcome_statements p, outcome_statements p' stops done (tokens ++ tail)]
    dsimp only
    cases hcons : tokens.dropWhile fun t => t.kind == .newline with
    | nil =>
      rw [hcons, if_pos (by simp)] at hdrop
      rw [hdrop]
      refine ⟨rule.tokens_nil, ?_⟩
      rw [if_pos rfl, List.reverse_reverse, outcome_statements]
    | cons t next =>
      rw [hcons, if_neg (by simp)] at hdrop
      rw [hcons] at hnext
      have hlength : (t :: next).length ≤ tokens.length :=
        hcons ▸ (tokens.dropWhile_sublist _).length_le
      have hstop : atListEnd stops (t :: next ++ tail) = atListEnd stops (t :: next) := rfl
      rw [hdrop, hstop]
      split
      · exact ⟨hnext, rfl⟩
      have hstatement := h.statement.along (t :: next) hnext
      rcases hs : (ofRest p.statement).outcome (t :: next) with e | ⟨s, rest⟩
      · rw [hs] at hstatement
        exact hstatement
      rw [hs] at hstatement
      obtain ⟨-, hrest, hsame⟩ := hstatement
      rw [hsame (.inr trivial)]
      change StatementsAlong rule tail p' stops (afterStatement p stops done (s, rest))
        (afterStatement p' stops done (s, rest ++ tail))
      cases rest with
      | nil =>
        refine ⟨rule.tokens_nil, ?_⟩
        rw [if_pos rfl, List.reverse_reverse]
        rcases htail : tail with - | ⟨t', tail'⟩
        · rw [outcome_statements]
          rfl
        · have ht' : t'.kind = .newline := h.startsLine t' (by rw [htail]; rfl)
          rw [List.nil_append, afterStatement, if_pos (by simp [ht']), outcome_statements_cons ht']
      | cons t' rest =>
        have hlt : rest.length < tokens.length :=
          Nat.lt_of_succ_le (Nat.le_trans (outcome_length_le hs) hlength)
        have htokens' := rule.tokens_tail hrest
        rw [List.cons_append, afterStatement, afterStatement]
        split
        · exact ih rest.length hlt (s :: done) htokens' rfl
        split
        · exact ih rest.length hlt ({ s with background := true } :: done) htokens' rfl
        have hstop : atListEnd stops (t' :: (rest ++ tail)) = atListEnd stops (t' :: rest) := rfl
        rw [hstop]
        split
        · exact ⟨hrest, rfl⟩
        · exact final_unexpectedAt p _

theorem statementList (stops : List String) :
    Reader.Along rule tail False (fun _ => True) (p.statementList stops)
      (p'.statementList stops) := by
  intro tokens htokens
  have hsame := h.statements stops [] htokens
  change OutcomesAlong rule tail False _ ((statementsFrom p stops []).outcome tokens)
    ((statementsFrom p' stops []).outcome (tokens ++ tail))
  rcases hlist : (statementsFrom p stops []).outcome tokens with e | ⟨list, rest⟩ <;>
    rw [hlist] at hsame
  · exact hsame
  · refine ⟨trivial, hsame.1, fun hleft => ?_⟩
    rw [hsame.2, if_neg (hleft.resolve_right id)]

theorem body (stops : List String) :
    Reader.Along rule tail False (fun _ => True) (p.body stops) (p'.body stops) := by
  refine (h.statementList stops).bind fun list _ => ?_
  split
  · exact refusing_unexpected.along.inside
  · exact .ok trivial

/-! ## Redirections and simple commands -/

theorem redirection {operator : Token} (hoperator : rule.Fine operator) (op : RedirectOp) :
    AlongRefusing rule tail (fun _ => True) (p.redirection operator op)
      (p'.redirection operator op) := by
  refine (expect p p' .word).bind fun target htarget => ?_
  split
  · split
    · exact .fail (TokenRule.final_grammar _ _)
    · next doc hdoc =>
      split
      · exact .ok trivial
      · refine (h.expandedText (hoperator.document doc ?_)).bind fun content _ => .ok trivial
        rw [hdoc]
        rfl
  · exact (h.word htarget.text).bind fun target _ => .ok trivial

theorem redirections :
    Reader.Along rule tail True (fun _ => True) p.redirections p'.redirections := by
  refine Reader.Along.bind (.repeatFrom h.startsLine (fun s t ht => ?_) ?_ []) fun done _ => .ok trivial
  · split
    · exact ((h.redirection ht _).bind fun r _ => .ok trivial).along
    · trivial
  · intro _ s t ht
    simp [ht]

theorem addWord (c : SimpleCommand) {text : String} (htext : rule.fine text.toList) :
    Reader.Along rule tail True (fun _ => True) (p.addWord c text) (p'.addWord c text) := by
  unfold Parser.addWord
  split
  · exact (h.word htext).bind fun arg _ => .ok trivial
  · split
    · next name append value hassignment =>
      have hvalue := rule.fine_inner (readAssignment?_suffix hassignment).isInfix htext
      dsimp only
      split
      · exact .ok trivial
      · exact ((h.word hvalue).map some).bind fun value _ => .ok trivial
    · exact (h.word htext).bind fun name _ => .ok trivial

theorem simpleItem (c : SimpleCommand) {t : Token} (ht : rule.Fine t) :
    AlongTurns rule tail True (p.simpleItem c t) (p'.simpleItem c t) := by
  unfold Parser.simpleItem
  split
  · exact ((h.redirection ht _).bind fun r _ => .ok trivial).along
  · exact h.addWord c ht.text
  · trivial


/-! ## Compound commands -/

theorem doGroup : AlongRefusing rule tail (fun _ => True) p.doGroup p'.doGroup := by
  refine Reader.Along.bindRefusing (.skipWhile _) fun _ _ => (keyword p p' _).bind fun _ _ => ?_
  refine ((h.body _).bindRefusing fun list _ => ?_).along
  exact (keyword p p' _).bind fun _ _ => .ok trivial

theorem clause : Reader.Along rule tail False (fun _ => True) p.clause p'.clause := by
  refine (h.body _).bind fun condition _ => (keyword p p' _).along.inside.bind fun _ _ => ?_
  exact (h.body _).bind fun list _ => .ok trivial

theorem clauses (first : Clause) :
    Reader.Along rule tail False (fun _ => True) (p.clauses first) (p'.clauses first) := by
  refine Reader.Along.bind (.repeatFrom h.startsLine (fun s t _ => ?_) nofun _) fun done _ =>
    .ok trivial
  split
  · exact h.clause.map _
  · trivial

theorem ifElse : AlongRefusing rule tail (fun _ => True) p.ifElse p'.ifElse := by
  refine h.clause.bindRefusing fun first _ => (h.clauses first).bindRefusing fun clauses _ => ?_
  refine Reader.Along.bindRefusing (keyword? h.startsLine "else").inside fun found _ => ?_
  dsimp only
  split
  · refine ((h.body _).map some).bindRefusing fun orElse _ => ?_
    exact (keyword p p' _).bind fun _ _ => .ok trivial
  · exact .pure_bind ((keyword p p' _).bind fun _ _ => .ok trivial)

theorem wordList : Reader.Along rule tail True (fun _ => True) p.wordList p'.wordList := by
  refine Reader.Along.bind (.repeatFrom h.startsLine (fun s t ht => ?_) ?_ _) fun done _ =>
    .ok trivial
  · split
    · exact (h.word ht.text).map _
    · trivial
  · intro _ s t ht
    simp [ht]


theorem section? {text : List Char} (htext : rule.fine text) :
    Reader.Along rule tail True (fun _ => True) (p.section? text) (p'.section? text) := by
  unfold Parser.section?
  dsimp only
  split
  · exact .ok trivial
  · refine (h.expandedText ?_).map some
    rw [String.toList_ofList]
    exact rule.fine_inner (Text.strip_infix text) htext

theorem forLoop : AlongRefusing rule tail (fun _ => True) p.forLoop p'.forLoop := by
  refine .peek (fun t ht => ?_) ⟨_, rfl, final_unexpectedAt p []⟩
  dsimp only
  split
  · refine ((expect p p' .arithmetic).bind fun _ _ => ?_).along
    split
    · next init condition update hsplit =>
      have hpieces : t.text.toList = init ++ ';' :: (condition ++ ';' :: update) := by
        have hjoined : [';'].intercalate (t.text.toList.splitOn ';') = t.text.toList :=
          List.intercalate_splitOn ';'
        rw [hsplit] at hjoined
        rw [← hjoined]
        simp [List.intercalate]
      have hinit : init <:+: t.text.toList := ⟨[], _, hpieces.symm⟩
      have hcondition : condition <:+: t.text.toList :=
        ⟨init ++ [';'], ';' :: update, by simp [hpieces]⟩
      have hupdate : update <:+: t.text.toList :=
        ⟨init ++ ';' :: (condition ++ [';']), [], by simp [hpieces]⟩
      refine (h.section? (rule.fine_inner hinit ht.text)).bind fun init _ => ?_
      refine (h.section? (rule.fine_inner hcondition ht.text)).bind fun condition _ => ?_
      refine (h.section? (rule.fine_inner hupdate ht.text)).bind fun update _ => ?_
      exact (h.doGroup.bind fun list _ => .ok trivial).along
    · exact .fail (TokenRule.final_grammar _ _)
  · refine ((expect p p' .word).bind fun name hname => ?_).along
    split
    · exact .fail (TokenRule.final_grammar _ _)
    · refine (Reader.Along.bindRefusing (.skipWhile _) fun _ _ => ?_).along
      refine Reader.Along.bindRefusing (keyword? h.startsLine "in").inside fun found _ => ?_
      split
      · refine Reader.Along.bindRefusing (h.wordList.map some).inside fun words _ => ?_
        exact h.doGroup.bind fun list _ => .ok trivial
      · exact .pure_bind (h.doGroup.bind fun list _ => .ok trivial)

theorem conditionLoop (kind : LoopKind) : AlongRefusing rule tail (fun _ => True)
    (p.conditionLoop kind) (p'.conditionLoop kind) := by
  refine (h.body _).bindRefusing fun condition _ => (keyword p p' _).bind fun _ _ => ?_
  refine ((h.body _).bindRefusing fun list _ => ?_).along
  exact (keyword p p' _).bind fun _ _ => .ok trivial

theorem patterns (first : Word) :
    Reader.Along rule tail True (fun _ => True) (p.patterns first) (p'.patterns first) := by
  refine Reader.Along.bind (.repeatFrom h.startsLine (fun s t _ => ?_) ?_ _) fun done _ =>
    .ok trivial
  · split
    · refine ((expect p p' .word).bind fun t ht => ?_).along
      exact (h.word ht.text).bind fun w _ => .ok trivial
    · trivial
  · intro _ s t ht
    simp [ht]

theorem caseItem {first : String} (hfirst : rule.fine first.toList) :
    Reader.Along rule tail False (fun _ => True) (p.caseItem first) (p'.caseItem first) := by
  refine (h.word hfirst).inside.bind fun first _ => (h.patterns first).inside.bind fun _ _ => ?_
  refine (expect p p' .closeParen).along.inside.bind fun _ _ => ?_
  refine (h.statementList _).bind fun list _ => ?_
  refine Reader.Along.bind (?_ : Reader.Along rule tail False (fun _ => True) _ _)
    fun ending _ => Reader.Along.bind (.skipWhile _) fun _ _ => .ok trivial
  intro tokens htokens
  rcases tokens with - | ⟨⟨kind, text, line, descriptor, document⟩, rest⟩
  · exact ⟨trivial, htokens, fun hleft => (hleft.resolve_right id rfl).elim⟩
  · cases kind with
    | clauseEnd how => exact ⟨trivial, rule.tokens_tail htokens, fun _ => rfl⟩
    | _ => exact ⟨trivial, htokens, fun _ => rfl⟩

theorem caseItems : AlongRefusing rule tail (fun _ => True) p.caseItems p'.caseItems := by
  refine Reader.Along.bindRefusing (.repeatFrom h.startsLine (fun s t ht => ?_) nofun _) fun done _ =>
    .peek (fun t _ => .ok trivial) ⟨_, rfl, final_unexpectedAt p []⟩
  split
  · split
    · trivial
    · exact (h.caseItem ht.text).map _
  split
  · refine (expect p p' .word).along.inside.bind fun first hfirst => ?_
    exact (h.caseItem hfirst.text).bind fun _ _ => .ok trivial
  · exact .fail (final_unexpectedAt p [t])

theorem caseOf : AlongRefusing rule tail (fun _ => True) p.caseOf p'.caseOf := by
  refine (expect p p' .word).bind fun subject hsubject => ?_
  refine (Reader.Along.bindRefusing (.skipWhile _) fun _ _ => (keyword p p' _).bind fun _ _ => ?_).along
  refine (Reader.Along.bindRefusing (.skipWhile _) fun _ _ => h.caseItems.bind fun items _ => ?_).along
  refine ((keyword p p' _).bind fun _ _ => ?_).along
  exact (h.word hsubject.text).bind fun subject _ => .ok trivial

theorem group : AlongRefusing rule tail (fun _ => True) p.group p'.group :=
  (h.body _).bindRefusing fun _ _ => (keyword p p' _).bind fun _ _ => .ok trivial

/-! ## Conditions -/

omit h in
/-- The tokens of a text that the rule is about. -/
theorem repeats_ofText {text : List Char} (htext : rule.fine text) :
    rule.Repeats (fun stream => rule.tokens stream.tokens)
      (TokenStream.ofText (String.ofList text)) (TokenStream.ofText (String.ofList text)) := by
  rcases hstream : TokenStream.ofText (String.ofList text) with e | stream
  · exact rule.refused_ofText htext hstream
  · exact .ok (rule.tokens_ofText htext hstream)

omit h in
theorem regexOperand_suffix (depth : Nat) (raw : String) (tokens : List Token) :
    (regexOperand depth raw tokens).2 <:+ tokens := by
  fun_induction regexOperand depth raw tokens with
  | case1 | case2 | case3 | case5 => exact List.suffix_refl _
  | case4 _ _ _ _ _ _ _ ih | case6 _ _ _ _ _ _ _ ih | case7 _ _ _ _ _ _ _ ih
  | case8 _ _ _ _ _ _ _ _ _ _ ih => exact ih.trans (List.suffix_cons _ _)

omit h in
/-- The operand of `=~` ends at a line end. -/
theorem regexOperand_append (htail : StartsLine tail) (depth : Nat) (raw : String)
    (tokens : List Token) : regexOperand depth raw (tokens ++ tail) =
      ((regexOperand depth raw tokens).1, (regexOperand depth raw tokens).2 ++ tail) := by
  fun_induction regexOperand depth raw tokens with
  | case1 depth raw =>
    cases tail with
    | nil => rfl
    | cons t tail => simp [regexOperand, htail t rfl]
  | case2 depth raw t tokens hline => simp [regexOperand, hline]
  | case8 depth raw t tokens hline hgo fd hopen hclose harithmetic ih =>
    rw [List.cons_append, regexOperand.eq_def]
    refine (if_neg hline).trans ((if_neg hgo).trans ?_)
    split
    · next hkind => exact absurd hkind hopen
    · next hkind => exact absurd hkind hclose
    · next hkind => exact absurd hkind harithmetic
    · exact ih
  | _ => simp_all [regexOperand, atWord]

theorem operandWord {t : Token} (ht : rule.Fine t) :
    Reader.Along rule tail True (fun _ => True) (p.operandWord t) (p'.operandWord t) := by
  refine (h.word ht.text).bind fun w _ => ?_
  split
  · refine Reader.Along.bind
      (?_ : Reader.Along rule tail True (fun raw => rule.fine raw.toList) _ _) fun raw hraw => ?_
    · intro tokens htokens
      refine ⟨rule.fine_regex htokens, ?_, fun _ => ?_⟩
      · obtain ⟨before, hbefore⟩ := regexOperand_suffix 0 "" tokens
        exact TokenRule.tokens_suffix (hbefore ▸ htokens)
      · exact congrArg Except.ok (regexOperand_append h.startsLine 0 "" tokens)
    · split
      · exact .ok trivial
      · exact (h.word hraw).bind fun operand _ => .ok trivial
  · exact .ok trivial

theorem innerOperands (done : List Word) {tokens : List Token} (htokens : rule.tokens tokens) :
    Reader.Along rule tail True (fun _ => True) (p.innerOperands done tokens)
      (p'.innerOperands done tokens) := by
  induction tokens generalizing done with
  | nil => exact .ok trivial
  | cons t tokens ih =>
    have hrest := rule.tokens_tail htokens
    unfold Parser.innerOperands
    dsimp only
    split
    · exact (h.word (rule.fine_text htokens)).bind fun w _ => ih (w :: done) hrest
    · exact .pure_bind (ih _ hrest)

theorem operands {t : Token} (ht : rule.Fine t) :
    Reader.Along rule tail True (fun _ => True) (p.operands t) (p'.operands t) := by
  unfold Parser.operands
  split
  · exact .ok trivial
  · exact h.operandWord ht
  · refine Reader.Along.bind (lift p p' ?_) fun inner hinner =>
      (h.innerOperands [] hinner).bind fun list _ => .ok trivial
    rw [← String.ofList_toList (s := t.text)]
    exact repeats_ofText ht.text
  · exact .ok trivial

theorem testOperands (startLine : Nat) : AlongRefusing rule tail (fun _ => True)
    (p.testOperands startLine) (p'.testOperands startLine) := by
  refine Reader.Along.bindRefusing (.repeatFrom h.startsLine (fun s t ht => ?_) nofun _) fun done _ =>
    .peek (fun t _ => ?_) ⟨_, rfl, TokenRule.final_grammar _ _⟩
  · split
    · trivial
    · exact ((h.operands ht).map _).inside
  · exact ((keyword p p' _).bind fun _ _ => .ok trivial).along

theorem test (line : Nat) : AlongRefusing rule tail (fun _ => True) (p.test line) (p'.test line) := by
  refine (h.testOperands line).bind fun words _ => ?_
  split
  · exact .fail (TokenRule.final_grammar _ _)
  · exact .ok trivial

/-! ## Commands -/

/-- The body of a function, after its name and the parentheses. -/
def functionRest (p : Parser) (name : Token) : TokenReader Command := do
  skipNewlines
  match ← p.innerCommand with
  | .compound body redirections => pure (.function name.text body redirections)
  | _ => fail (.grammar (.badFunctionBody name.text) (some name.line))

theorem along_functionRest (name : Token) : AlongRefusing rule tail (fun _ => True)
    (functionRest p name) (functionRest p' name) := by
  refine Reader.Along.bindRefusing (.skipWhile _) fun _ _ => h.innerCommand.bind fun c _ => ?_
  cases c with
  | compound body redirections => exact .ok trivial
  | _ => exact .fail (TokenRule.final_grammar _ _)

theorem functionBody (name : Token) : AlongRefusing rule tail (fun _ => True)
    (p.functionBody name) (p'.functionBody name) := by
  have hrest := h.along_functionRest name
  obtain ⟨e, he⟩ := hrest.refuses
  have hend := hrest.along [] rule.tokens_nil
  rw [he] at hend
  refine .peek (fun t _ => ?_) ⟨e, he, hend⟩
  rcases t with ⟨kind, text, line, descriptor, document⟩
  cases kind with
  | openParen =>
    refine ((expect p p' .openParen).bind fun _ _ => ?_).along
    exact ((expect p p' .closeParen).bind fun _ _ => hrest.along).along
  | _ => exact hrest.along

theorem withRedirections {compound compound' : TokenReader Compound}
    (hcompound : Reader.Along rule tail True (fun _ => True) compound compound') :
    Reader.Along rule tail True (fun _ => True) (p.withRedirections compound)
      (p'.withRedirections compound') :=
  hcompound.bind fun _ _ => h.redirections.bind fun _ _ => .ok trivial

theorem keywordCommand? (t : Token) :
    AlongTurns rule tail True (p.keywordCommand? t) (p'.keywordCommand? t) := by
  unfold Parser.keywordCommand?
  split
  · exact h.withRedirections h.ifElse.along
  · exact h.withRedirections h.forLoop.along
  · exact h.withRedirections (h.conditionLoop _).along
  · exact h.withRedirections (h.conditionLoop _).along
  · exact h.withRedirections h.caseOf.along
  · exact h.withRedirections h.group.along
  · exact h.withRedirections (h.test t.line).along
  · exact ((expect p p' .word).bind fun name _ => (h.functionBody name).along).along
  · trivial

theorem simpleCommand {t : Token} (ht : rule.Fine t) :
    Reader.Along rule tail True (fun _ => True) (p.simpleCommand t) (p'.simpleCommand t) := by
  refine Reader.Along.bind (?_ : Reader.Along rule tail True (fun _ => True) _ _) fun c _ =>
    Reader.Along.bind (.repeatFrom h.startsLine (fun c t ht => h.simpleItem c ht) ?_ _) fun c _ =>
    .ok trivial
  · have hitem := h.simpleItem ⟨[], none, [], [], t.line⟩ ht
    rcases hfirst : p.simpleItem ⟨[], none, [], [], t.line⟩ t with - | read <;>
      rcases hsecond : p'.simpleItem ⟨[], none, [], [], t.line⟩ t with - | read' <;>
      rw [hfirst, hsecond] at hitem
    case none.none => exact refusing_unexpected.along
    case some.some => exact hitem
    all_goals exact hitem.elim
  · intro _ c t ht
    simp [Parser.simpleItem, ht]

/-- Empty parentheses come next. -/
def atEmptyParens (tokens : List Token) : Bool :=
  (tokens.take 2).map Token.kind == [.openParen, .closeParen]

omit h in
theorem atEmptyParens_append (htail : StartsLine tail) (tokens : List Token) :
    atEmptyParens (tokens ++ tail) = atEmptyParens tokens := by
  rcases tail with - | ⟨t, tail⟩
  · rw [List.append_nil]
  · have ht := htail t rfl
    rcases tokens with - | ⟨a, - | ⟨b, rest⟩⟩ <;> simp [atEmptyParens, ht]

omit h in
/-- A word that is no keyword names a function that is defined here, or starts a simple command. -/
theorem commandAfter_word {t : Token} (ht : t.kind = .word) (tokens : List Token) :
    p.commandAfter t tokens =
      match p.keywordCommand? t with
      | some read => read
      | none =>
        if misplacedKeywords.contains t.text then fail (p.unexpectedAt (t :: tokens))
        else if atEmptyParens tokens then p.functionBody t else p.simpleCommand t := by
  unfold Parser.commandAfter
  rw [ht]
  dsimp only
  cases p.keywordCommand? t with
  | some read => rfl
  | none =>
    dsimp only
    split
    · rfl
    · rcases tokens with - | ⟨⟨kind, text, line, descriptor, document⟩, - | ⟨⟨kind', text', line',
        descriptor', document'⟩, rest⟩⟩
      · rfl
      · cases kind <;> rfl
      · cases kind <;> first | rfl | (cases kind' <;> rfl)

theorem commandAfter {t : Token} (ht : rule.Fine t) (tokens : List Token) :
    Reader.Along rule tail True (fun _ => True) (p.commandAfter t tokens)
      (p'.commandAfter t (tokens ++ tail)) := by
  cases hkind : t.kind with
  | arithmetic =>
    simp only [Parser.commandAfter, hkind]
    exact h.withRedirections ((h.expandedText ht.text).bind fun _ _ => .ok trivial)
  | redirect op =>
    simp only [Parser.commandAfter, hkind]
    exact h.simpleCommand ht
  | word =>
    rw [commandAfter_word hkind, commandAfter_word hkind, atEmptyParens_append h.startsLine]
    have hturns := h.keywordCommand? t
    rcases hfirst : p.keywordCommand? t with - | read <;>
      rcases hsecond : p'.keywordCommand? t with - | read' <;>
      rw [hfirst, hsecond] at hturns
    case none.none =>
      dsimp only
      split
      · exact .fail (final_unexpectedAt p _)
      split
      · exact (h.functionBody t).along
      · exact h.simpleCommand ht
    case some.some => exact hturns
    all_goals exact hturns.elim
  | _ =>
    simp only [Parser.commandAfter, hkind]
    exact .fail (final_unexpectedAt p _)

omit h in
/-- A command is its first token and what follows it. -/
theorem outcome_command (p : Parser) (t : Token) (rest : List Token) :
    (ofRest p.command).outcome (t :: rest) = (p.commandAfter t rest).outcome rest := by
  unfold outcome ofRest Parser.command
  dsimp only
  rcases p.commandAfter t rest rest with e | ⟨c, rest', hrest⟩ <;> rfl

theorem command : AlongRefusing rule tail (fun _ => True) (ofRest p.command) (ofRest p'.command) := by
  refine ⟨fun tokens htokens => ?_, _, rfl⟩
  cases tokens with
  | nil => exact final_unexpectedAt p []
  | cons t rest =>
    have hafter := h.commandAfter (TokenRule.fine_of_tokens htokens) rest rest (rule.tokens_tail htokens)
    rw [List.cons_append, outcome_command, outcome_command]
    exact hafter

end Along

end Parser

/-! ## Levels -/

namespace Level.Along

variable {rule : TokenRule} {l l' : Level} (h : Level.Along rule l l')
include h

/-- **The same script is read** where a line end and more tokens follow, and then what comes there. -/
theorem statementList {tail : List Token} (htail : StartsLine tail) (lastLine lastLine' : Nat)
    {tokens : List Token} (htokens : rule.tokens tokens) :
    Parser.Along.StatementsAlong rule tail ⟨l', lastLine'⟩ []
      ((Parser.statementList ⟨l, lastLine⟩ []).outcome tokens)
      ((Parser.statementList ⟨l', lastLine'⟩ []).outcome (tokens ++ tail)) :=
  Parser.Along.statements ⟨htail, h⟩ [] [] htokens

omit h in
/-- A script is the list of statements that its tokens are. -/
theorem script_eq (l : Level) (text : String) : l.script text =
    if text.length > maxScriptLength then .error (.grammar (.scriptTooLarge text.length) none)
    else match TokenStream.ofText text with
      | .error (.lexical cause line) => .error (.grammar (.lexical cause) (some line))
      | .error e => .error e
      | .ok stream =>
        if stream.tokens.length + 1 > maxTokenCount then
          .error (.grammar (.tooManyTokens (stream.tokens.length + 1)) none)
        else
          let p : Parser := ⟨l, stream.lastLine⟩
          match (p.statementList []).outcome stream.tokens with
          | .error e => .error e
          | .ok (list, []) => .ok ⟨list⟩
          | .ok (_, t :: rest) => .error (p.unexpectedAt (t :: rest)) := by
  unfold Level.script
  split
  · rfl
  rcases TokenStream.ofText text with (⟨cause, line⟩ | ⟨cause, line⟩ | cause) | stream
  · rfl
  · rfl
  · rfl
  · dsimp only
    split
    · rfl
    · rw [outcome]
      rcases Parser.statementList ⟨l, stream.lastLine⟩ [] stream.tokens with
        e | ⟨list, - | ⟨t, rest⟩, hrest⟩ <;> rfl

omit h in
/-- **A script is read** when its text and its tokens are not too many, and its statements reach to
the end. -/
theorem script_eq_ok_iff {l : Level} {text : String} {script : Script} :
    l.script text = .ok script ↔ text.length ≤ maxScriptLength ∧
      ∃ stream, TokenStream.ofText text = .ok stream ∧ stream.tokens.length + 1 ≤ maxTokenCount ∧
        (Parser.statementList ⟨l, stream.lastLine⟩ []).outcome stream.tokens =
          .ok (script.statements, []) := by
  obtain ⟨statements⟩ := script
  rw [script_eq]
  by_cases hlength : text.length > maxScriptLength
  · rw [if_pos hlength]
    exact iff_of_false nofun fun h => absurd hlength (Nat.not_lt.2 h.1)
  rw [if_neg hlength, and_iff_right (Nat.not_lt.1 hlength)]
  rcases TokenStream.ofText text with (⟨cause, line⟩ | ⟨cause, line⟩ | cause) | stream
  case ok =>
    simp only [Except.ok.injEq, exists_eq_left']
    by_cases hcount : stream.tokens.length + 1 > maxTokenCount
    · rw [if_pos hcount]
      exact iff_of_false nofun fun h => absurd hcount (Nat.not_lt.2 h.1)
    rw [if_neg hcount, and_iff_right (Nat.not_lt.1 hcount)]
    cases hread : (Parser.statementList ⟨l, stream.lastLine⟩ []).outcome stream.tokens with
    | error e => simp
    | ok found => obtain ⟨list, - | ⟨t, rest⟩⟩ := found <;> simp
  all_goals simp

/-- **Scripts are read alike**, and where they are refused the reason is a final one. -/
theorem script {text : List Char} (htext : rule.fine text) :
    VirtualShell.Repeats rule.Final (fun _ => True) (l.script (String.ofList text))
      (l'.script (String.ofList text)) := by
  rw [script_eq l, script_eq l']
  split
  · exact .error (TokenRule.final_grammar _ _)
  rcases hstream : TokenStream.ofText (String.ofList text) with e | stream
  · have hrefused := rule.refused_ofText htext hstream
    cases e with
    | lexical cause line => exact .error (TokenRule.final_grammar _ _)
    | grammar cause line => exact .error (TokenRule.final_grammar _ _)
    | integer cause => exact .error ⟨hrefused, nofun⟩
  · dsimp only
    split
    · exact .error (TokenRule.final_grammar _ _)
    · have hnil : LineEnds [] := List.forall_mem_nil _
      have hlist := h.statementList hnil.startsLine stream.lastLine stream.lastLine
        (rule.tokens_ofText htext hstream)
      rcases hfirst : (Parser.statementList ⟨l, stream.lastLine⟩ []).outcome stream.tokens with
        e | ⟨list, rest⟩ <;> rw [hfirst] at hlist
      · exact .error hlist
      · obtain ⟨-, hsecond⟩ := hlist
        rw [List.append_nil] at hsecond
        rw [hsecond]
        cases rest with
        | nil =>
          rw [if_pos rfl, Parser.Along.outcome_statements_lineEnds hnil, List.reverse_reverse]
          exact .ok trivial
        | cons t rest => exact .error (Parser.final_unexpectedAt _ _)

/-- **A script is the same when line ends follow it.** -/
theorem script_lineEnds {text text' : String} {stream stream' : TokenStream} {tail : List Token}
    (hstream : TokenStream.ofText text = .ok stream)
    (hstream' : TokenStream.ofText text' = .ok stream')
    (hrule : rule.tokens stream.tokens) (htokens : stream'.tokens = stream.tokens ++ tail)
    (htail : LineEnds tail) (hlength : text'.length ≤ maxScriptLength)
    (hcount : stream'.tokens.length + 1 ≤ maxTokenCount) {script : Script}
    (hscript : l.script text = .ok script) : l'.script text' = .ok script := by
  obtain ⟨-, found, hfound, -, hread⟩ := script_eq_ok_iff.1 hscript
  obtain rfl : stream = found := Except.ok.inj (hstream.symm.trans hfound)
  have hlist := h.statementList htail.startsLine stream.lastLine stream'.lastLine hrule
  rw [hread, ← htokens] at hlist
  refine script_eq_ok_iff.2 ⟨hlength, stream', hstream', hcount, ?_⟩
  rw [hlist.2, if_pos rfl]
  exact (Parser.Along.outcome_statements_lineEnds htail _ _ _).trans
    (by rw [List.reverse_reverse])

end Level.Along

/-- Levels that go along with each other read the same texts. -/
theorem Level.Along.agree {rule : TokenRule} {l l' : Level} (h : Level.Along rule l l') :
    Level.Agree rule.toTextRule l l' :=
  ⟨h.parts, fun htext => (h.script htext).mono fun _ hfinal => hfinal.refused⟩

/-- **More levels read what fewer levels read.** -/
theorem Level.along_ofDepth (rule : TokenRule) {n m : Nat} (hle : n ≤ m) :
    Level.Along rule (.ofDepth n) (.ofDepth m) := by
  induction n generalizing m with
  | zero =>
    exact ⟨fun _ _ _ => .error (rule.refused_lexical _ _), fun _ _ _ =>
      ⟨fun _ _ => TokenRule.final_grammar _ _, _, rfl⟩⟩
  | succ n ih =>
    obtain ⟨m, rfl⟩ : ∃ k, m = k + 1 := ⟨m - 1, by omega⟩
    have hlower := ih (Nat.le_of_succ_le_succ hle)
    refine ⟨fun quoting _ htext => hlower.agree.partsOf quoting htext, fun htail lastLine lastLine' => ?_⟩
    exact Parser.Along.command ⟨htail, hlower⟩

end VirtualShell
