import Mathlib.Data.List.DropRight
import VirtualShell.Proofs.Reading.Command
import VirtualShell.Proofs.Reading.Layout

/-!
# The layout of commands

What is read from a script stays the same, but for the lines, when the script is moved and its empty
lines are left out. This goes through all constructs of the grammar, and from one level of nesting to
the next.

* `Level.Keeps` — a level keeps the commands it reads.
* `Parser.keeps_command` — it does when the level further in does.
* **`Parser.statementList_of_condense`** — tokens with the same layout hold the same statements.
-/

namespace VirtualShell

open Reader

/-- **A level keeps the commands it reads.** -/
def Level.Keeps (f : Nat → Nat) (l : Level) : Prop :=
  ∀ m m', Reader.Keeps f (Command.mapLines f) (ofRest (l.command m)) (ofRest (l.command m'))

namespace Parser

variable {f : Nat → Nat} {l : Level} (h : l.Keeps f) (m m' : Nat) {α : Type}

/-! ### Single tokens -/

theorem keeps_unexpected {g : α → α} : Keeps f g (unexpected ⟨l, m⟩) (unexpected ⟨l, m'⟩) :=
  fun _ => ⟨_, rfl⟩

theorem keeps_lift (x : Except SyntaxError α) : Keeps f id (lift ⟨l, m⟩ x) (lift ⟨l, m'⟩ x) := by
  cases x with
  | error e => exact fun tokens => ⟨_, rfl⟩
  | ok a => exact .ok rfl

theorem keeps_word (text : String) : Keeps f id (word ⟨l, m⟩ text) (word ⟨l, m'⟩ text) :=
  keeps_lift m m' _

theorem keeps_expandedText (text : String) :
    Keeps f id (expandedText ⟨l, m⟩ text) (expandedText ⟨l, m'⟩ text) :=
  keeps_lift m m' _

/-- A token that is no line end is taken. -/
theorem keeps_expect (kind : TokenKind) (hkind : kind ≠ .newline) :
    Keeps f (Token.mapLine f) (expect ⟨l, m⟩ kind) (expect ⟨l, m'⟩ kind) := by
  intro tokens
  cases tokens with
  | nil => exact ⟨_, rfl⟩
  | cons t rest =>
    obtain ⟨rest', hrest', hsame⟩ := Token.exists_condense (f := f) t rest
    rw [hrest']
    by_cases ht : t.kind = kind
    · rw [hsame (ht ▸ hkind)]
      simp [outcome, expect, ht, OutcomesKeep, Except.map]
    · simp [outcome, expect, ht, OutcomesKeep, Except.map]

theorem keeps_keyword (text : String) :
    Keeps f id (keyword ⟨l, m⟩ text) (keyword ⟨l, m'⟩ text) := by
  intro tokens
  cases tokens with
  | nil => exact ⟨_, rfl⟩
  | cons t rest =>
    obtain ⟨rest', hrest', hsame⟩ := Token.exists_condense (f := f) t rest
    rw [hrest']
    by_cases ht : t.kind = .word ∧ t.text = text
    · rw [hsame (by simp [ht])]
      simp [outcome, keyword, ht, OutcomesKeep, Except.map]
    · simp [outcome, keyword, ht, OutcomesKeep, Except.map]

theorem keeps_keyword? (text : String) : Keeps f id (keyword? text) (keyword? text) := by
  intro tokens
  cases tokens with
  | nil => rfl
  | cons t rest =>
    obtain ⟨rest', hrest', hsame⟩ := Token.exists_condense (f := f) t rest
    by_cases ht : t.kind = .word ∧ t.text = text
    · rw [hrest', hsame (by simp [ht])]
      simp [outcome, keyword?, ht, OutcomesKeep, Except.map]
    · have hstays (t : Token) (rest : List Token) (ht : ¬ (t.kind = .word ∧ t.text = text)) :
          (keyword? text).outcome (t :: rest) = .ok (false, t :: rest) := by
        simp [outcome, keyword?, ht, Except.map]
      rw [hstays t rest ht, hrest', hstays (t.mapLine f) rest' ht, ← hrest']
      rfl

/-! ### Lists, statements and pipelines -/

section

include h

theorem keeps_innerCommand : Keeps f (Command.mapLines f) (innerCommand ⟨l, m⟩)
    (innerCommand ⟨l, m'⟩) := by
  rw [Along.innerCommand_eq, Along.innerCommand_eq]
  exact h m m'

theorem keeps_stages (done : List Command) : Keeps f (List.map (Command.mapLines f))
    (stages ⟨l, m⟩ done) (stages ⟨l, m'⟩ (done.map (Command.mapLines f))) := by
  refine .repeatFrom (fun s t => ?_) (.inl fun s t ht => by simp [ht]) done
  refine .ite (fun _ => ?_) fun _ => trivial
  exact Keeps.skipNewlines.bind fun _ => (keeps_innerCommand h m m').bind fun c => .ok rfl

theorem keeps_pipeline (negated : Bool) : Keeps f (Pipeline.mapLines f)
    (ofRest (pipeline ⟨l, m⟩ negated)) (ofRest (pipeline ⟨l, m'⟩ negated)) := by
  have hcommands (negated : Bool) : Keeps f (Pipeline.mapLines f)
      (do
        let c ← innerCommand ⟨l, m⟩
        let cs ← stages ⟨l, m⟩ [c]
        pure (⟨cs.reverse, negated⟩ : Pipeline))
      (do
        let c ← innerCommand ⟨l, m'⟩
        let cs ← stages ⟨l, m'⟩ [c]
        pure (⟨cs.reverse, negated⟩ : Pipeline)) :=
    (keeps_innerCommand h m m').bind fun c => (keeps_stages h m m' [c]).bind fun cs => .ok (by
      rw [Pipeline.mapLines, Command.mapAll_eq, List.map_reverse])
  intro tokens
  induction tokens generalizing negated with
  | nil =>
    have hnil (m : Nat) : (ofRest (pipeline ⟨l, m⟩ negated)).outcome [] =
        ((ofRest (l.command m)).outcome []).map fun found => (⟨[found.1], negated⟩, found.2) := by
      unfold outcome ofRest
      rw [pipeline]
      dsimp only
      rcases l.command m [] with e | ⟨c, rest, hrest⟩ <;> rfl
    rw [hnil, Token.condense_nil, hnil]
    have hcommand := h m m' []
    rcases hfirst : (ofRest (l.command m)).outcome [] with e | ⟨c, rest⟩ <;> rw [hfirst] at hcommand
    · obtain ⟨e', he'⟩ := hcommand
      rw [Token.condense_nil] at he'
      rw [he']
      exact ⟨e', rfl⟩
    · rw [show (ofRest (l.command m')).outcome [] = _ from hcommand]
      rfl
  | cons t tokens ih =>
    obtain ⟨rest', hrest', hsame⟩ := Token.exists_condense (f := f) t tokens
    have hboth := hcommands negated (t :: tokens)
    rw [hrest'] at hboth ⊢
    rw [Along.outcome_pipeline, Along.outcome_pipeline]
    by_cases hnot : t.kind = .word ∧ t.text = "!"
    · rw [if_pos (by simp [hnot]), if_pos (by simp [hnot]), hsame (by simp [hnot])]
      exact ih (!negated)
    · rw [if_neg (by simpa using hnot), if_neg (by simpa using hnot)]
      exact hboth

theorem keeps_links : Keeps f (List.map (Prod.map id (Pipeline.mapLines f))) (links ⟨l, m⟩)
    (links ⟨l, m'⟩) := by
  rw [Along.links_eq, Along.links_eq]
  refine .repeatFrom (fun s t => ?_) (.inl fun s t ht => by simp [connective?, ht]) []
  have hconnective : connective? (t.mapLine f) = connective? t := rfl
  rw [hconnective]
  cases connective? t with
  | none => trivial
  | some op =>
    exact Keeps.skipNewlines.bind fun _ => (keeps_pipeline h m m' false).bind fun r => .ok rfl

theorem keeps_statement : Keeps f (Statement.mapLines f) (ofRest (statement ⟨l, m⟩))
    (ofRest (statement ⟨l, m'⟩)) := by
  refine Keeps.congr ?_ (Along.outcome_statement _) (Along.outcome_statement _)
  exact (keeps_pipeline h m m' false).bind fun first => (keeps_links h m m').bind fun more =>
    .ok (by rw [Statement.mapLines, Statement.mapRest_eq, List.map_reverse])

omit h in
/-- Where a list of statements ends does not depend on the layout. -/
theorem atListEnd_condense (stops : List String) (tokens : List Token) :
    atListEnd stops (Token.condense f tokens) = atListEnd stops tokens := by
  cases tokens with
  | nil => rfl
  | cons t rest =>
    obtain ⟨rest', hrest', -⟩ := Token.exists_condense (f := f) t rest
    rw [hrest']
    rfl

omit h in
/-- Line ends before statements are passed over. -/
theorem outcome_statementsFrom_dropWhile (p : Parser) (stops : List String)
    (done : List Statement) (tokens : List Token) :
    (Along.statementsFrom p stops done).outcome (tokens.dropWhile fun t => t.kind == .newline) =
      (Along.statementsFrom p stops done).outcome tokens := by
  rw [Along.outcome_statements, Along.outcome_statements]
  simp only [List.dropWhile_idempotent]

/-- **The same statements are read in another layout.** -/
theorem keeps_statementsFrom (stops : List String) (done : List Statement) :
    Keeps f (List.map (Statement.mapLines f)) (Along.statementsFrom ⟨l, m⟩ stops done)
      (Along.statementsFrom ⟨l, m'⟩ stops (done.map (Statement.mapLines f))) := by
  intro tokens
  induction hn : tokens.length using Nat.strongRecOn generalizing done tokens with
  | ind n ih =>
    subst hn
    rw [Along.outcome_statements, Along.outcome_statements]
    dsimp only
    rw [Token.condense_dropWhile (fun _ => rfl) fun t ht => by simp [ht], atListEnd_condense]
    have hle := (tokens.dropWhile_sublist fun t => t.kind == .newline).length_le
    generalize tokens.dropWhile (fun t => t.kind == .newline) = next at hle
    split
    · exact congrArg (fun list => Except.ok (list, Token.condense f next)) List.map_reverse.symm
    refine (keeps_statement h m m' next).bind fun s rest hrest => ?_
    have hshort := Nat.le_trans (outcome_length_le hrest) hle
    cases rest with
    | nil =>
      simp [Along.afterStatement, OutcomesKeep]
    | cons t rest =>
      have hnext (s : Statement) := ih rest.length hshort (s :: done) rest rfl
      by_cases hline : t.kind = .newline
      · rw [Token.condense_lineEnd hline, Along.afterStatement, Along.afterStatement,
          if_pos (by simp [hline]), if_pos (by simp [hline]),
          ← Token.condense_dropWhile (fun _ => rfl) fun t ht => by simp [ht],
          outcome_statementsFrom_dropWhile]
        exact hnext s
      have hstop := atListEnd_condense (f := f) stops (t :: rest)
      rw [Token.condense_cons hline] at hstop ⊢
      rw [Along.afterStatement, Along.afterStatement, hstop]
      refine .ite (fun _ => hnext s) fun _ => ?_
      obtain ⟨first, more, background⟩ := s
      refine .ite (fun _ => hnext ⟨first, more, true⟩) fun _ => ?_
      refine .ite (fun _ => ?_) fun _ => ⟨_, rfl⟩
      change Except.ok _ = Except.ok _
      rw [Token.condense_cons hline, List.map_reverse, List.map_cons]

theorem keeps_statementList (stops : List String) : Keeps f (List.map (Statement.mapLines f))
    (statementList ⟨l, m⟩ stops) (statementList ⟨l, m'⟩ stops) :=
  keeps_statementsFrom h m m' stops []

theorem keeps_body (stops : List String) : Keeps f (List.map (Statement.mapLines f))
    (body ⟨l, m⟩ stops) (body ⟨l, m'⟩ stops) := by
  refine (keeps_statementList h m m' stops).bind fun list => ?_
  rw [List.isEmpty_map]
  split
  · exact keeps_unexpected m m'
  · exact .ok rfl

end

/-! ### Redirections and simple commands -/

theorem keeps_redirection (operator : Token) (op : RedirectOp) :
    Keeps f id (redirection ⟨l, m⟩ operator op) (redirection ⟨l, m'⟩ (operator.mapLine f) op) := by
  refine (keeps_expect m m' .word nofun).bind fun target => ?_
  split
  · dsimp only [Token.mapLine_hereDocument]
    split
    · exact .fail _ _
    · next doc hdoc =>
      split
      · exact .ok rfl
      · exact (keeps_expandedText m m' doc.body).bind fun content => .ok rfl
  · exact (keeps_word m m' target.text).bind fun target => .ok rfl

theorem keeps_redirections :
    Keeps f id (redirections ⟨l, m⟩) (redirections ⟨l, m'⟩) := by
  refine Keeps.bind (.repeatFrom (fun s t => ?_) (.inl fun s t ht => by simp [ht]) [])
    fun done => .ok rfl
  dsimp only [Token.mapLine_kind]
  split
  · exact (keeps_redirection m m' t _).bind fun r => .ok rfl
  · trivial

theorem keeps_addWord (c : SimpleCommand) (text : String) :
    Keeps f (SimpleCommand.mapLine f) (addWord ⟨l, m⟩ c text)
      (addWord ⟨l, m'⟩ (c.mapLine f) text) := by
  obtain ⟨assignments, - | name, args, redirections, line⟩ := c
  · dsimp only [addWord, SimpleCommand.mapLine]
    split
    · next name append value _ =>
      split
      · exact .pure_bind (.ok rfl)
      · exact Keeps.bind ((keeps_word m m' value).map fun _ => rfl) fun value => .ok rfl
    · exact (keeps_word m m' text).bind fun name => .ok rfl
  · exact (keeps_word m m' text).bind fun arg => .ok rfl

theorem keeps_simpleItem (c : SimpleCommand) (t : Token) :
    TurnsKeep f (SimpleCommand.mapLine f) (simpleItem ⟨l, m⟩ c t)
      (simpleItem ⟨l, m'⟩ (c.mapLine f) (t.mapLine f)) := by
  unfold simpleItem
  dsimp only [Token.mapLine_kind]
  split
  · exact (keeps_redirection m m' t _).bind fun r => .ok rfl
  · exact keeps_addWord m m' c t.text
  · trivial

theorem keeps_simpleCommand (t : Token) : Keeps f (Command.mapLines f) (simpleCommand ⟨l, m⟩ t)
    (simpleCommand ⟨l, m'⟩ (t.mapLine f)) := by
  have hitem := keeps_simpleItem (l := l) (f := f) m m' ⟨[], none, [], [], t.line⟩ t
  refine (hitem.getD (keeps_unexpected m m')).bind fun c => Keeps.bind (.repeatFrom
    (fun c t => keeps_simpleItem m m' c t) (.inl fun c t ht => by simp [simpleItem, ht]) c)
    fun c => .ok rfl

/-! ### Compound commands -/

section

include h

theorem keeps_doGroup : Keeps f (List.map (Statement.mapLines f)) (doGroup ⟨l, m⟩)
    (doGroup ⟨l, m'⟩) :=
  Keeps.skipSeparators.bind fun _ => (keeps_keyword m m' "do").bind fun _ =>
    (keeps_body h m m' _).bind fun _ => (keeps_keyword m m' "done").bind fun _ => .ok rfl

theorem keeps_clause : Keeps f (Clause.mapLines f) (clause ⟨l, m⟩) (clause ⟨l, m'⟩) :=
  (keeps_body h m m' _).bind fun _ => (keeps_keyword m m' "then").bind fun _ =>
    (keeps_body h m m' _).bind fun _ => .ok rfl

theorem keeps_clauses (first : Clause) : Keeps f (List.map (Clause.mapLines f))
    (clauses ⟨l, m⟩ first) (clauses ⟨l, m'⟩ (first.mapLines f)) := by
  refine Keeps.bind (.repeatFrom (fun s t => ?_) (.inl fun s t ht => by simp [ht]) [first])
    fun done => .ok List.map_reverse.symm
  exact .ite (fun _ => (keeps_clause h m m').map fun _ => rfl) fun _ => trivial

theorem keeps_ifElse : Keeps f (Compound.mapLines f) (ifElse ⟨l, m⟩) (ifElse ⟨l, m'⟩) := by
  refine (keeps_clause h m m').bind fun first => (keeps_clauses h m m' first).bind fun clauses =>
    (keeps_keyword? "else").bind fun found => ?_
  have hrest (orElse : Option (List Statement)) : Keeps f (Compound.mapLines f)
      (do
        keyword ⟨l, m⟩ "fi"
        pure (Compound.ifElse clauses orElse))
      (do
        keyword ⟨l, m'⟩ "fi"
        pure (Compound.ifElse (clauses.map (Clause.mapLines f))
          (orElse.map (List.map (Statement.mapLines f))))) :=
    (keeps_keyword m m' "fi").bind fun _ => .ok (Compound.mapLines_ifElse f clauses orElse).symm
  refine .ite (fun _ => ?_) fun _ => .pure_bind (hrest none)
  exact Keeps.bind ((keeps_body h m m' _).map fun _ => rfl) hrest

end

theorem keeps_wordList : Keeps f id (wordList ⟨l, m⟩) (wordList ⟨l, m'⟩) := by
  refine Keeps.bind (.repeatFrom (fun s t => ?_) (.inl fun s t ht => by simp [ht]) [])
    fun done => .ok rfl
  exact .ite (fun _ => (keeps_word m m' t.text).map fun _ => rfl) fun _ => trivial

theorem keeps_section? (text : List Char) :
    Keeps f id (section? ⟨l, m⟩ text) (section? ⟨l, m'⟩ text) := by
  unfold section?
  dsimp only
  split
  · exact .ok rfl
  · exact (keeps_expandedText m m' _).map fun _ => rfl

section

include h

theorem keeps_forLoop : Keeps f (Compound.mapLines f) (forLoop ⟨l, m⟩) (forLoop ⟨l, m'⟩) := by
  refine .peek fun next => ?_
  cases next with
  | none => exact keeps_unexpected m m'
  | some t =>
    refine .ite (fun _ => ?_) fun _ => ?_
    · refine (keeps_expect m m' .arithmetic nofun).bind fun _ => ?_
      dsimp only [Token.mapLine_text]
      split
      · exact (keeps_section? m m' _).bind fun init => (keeps_section? m m' _).bind fun condition =>
          (keeps_section? m m' _).bind fun update => (keeps_doGroup h m m').bind fun list =>
          .ok (by simp [Compound.mapLines])
      · exact .fail _ _
    · refine (keeps_expect m m' .word nofun).bind fun t => .ite (fun _ => .fail _ _) fun _ => ?_
      refine Keeps.skipNewlines.bind fun _ => (keeps_keyword? "in").bind fun found => ?_
      refine .ite (fun _ => ?_) fun _ => .pure_bind ?_
      · exact Keeps.bind (g := id) ((keeps_wordList m m').map fun _ => rfl) fun words =>
          (keeps_doGroup h m m').bind fun list => .ok (by simp [Compound.mapLines])
      · exact (keeps_doGroup h m m').bind fun list => .ok (by simp [Compound.mapLines])

theorem keeps_conditionLoop (kind : LoopKind) : Keeps f (Compound.mapLines f)
    (conditionLoop ⟨l, m⟩ kind) (conditionLoop ⟨l, m'⟩ kind) :=
  (keeps_body h m m' _).bind fun condition => (keeps_keyword m m' "do").bind fun _ =>
    (keeps_body h m m' _).bind fun list => (keeps_keyword m m' "done").bind fun _ =>
    .ok (by simp [Compound.mapLines])

end

theorem keeps_patterns (first : Word) : Keeps f id (patterns ⟨l, m⟩ first)
    (patterns ⟨l, m'⟩ first) := by
  refine Keeps.bind (.repeatFrom (fun s t => ?_) (.inl fun s t ht => by simp [ht]) [first])
    fun done => .ok rfl
  refine .ite (fun _ => ?_) fun _ => trivial
  exact (keeps_expect m m' .word nofun).bind fun t => (keeps_word m m' t.text).bind fun w => .ok rfl

section

include h

theorem keeps_caseItem (first : String) : Keeps f (CaseItem.mapLines f) (caseItem ⟨l, m⟩ first)
    (caseItem ⟨l, m'⟩ first) := by
  refine (keeps_word m m' first).bind fun first => (keeps_patterns m m' first).bind fun patterns =>
    (keeps_expect m m' .closeParen nofun).bind fun _ => (keeps_statementList h m m' _).bind fun list =>
    Keeps.bind (g := id) ?_ fun ending => Keeps.skipNewlines.bind fun _ => .ok rfl
  intro tokens
  rcases tokens with - | ⟨⟨kind, text, line, descriptor, document⟩, rest⟩
  · rfl
  · obtain ⟨rest', hrest', hsame⟩ :=
      Token.exists_condense (f := f) ⟨kind, text, line, descriptor, document⟩ rest
    cases kind with
    | clauseEnd how =>
      rw [hrest', hsame nofun]
      rfl
    | _ =>
      rw [hrest']
      exact congrArg (fun tokens => Except.ok (ClauseEnd.stop, tokens)) hrest'.symm

theorem keeps_caseItems : Keeps f (List.map (CaseItem.mapLines f)) (caseItems ⟨l, m⟩)
    (caseItems ⟨l, m'⟩) := by
  refine Keeps.bind (g := List.map (CaseItem.mapLines f)) (.repeatFrom (fun s t => ?_)
    (.inr (.inl fun s t ht => ?_)) []) fun done => .peek fun next => ?_
  · refine .ite (fun _ => .ite (fun _ => trivial) fun _ => ?_) fun _ => .ite (fun _ => ?_) fun _ => ?_
    · exact (keeps_caseItem h m m' t.text).map fun _ => rfl
    · exact (keeps_expect m m' .word nofun).bind fun first =>
        (keeps_caseItem h m m' first.text).bind fun item => .ok rfl
    · exact .fail _ _
  · exact ⟨unexpectedAt ⟨l, m⟩ [t], unexpectedAt ⟨l, m'⟩ [t], by simp [ht], by simp [ht]⟩
  · cases next with
    | none => exact keeps_unexpected m m'
    | some t => exact .ok List.map_reverse.symm

theorem keeps_caseOf : Keeps f (Compound.mapLines f) (caseOf ⟨l, m⟩) (caseOf ⟨l, m'⟩) :=
  (keeps_expect m m' .word nofun).bind fun subject => Keeps.skipNewlines.bind fun _ =>
    (keeps_keyword m m' "in").bind fun _ => Keeps.skipNewlines.bind fun _ =>
    (keeps_caseItems h m m').bind fun items => (keeps_keyword m m' "esac").bind fun _ =>
    (keeps_word m m' subject.text).bind fun subject => .ok (by simp [Compound.mapLines])

theorem keeps_group : Keeps f (Compound.mapLines f) (group ⟨l, m⟩) (group ⟨l, m'⟩) :=
  (keeps_body h m m' _).bind fun list => (keeps_keyword m m' "\x7d").bind fun _ =>
    .ok (by simp [Compound.mapLines])

end

/-! ### Conditions -/

/-- The operand of `=~` ends at a line end, however many there are. -/
theorem regexOperand_condense (depth : Nat) (raw : String) (tokens : List Token) :
    regexOperand depth raw (Token.condense f tokens) =
      ((regexOperand depth raw tokens).1, Token.condense f (regexOperand depth raw tokens).2) := by
  fun_induction regexOperand depth raw tokens with
  | case1 depth raw => rfl
  | case2 depth raw t tokens hline =>
    have ht : t.kind = .newline := by simpa using hline
    rw [Token.condense_lineEnd ht, regexOperand.eq_def]
    exact if_pos hline
  | case8 depth raw t tokens hline hgo fd hopen hclose harithmetic ih =>
    rw [Token.condense_cons (by simpa using hline), regexOperand.eq_def]
    refine (if_neg hline).trans ((if_neg hgo).trans ?_)
    dsimp only [Token.mapLine_kind]
    split
    · next hkind => exact absurd hkind hopen
    · next hkind => exact absurd hkind hclose
    · next hkind => exact absurd hkind harithmetic
    · exact ih
  | _ =>
    rw [Token.condense_cons (by simp_all)]
    simp_all [regexOperand, atWord, connective?]

theorem keeps_operandWord (t : Token) : Keeps f id (operandWord ⟨l, m⟩ t)
    (operandWord ⟨l, m'⟩ (t.mapLine f)) := by
  refine (keeps_word m m' t.text).bind fun w => .ite (fun _ => ?_) fun _ => .ok rfl
  refine Keeps.bind (g := id) (fun tokens => ?_) fun raw => .ite (fun _ => .ok rfl) fun _ =>
    (keeps_word m m' raw).bind fun operand => .ok rfl
  exact congrArg Except.ok (regexOperand_condense 0 "" tokens)

theorem keeps_innerOperands (done : List Word) (tokens : List Token) :
    Keeps f id (innerOperands ⟨l, m⟩ done tokens) (innerOperands ⟨l, m'⟩ done tokens) := by
  induction tokens generalizing done with
  | nil => exact .ok rfl
  | cons t tokens ih =>
    unfold innerOperands
    dsimp only
    split
    · exact (keeps_word m m' t.text).bind fun w => ih (w :: done)
    · exact .pure_bind (ih _)

theorem keeps_operands (t : Token) : Keeps f id (operands ⟨l, m⟩ t)
    (operands ⟨l, m'⟩ (t.mapLine f)) := by
  unfold operands
  dsimp only [Token.mapLine_kind, Token.mapLine_text]
  split
  · exact .ok rfl
  · exact keeps_operandWord m m' t
  · exact (keeps_lift m m' _).bind fun inner => (keeps_innerOperands m m' [] inner.tokens).bind
      fun list => .ok rfl
  · exact .ok rfl

theorem keeps_testOperands (line line' : Nat) :
    Keeps f id (testOperands ⟨l, m⟩ line) (testOperands ⟨l, m'⟩ line') := by
  refine Keeps.bind (g := id) (.repeatFrom (fun s t => ?_) (.inr (.inr fun s t ht => ?_)) [])
    fun done => .peek fun next => ?_
  · exact .ite (fun _ => trivial) fun _ => (keeps_operands m m' t).map fun _ => rfl
  · have hnone : (t.kind == .word && t.text == "]]") = false := by simp [ht]
    have hpass (p : Parser) : (· ++ s) <$> p.operands t = pure s := by
      rw [operands, ht]
      rfl
    simp only [hnone, hpass]
    exact ⟨rfl, rfl⟩
  · cases next with
    | none => exact .fail _ _
    | some t => exact (keeps_keyword m m' "]]").bind fun _ => .ok rfl

theorem keeps_test (line line' : Nat) :
    Keeps f (Compound.mapLines f) (test ⟨l, m⟩ line) (test ⟨l, m'⟩ line') :=
  (keeps_testOperands m m' line line').bind fun words => .ite (fun _ => .fail _ _) fun _ =>
    .ok (by simp [Compound.mapLines])

/-! ### Commands -/

section

include h

theorem keeps_functionBody (name : Token) : Keeps f (Command.mapLines f)
    (functionBody ⟨l, m⟩ name) (functionBody ⟨l, m'⟩ (name.mapLine f)) := by
  have hrest : Keeps f (Command.mapLines f) (Along.functionRest ⟨l, m⟩ name)
      (Along.functionRest ⟨l, m'⟩ (name.mapLine f)) := by
    refine Keeps.skipNewlines.bind fun _ => (keeps_innerCommand h m m').bind fun c => ?_
    cases c with
    | compound body redirections => exact .ok (by simp [Command.mapLines])
    | _ => exact .fail _ _
  refine .peek fun next => ?_
  rcases next with - | ⟨kind, text, line, descriptor, document⟩
  · exact hrest
  · cases kind with
    | openParen =>
      exact (keeps_expect m m' .openParen nofun).bind fun _ =>
        (keeps_expect m m' .closeParen nofun).bind fun _ => hrest
    | _ => exact hrest

omit h in
theorem keeps_withRedirections {compound compound' : TokenReader Compound}
    (hcompound : Keeps f (Compound.mapLines f) compound compound') :
    Keeps f (Command.mapLines f) (withRedirections ⟨l, m⟩ compound)
      (withRedirections ⟨l, m'⟩ compound') :=
  hcompound.bind fun _ => (keeps_redirections m m').bind fun _ => .ok (by simp [Command.mapLines])

theorem keeps_keywordCommand? (t : Token) : TurnsKeep f (Command.mapLines f)
    (keywordCommand? ⟨l, m⟩ t) (keywordCommand? ⟨l, m'⟩ (t.mapLine f)) := by
  unfold keywordCommand?
  dsimp only [Token.mapLine_text]
  split
  · exact keeps_withRedirections m m' (keeps_ifElse h m m')
  · exact keeps_withRedirections m m' (keeps_forLoop h m m')
  · exact keeps_withRedirections m m' (keeps_conditionLoop h m m' _)
  · exact keeps_withRedirections m m' (keeps_conditionLoop h m m' _)
  · exact keeps_withRedirections m m' (keeps_caseOf h m m')
  · exact keeps_withRedirections m m' (keeps_group h m m')
  · exact keeps_withRedirections m m' (keeps_test m m' _ _)
  · exact (keeps_expect m m' .word nofun).bind fun name => keeps_functionBody h m m' name
  · trivial

omit h in
theorem atEmptyParens_condense (tokens : List Token) :
    Along.atEmptyParens (Token.condense f tokens) = Along.atEmptyParens tokens := by
  rcases tokens with - | ⟨a, rest⟩
  · rfl
  · obtain ⟨rest', hrest', hsame⟩ := Token.exists_condense (f := f) a rest
    rw [hrest']
    by_cases ha : a.kind = .newline
    · have hother : (TokenKind.newline == .openParen) = false := rfl
      simp [Along.atEmptyParens, ha, hother]
    · rw [hsame ha]
      have hhead := Token.head?_condense (f := f) rest
      rcases rest with - | ⟨b, rest⟩
      · rfl
      · rcases hcondense : Token.condense f (b :: rest) with - | ⟨b', rest''⟩ <;> rw [hcondense] at hhead
        · cases hhead
        · cases hhead
          simp [Along.atEmptyParens]

theorem keeps_commandAfter (t : Token) (ahead : List Token) :
    Keeps f (Command.mapLines f) (commandAfter ⟨l, m⟩ t ahead)
      (commandAfter ⟨l, m'⟩ (t.mapLine f) (Token.condense f ahead)) := by
  cases hkind : t.kind with
  | arithmetic =>
    simp only [commandAfter, hkind, Token.mapLine_kind]
    exact keeps_withRedirections m m' ((keeps_expandedText m m' t.text).bind fun _ =>
      .ok (by simp [Compound.mapLines]))
  | redirect op =>
    simp only [commandAfter, hkind, Token.mapLine_kind]
    exact keeps_simpleCommand m m' t
  | word =>
    rw [Along.commandAfter_word hkind, Along.commandAfter_word (t := t.mapLine f) hkind, atEmptyParens_condense]
    have hturns := keeps_keywordCommand? h m m' t
    rcases hfirst : keywordCommand? ⟨l, m⟩ t with - | read <;>
      rcases hsecond : keywordCommand? ⟨l, m'⟩ (t.mapLine f) with - | read' <;>
      rw [hfirst, hsecond] at hturns
    case none.none =>
      exact .ite (fun _ => .fail _ _) fun _ => .ite (fun _ => keeps_functionBody h m m' t) fun _ =>
        keeps_simpleCommand m m' t
    case some.some => exact hturns
    all_goals exact hturns.elim
  | _ =>
    simp only [commandAfter, hkind, Token.mapLine_kind]
    exact .fail _ _

theorem keeps_command : Keeps f (Command.mapLines f) (ofRest (command ⟨l, m⟩))
    (ofRest (command ⟨l, m'⟩)) := by
  intro tokens
  cases tokens with
  | nil => exact ⟨_, rfl⟩
  | cons t rest =>
    by_cases ht : t.kind = .newline
    · rw [Token.condense_lineEnd ht, Along.outcome_command, Along.outcome_command]
      simp [commandAfter, ht, OutcomesKeep, outcome, Reader.fail, Except.map]
    · rw [Token.condense_cons ht, Along.outcome_command, Along.outcome_command]
      exact keeps_commandAfter h m m' t rest rest

end

end Parser

/-- **Statements that are read to the end** are read from any tokens of the same layout. -/
theorem Parser.statementList_of_condense {f g : Nat → Nat} {l : Level} (hf : l.Keeps f)
    (hg : l.Keeps g) (m m' : Nat) {stops : List String} {tokens tokens' : List Token}
    (hsame : Token.condense f tokens = Token.condense g tokens') {list : List Statement}
    (hread : (statementList ⟨l, m⟩ stops).outcome tokens = .ok (list, [])) :
    ∃ list', (statementList ⟨l, m'⟩ stops).outcome tokens' = .ok (list', []) ∧
      list.map (Statement.mapLines f) = list'.map (Statement.mapLines g) := by
  have hfirst := keeps_statementList hf m m' stops tokens
  have hsecond := keeps_statementList hg m' m' stops tokens'
  rw [hread, hsame] at hfirst
  have hcondensed : (statementList ⟨l, m'⟩ stops).outcome (Token.condense g tokens') =
      .ok (list.map (Statement.mapLines f), []) := hfirst
  rw [hcondensed] at hsecond
  rcases hlist : (statementList ⟨l, m'⟩ stops).outcome tokens' with e | ⟨list', rest⟩ <;>
    rw [hlist] at hsecond
  · obtain ⟨e, he⟩ := hsecond
    cases he
  · have hboth := Except.ok.inj hsecond
    have hrest : rest = [] := by
      have hhead := Token.head?_condense (f := g) rest
      rw [← (Prod.mk.inj hboth).2] at hhead
      simpa using hhead.symm
    exact ⟨list', by rw [hrest], (Prod.mk.inj hboth).1⟩

/-- **All levels keep the commands they read.** -/
theorem Level.keeps_ofDepth (f : Nat → Nat) (n : Nat) : (ofDepth n).Keeps f := by
  induction n with
  | zero => exact fun m m' tokens => ⟨_, rfl⟩
  | succ n ih => exact fun m m' => Parser.keeps_command ih m m'

end VirtualShell
