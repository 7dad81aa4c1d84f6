import VirtualShell.Proofs.Reading.CommandLayout
import VirtualShell.Proofs.Reading.SourceCommand
import VirtualShell.Proofs.Reading.SourceTokens

/-!
# Scripts from their source text

Lists of statements, pipelines and compound commands are given back by the parser as simple commands
are. One level of nesting gives back what is made of the commands of the level below it. A script is
then read back from its source text, unless that is too long.

* `Parser.ReadsSource.pipeline`, `Parser.ReadsSource.statementsFrom` — pipelines and lists are given
  back.
* `Parser.ReadsSource.compound`, `Parser.ReadsSource.function` — so are compound commands and
  functions.
* **`Level.readsSource_ofDepth`** — so are all commands that nest less deep than the levels.
* **`Script.parse_source`** — the script is read back, but for the lines of its commands.
* `Script.parse_ofQuoted_tooLarge` — one that is too long is refused.
-/

namespace VirtualShell

open Reader

/-! ## How commands start -/

theorem SimpleCommand.WellFormed.startsCommand {c : SimpleCommand} (h : c.WellFormed) :
    StartsCommand c.tokens := by
  obtain ⟨t, more, htokens⟩ := List.exists_cons_of_ne_nil h.tokens_ne_nil
  have hkind := (h.tokens_spec t (by rw [htokens]; exact List.mem_cons_self)).2
  refine ⟨t, by rw [htokens]; rfl, hkind.imp id fun hword => ⟨hword.1, ?_, ?_⟩⟩
  · exact Parser.not_mem_misplacedKeywords hword.2
  · rintro hnot
    exact hword.2 (hnot ▸ by decide)

/-- The keywords that commands start with. -/
theorem startsCommand_keyword {text : String} (h : text ∉ "!" :: Parser.misplacedKeywords)
    (more : List Token) : StartsCommand (.keyword text :: more) := by
  rw [List.mem_cons, not_or] at h
  exact ⟨_, rfl, .inr ⟨rfl, h.2, h.1⟩⟩

theorem startsCommand_functionHead (name : String) (more : List Token) :
    StartsCommand (functionHead name ++ more) := by
  unfold functionHead
  split
  · exact startsCommand_keyword (by decide) _
  · next hname =>
    have hsub : "!" :: Parser.misplacedKeywords ⊆ keywords := by decide
    exact startsCommand_keyword (fun hmem => hname (by simpa using hsub hmem)) _

section

variable {P : Command → Prop}

theorem Compound.Of.startsCommand {body : Compound} (h : body.Of P) :
    StartsCommand body.tokens := by
  cases body with
  | arithmetic | forArithmetic => exact h.elim
  | ifElse clauses orElse =>
    obtain ⟨clause, rest, rfl⟩ := List.exists_cons_of_ne_nil h.1
    cases orElse <;> simpa [tokens, Clause.tokens] using startsCommand_keyword (by decide) _
  | loop kind => cases kind <;> exact startsCommand_keyword (by decide) _
  | _ => exact startsCommand_keyword (by decide) _

theorem Pipeline.Of.startsPipeline (hP : ∀ c, P c → StartsCommand c.tokens) {pipeline : Pipeline}
    (h : pipeline.Of P) : StartsPipeline pipeline.tokens := by
  obtain ⟨commands, negated⟩ := pipeline
  obtain ⟨first, rest, rfl⟩ := List.exists_cons_of_ne_nil h.nonempty
  rw [tokens]
  cases negated with
  | true => exact ⟨_, rfl, .inr ⟨rfl, by decide⟩⟩
  | false => exact ((hP first (h.commands first List.mem_cons_self)).append _).startsPipeline

theorem keyword_not_newline (text : String) (more : List Token) :
    ∀ t ∈ (Token.keyword text :: more).head?, t.kind ≠ .newline := by
  simp [Token.keyword, Token.ofWord]

/-- A clause of a `case` starts with a pattern. -/
theorem CaseItem.Of.not_newline {item : CaseItem} (h : item.Of P) (more : List Token) :
    ∀ t ∈ (item.tokens ++ more).head?, t.kind ≠ .newline := by
  obtain ⟨patterns, body, ending⟩ := item
  obtain ⟨first, rest, rfl⟩ := List.exists_cons_of_ne_nil h.nonempty
  rintro t ⟨⟩
  nofun

theorem Statement.Of.startsPipeline (hP : ∀ c, P c → StartsCommand c.tokens) {s : Statement}
    (h : s.Of P) : StartsPipeline s.tokens := by
  obtain ⟨first, rest, background⟩ := s
  rw [tokens, List.append_assoc]
  exact (h.first.startsPipeline hP).append _

end

theorem StartsPipeline.not_newline {tokens : List Token} (h : StartsPipeline tokens) :
    ∀ t ∈ tokens.head?, t.kind ≠ .newline := by
  obtain ⟨t, ht, hkind⟩ := h
  intro t' ht'
  obtain rfl : t = t' := Option.mem_unique ht ht'
  rcases hkind with ⟨op, hop⟩ | ⟨hword, -⟩ <;> simp [*]

/-- No list ends where a pipeline starts. -/
theorem StartsPipeline.not_atListEnd {tokens : List Token} (h : StartsPipeline tokens)
    {stops : List String} (hstops : stops ⊆ Parser.misplacedKeywords) :
    Parser.atListEnd stops tokens = false := by
  obtain ⟨t, ht, hkind⟩ := h
  obtain ⟨more, rfl⟩ := List.head?_eq_some_iff.1 ht
  rcases hkind with ⟨op, hop⟩ | ⟨hword, htext⟩
  · simp [Parser.atListEnd, hop]
  · simpa [Parser.atListEnd, hword] using fun hmem => htext (hstops hmem)

namespace Parser.ReadsSource

variable {P : Command → Prop} {p : Parser} (h : p.lower.ReadsSource P)
include h

/-! ## Pipelines and lists -/

theorem innerCommand {c : Command} (hc : P c) {rest : List Token}
    (hrest : NextIn commandEnds rest) :
    p.innerCommand.outcome (c.tokens ++ rest) = .ok (c, rest) := by
  rw [Along.innerCommand_eq]
  exact h.command hc p.lastLine hrest

theorem stages {list : List Command} (hlist : ∀ c ∈ list, P c) {rest : List Token}
    (hrest : NextIn pipelineEnds rest) (done : List Command) :
    (p.stages done).outcome (Command.stageTokens list ++ rest) =
      .ok (list.reverse ++ done, rest) := by
  rw [Command.stageTokens_eq, Parser.stages]
  refine outcome_repeatFrom_flatMap (NextIn commandEnds) hrest.commandEnds (fun done t ht => ?_)
    (fun c hc done more hmore => ?_) (fun c hc more => ?_) done
  · rw [if_neg]
    have hkind := hrest t ht
    rintro heq
    rw [beq_iff_eq.1 heq] at hkind
    exact absurd hkind (by decide)
  · have hstart := ((h.starts (hlist c hc)).append more).startsPipeline
    have hskip := outcome_skipNewlines hstart.not_newline
    have hread := innerCommand h (hlist c hc) hmore
    exact outcome_repeatFrom_turn rfl ((outcome_bind_ok hskip).trans (outcome_bind_ok hread))
  · rintro t ⟨⟩
    exact List.mem_cons_self

theorem pipeline {r : Pipeline} (hr : r.Of P) {rest : List Token}
    (hrest : NextIn pipelineEnds rest) :
    (ofRest (p.pipeline false)).outcome (r.tokens ++ rest) = .ok (r, rest) := by
  obtain ⟨commands, negated⟩ := r
  obtain ⟨first, list, rfl⟩ := List.exists_cons_of_ne_nil hr.nonempty
  obtain ⟨hfirst, hlist⟩ := List.forall_mem_cons.1 hr.commands
  have hnext : NextIn commandEnds (Command.stageTokens list ++ rest) := by
    cases list with
    | nil => exact hrest.commandEnds
    | cons c list =>
      rintro t ⟨⟩
      exact List.mem_cons_self
  have hcommands (negated : Bool) : (ofRest (p.pipeline negated)).outcome
      (first.tokens ++ (Command.stageTokens list ++ rest)) =
        .ok (⟨first :: list, negated⟩, rest) := by
    obtain ⟨t, ht, hkind⟩ := h.starts hfirst
    obtain ⟨more, htokens⟩ := List.head?_eq_some_iff.1 ht
    have hgo : ¬(t.kind == .word && t.text == "!") = true := by
      rcases hkind with ⟨op, hop⟩ | ⟨-, -, hnot⟩
      · simp [hop]
      · simp [hnot]
    have hinner := innerCommand h hfirst hnext
    rw [htokens, List.cons_append] at hinner ⊢
    rw [Along.outcome_pipeline, if_neg hgo, outcome_bind_ok hinner,
      outcome_bind_ok (stages h hlist hrest [first])]
    simp [outcome]
    rfl
  rw [Pipeline.tokens, List.append_assoc, List.append_assoc]
  cases negated with
  | false => exact hcommands false
  | true =>
    refine (Along.outcome_pipeline p false (.keyword "!") _).trans ?_
    rw [if_pos (by rfl)]
    exact hcommands true

theorem links {list : List (Connective × Pipeline)} (hlist : ∀ link ∈ list, link.2.Of P)
    {rest : List Token} (hrest : NextIn statementEnds rest) :
    p.links.outcome (Statement.linkTokens list ++ rest) = .ok (list.reverse, rest) := by
  rw [Statement.linkTokens_eq, Along.links_eq]
  refine (outcome_repeatFrom_flatMap (NextIn pipelineEnds) hrest.pipelineEnds (fun done t ht => ?_)
    (fun link hlink done more hmore => ?_) (fun link hlink more => ?_) []).trans ?_
  · have hkind := hrest t ht
    simp only [statementEnds, List.mem_cons, List.not_mem_nil, or_false] at hkind
    rcases hkind with hkind | hkind <;> simp [connective?, hkind]
  · obtain ⟨op, r⟩ := link
    have hstart := ((hlist (op, r) hlink).startsPipeline fun c => h.starts).append more
    have hskip := outcome_skipNewlines hstart.not_newline
    have hread := pipeline h (hlist (op, r) hlink) hmore
    exact outcome_repeatFrom_turn rfl ((outcome_bind_ok hskip).trans (outcome_bind_ok hread))
  · obtain ⟨op, r⟩ := link
    rintro t ⟨⟩
    cases op <;> simp [pipelineEnds, Token.ofKind]
  · rw [List.append_nil]

/-- **A statement** is given back, but for what the token after it says. -/
theorem statement {s : Statement} (hs : s.Of P) {rest : List Token}
    (hrest : NextIn statementEnds rest) :
    (ofRest p.statement).outcome (s.first.tokens ++ (Statement.linkTokens s.rest ++ rest)) =
      .ok (⟨s.first, s.rest, false⟩, rest) := by
  have hnext : NextIn pipelineEnds (Statement.linkTokens s.rest ++ rest) := by
    cases s.rest with
    | nil => exact hrest.pipelineEnds
    | cons link list =>
      obtain ⟨op, r⟩ := link
      rintro t ⟨⟩
      cases op <;> simp [pipelineEnds, Token.ofKind]
  rw [Along.outcome_statement, outcome_bind_ok (pipeline h hs.first hnext),
    outcome_bind_ok (links h hs.rest hrest)]
  simp [outcome]
  rfl

/-- **A list of statements** is given back, and ends at a keyword that is waited for. -/
theorem statementsFrom {stops : List String} (hstops : stops ⊆ misplacedKeywords)
    {rest : List Token} (hrest : atListEnd stops rest = true) {list : List Statement}
    (hlist : ∀ s ∈ list, s.Of P) (done : List Statement) :
    (Along.statementsFrom p stops done).outcome (list.flatMap Statement.tokens ++ rest) =
      .ok (done.reverse ++ list, rest) := by
  induction list generalizing done with
  | nil =>
    have hline : ∀ t ∈ rest.head?, t.kind ≠ .newline := by
      rintro t ht hkind
      obtain ⟨more, rfl⟩ := List.head?_eq_some_iff.1 ht
      simp [atListEnd, hkind] at hrest
    simp [Along.outcome_statements, dropWhile_newline hline, hrest]
  | cons s list ih =>
    obtain ⟨hs, hmembers⟩ := List.forall_mem_cons.1 hlist
    have hstart := (hs.startsPipeline fun c => h.starts).append
      (list.flatMap Statement.tokens ++ rest)
    rw [List.flatMap_cons, List.append_assoc, Along.outcome_statements,
      dropWhile_newline hstart.not_newline]
    dsimp only
    rw [hstart.not_atListEnd hstops, if_neg (by exact Bool.false_ne_true)]
    obtain ⟨first, links, background⟩ := s
    have hnext : NextIn statementEnds (.ofKind (if background then .ampersand else .semicolon) ::
        .lineEnd :: (list.flatMap Statement.tokens ++ rest)) := by
      rintro t ⟨⟩
      cases background <;> decide
    have hread := statement h hs hnext
    have hmore := ih hmembers (⟨first, links, background⟩ :: done)
    rw [List.reverse_cons, List.append_assoc, List.singleton_append] at hmore
    rw [Statement.tokens, List.append_assoc, List.append_assoc, List.cons_append,
      List.singleton_append, hread, ← hmore, ← Along.outcome_statements_cons (t := .lineEnd) rfl]
    cases background <;> rfl

/-! ## Compound commands -/

theorem body {stops : List String} (hstops : stops ⊆ misplacedKeywords) {rest : List Token}
    (hrest : atListEnd stops rest = true) {list : List Statement}
    (hlist : Statement.BodyOf P list) :
    (p.body stops).outcome (list.flatMap Statement.tokens ++ rest) = .ok (list, rest) := by
  refine (outcome_bind_ok (statementsFrom h hstops hrest hlist.statements [])).trans ?_
  rw [if_neg (by simpa using hlist.nonempty)]
  rfl

theorem body_lineEnd {stops : List String} (hstops : stops ⊆ misplacedKeywords)
    {rest : List Token} (hrest : atListEnd stops rest = true) {list : List Statement}
    (hlist : Statement.BodyOf P list) :
    (p.body stops).outcome (.lineEnd :: (list.flatMap Statement.tokens ++ rest)) =
      .ok (list, rest) := by
  have hread := statementsFrom h hstops hrest hlist.statements []
  rw [← Along.outcome_statements_cons (t := .lineEnd) rfl] at hread
  refine (outcome_bind_ok hread).trans ?_
  rw [if_neg (by simpa using hlist.nonempty)]
  rfl

theorem doGroup {list : List Statement} (hlist : Statement.BodyOf P list) (rest : List Token) :
    p.doGroup.outcome (.keyword "do" :: .lineEnd ::
      (list.flatMap Statement.tokens ++ .keyword "done" :: rest)) = .ok (list, rest) := by
  refine (outcome_bind_ok rfl).trans ((outcome_bind_ok (outcome_keyword p "do" _)).trans ?_)
  refine (outcome_bind_ok (body_lineEnd h (by decide) (by rfl) hlist)).trans ?_
  exact outcome_bind_ok (outcome_keyword p "done" rest)

omit h in
theorem outcome_doGroup_lineEnd (p : Parser) (tokens : List Token) :
    p.doGroup.outcome (.lineEnd :: tokens) = p.doGroup.outcome tokens := by
  rw [Parser.doGroup, outcome_bind, outcome_bind]
  rfl

theorem clause {c : Clause} (hcondition : Statement.BodyOf P c.condition)
    (hbody : Statement.BodyOf P c.body) {rest : List Token}
    (hrest : atListEnd ["elif", "else", "fi"] rest = true) :
    p.clause.outcome (c.condition.flatMap Statement.tokens ++ .keyword "then" :: .lineEnd ::
      (c.body.flatMap Statement.tokens ++ rest)) = .ok (c, rest) := by
  refine (outcome_bind_ok (body h (by decide) (by rfl) hcondition)).trans ?_
  refine (outcome_bind_ok (outcome_keyword p "then" _)).trans ?_
  refine (outcome_bind_ok (body_lineEnd h (by decide) hrest hbody)).trans ?_
  cases c
  rfl

theorem clauses {list : List Clause}
    (hlist : ∀ c ∈ list, Statement.BodyOf P c.condition ∧ Statement.BodyOf P c.body)
    {text : String} (htext : text = "else" ∨ text = "fi") (first : Clause) (rest : List Token) :
    (p.clauses first).outcome (list.flatMap (Clause.tokens "elif") ++ .keyword text :: rest) =
      .ok (first :: list, .keyword text :: rest) := by
  refine (outcome_bind_ok (outcome_repeatFrom_flatMap
    (fun tokens => atListEnd ["elif", "else", "fi"] tokens = true) ?_ (fun done t ht => ?_)
    (fun c hc done more hmore => ?_) (fun c hc more => rfl) [first])).trans ?_
  · rcases htext with rfl | rfl <;> rfl
  · cases ht
    rcases htext with rfl | rfl <;> rfl
  · have hread := clause h (hlist c hc).1 (hlist c hc).2 hmore
    have htokens : c.tokens "elif" ++ more = .keyword "elif" ::
        (c.condition.flatMap Statement.tokens ++ .keyword "then" :: .lineEnd ::
          (c.body.flatMap Statement.tokens ++ more)) := by simp [Clause.tokens]
    rw [htokens]
    exact outcome_repeatFrom_turn rfl (outcome_map_ok _ hread)
  · simp [outcome]
    rfl

omit h in
/-- A clause of an `if` ends at the next one and after the last one. -/
theorem atListEnd_clauses (list : List Clause) {text : String} (htext : text = "else" ∨ text = "fi")
    (rest : List Token) : atListEnd ["elif", "else", "fi"]
      (list.flatMap (Clause.tokens "elif") ++ .keyword text :: rest) = true := by
  cases list with
  | nil => rcases htext with rfl | rfl <;> rfl
  | cons => rfl

section

variable {first : Clause} {list : List Clause}
  (hlist : ∀ c ∈ first :: list, Statement.BodyOf P c.condition ∧ Statement.BodyOf P c.body)

include hlist in
theorem ifElse_none (rest : List Token) :
    p.ifElse.outcome (first.condition.flatMap Statement.tokens ++ .keyword "then" :: .lineEnd ::
      (first.body.flatMap Statement.tokens ++ (list.flatMap (Clause.tokens "elif") ++
        .keyword "fi" :: rest))) = .ok (.ifElse (first :: list) none, rest) := by
  obtain ⟨hfirst, hlist⟩ := List.forall_mem_cons.1 hlist
  have hnext := atListEnd_clauses list (.inr rfl) rest
  refine (outcome_bind_ok (clause h hfirst.1 hfirst.2 hnext)).trans ?_
  refine (outcome_bind_ok (clauses h hlist (.inr rfl) first rest)).trans ?_
  refine (outcome_bind_ok (outcome_keyword?_of_ne (by decide) rest)).trans ?_
  dsimp only
  rw [if_neg (by exact Bool.false_ne_true)]
  exact (outcome_bind_ok rfl).trans (outcome_bind_ok (outcome_keyword p "fi" rest))

include hlist in
theorem ifElse_some {orElse : List Statement} (horElse : Statement.BodyOf P orElse)
    (rest : List Token) :
    p.ifElse.outcome (first.condition.flatMap Statement.tokens ++ .keyword "then" :: .lineEnd ::
      (first.body.flatMap Statement.tokens ++ (list.flatMap (Clause.tokens "elif") ++
        .keyword "else" :: .lineEnd :: (orElse.flatMap Statement.tokens ++
          .keyword "fi" :: rest)))) = .ok (.ifElse (first :: list) (some orElse), rest) := by
  obtain ⟨hfirst, hlist⟩ := List.forall_mem_cons.1 hlist
  have hend : atListEnd ["fi"] (.keyword "fi" :: rest) = true := rfl
  have hread := body_lineEnd h (by decide) hend horElse
  refine (outcome_bind_ok (clause h hfirst.1 hfirst.2 (atListEnd_clauses list (.inl rfl) _))).trans
    ?_
  refine (outcome_bind_ok (clauses h hlist (.inl rfl) first _)).trans ?_
  refine (outcome_bind_ok (outcome_keyword? "else" _)).trans ?_
  dsimp only
  rw [if_pos rfl]
  exact (outcome_bind_ok (outcome_map_ok some hread)).trans
    (outcome_bind_ok (outcome_keyword p "fi" rest))

end

theorem wordList {list : List Word} (hlist : ∀ w ∈ list, w.IsQuoted) (rest : List Token) :
    p.wordList.outcome (list.map (fun w => .ofWord 0 w.raw) ++ .lineEnd :: rest) =
      .ok (list, .lineEnd :: rest) := by
  rw [List.map_eq_flatMap]
  refine (outcome_bind_ok (outcome_repeatFrom_flatMap (fun _ => True) trivial ?_
    (fun w hw done more _ => ?_) (fun _ _ _ => trivial) [])).trans ?_
  · rintro done t ⟨⟩
    rfl
  · exact outcome_repeatFrom_turn rfl (outcome_map_ok _ (word h (hlist w hw) more))
  · simp [outcome]
    rfl

theorem forLoop {name : String} (hname : Arith.isName name = true) {words : Option (List Word)}
    (hwords : ∀ list ∈ words, ∀ w ∈ list, w.IsQuoted) {list : List Statement}
    (hlist : Statement.BodyOf P list) (rest : List Token) :
    p.forLoop.outcome (.keyword name :: (loopWords words ++ .lineEnd :: .keyword "do" ::
      .lineEnd :: (list.flatMap Statement.tokens ++ .keyword "done" :: rest))) =
      .ok (.forEach name words list, rest) := by
  have hgroup := doGroup h hlist rest
  refine (outcome_bind_ok (outcome_peek _ _)).trans ?_
  dsimp only
  rw [if_neg (by exact Bool.false_ne_true)]
  refine (outcome_bind_ok (outcome_expect p rfl _)).trans ?_
  rw [if_neg (by simpa [Token.keyword, Token.ofWord] using isValidName_of_isName hname)]
  cases words with
  | none =>
    refine (outcome_bind_ok (outcome_skipNewlines_lineEnd (keyword_not_newline _ _))).trans ?_
    refine (outcome_bind_ok (outcome_keyword?_of_ne (by decide) _)).trans ?_
    rw [if_neg (by exact Bool.false_ne_true)]
    exact (outcome_bind_ok rfl).trans (outcome_bind_ok hgroup)
  | some words =>
    refine (outcome_bind_ok (outcome_skipNewlines (keyword_not_newline _ _))).trans ?_
    refine (outcome_bind_ok (outcome_keyword? "in" _)).trans ?_
    rw [if_pos rfl]
    refine (outcome_bind_ok (outcome_map_ok some (wordList h (hwords words rfl) _))).trans ?_
    exact outcome_bind_ok ((outcome_doGroup_lineEnd p _).trans hgroup)

theorem conditionLoop (kind : LoopKind) {condition list : List Statement}
    (hcondition : Statement.BodyOf P condition) (hlist : Statement.BodyOf P list)
    (rest : List Token) :
    (p.conditionLoop kind).outcome (condition.flatMap Statement.tokens ++ .keyword "do" ::
      .lineEnd :: (list.flatMap Statement.tokens ++ .keyword "done" :: rest)) =
      .ok (.loop kind condition list, rest) := by
  refine (outcome_bind_ok (body h (by decide) (by rfl) hcondition)).trans ?_
  refine (outcome_bind_ok (outcome_keyword p "do" _)).trans ?_
  refine (outcome_bind_ok (body_lineEnd h (by decide) (by rfl) hlist)).trans ?_
  exact outcome_bind_ok (outcome_keyword p "done" rest)

theorem patterns {list : List Word} (hlist : ∀ w ∈ list, w.IsQuoted) (first : Word)
    (rest : List Token) :
    (p.patterns first).outcome (list.flatMap (fun w => [.ofKind .pipe, .ofWord 0 w.raw]) ++
      .ofKind .closeParen :: rest) = .ok (first :: list, .ofKind .closeParen :: rest) := by
  refine (outcome_bind_ok (outcome_repeatFrom_flatMap (fun _ => True) trivial ?_
    (fun w hw done more _ => ?_) (fun _ _ _ => trivial) [first])).trans ?_
  · rintro done t ⟨⟩
    rfl
  · have hexpect := outcome_expect p (t := .ofWord 0 w.raw) rfl more
    have hread := word h (hlist w hw) more
    exact outcome_repeatFrom_turn rfl ((outcome_bind_ok hexpect).trans (outcome_bind_ok hread))
  · simp [outcome]
    rfl

theorem caseItem {first : Word} (hfirst : first.IsQuoted) {patterns : List Word}
    (hpatterns : ∀ w ∈ patterns, w.IsQuoted) {list : List Statement} (hlist : ∀ s ∈ list, s.Of P)
    (ending : ClauseEnd) {rest : List Token} (hrest : ∀ t ∈ rest.head?, t.kind ≠ .newline) :
    (p.caseItem first.raw).outcome
      (patterns.flatMap (fun w => [.ofKind .pipe, .ofWord 0 w.raw]) ++
        .ofKind .closeParen :: .lineEnd :: (list.flatMap Statement.tokens ++
          .ofKind (.clauseEnd ending) :: .lineEnd :: rest)) =
      .ok (⟨first :: patterns, list, ending⟩, rest) := by
  refine (outcome_bind_ok (word h hfirst _)).trans ?_
  refine (outcome_bind_ok (ReadsSource.patterns h hpatterns first _)).trans ?_
  refine (outcome_bind_ok (outcome_expect p rfl _)).trans ?_
  have hend : atListEnd ["esac"] (.ofKind (.clauseEnd ending) :: .lineEnd :: rest) = true := rfl
  have hread := statementsFrom h (by decide) hend hlist []
  rw [← Along.outcome_statements_cons (t := .lineEnd) rfl] at hread
  refine (outcome_bind_ok hread).trans ((outcome_bind_ok rfl).trans ?_)
  exact outcome_bind_ok (outcome_skipNewlines_lineEnd hrest)

theorem caseItems {list : List CaseItem} (hlist : ∀ item ∈ list, item.Of P) (rest : List Token) :
    p.caseItems.outcome (list.flatMap CaseItem.tokens ++ .keyword "esac" :: rest) =
      .ok (list, .keyword "esac" :: rest) := by
  refine (outcome_bind_ok (outcome_repeatFrom_flatMap
    (fun tokens => ∀ t ∈ tokens.head?, t.kind ≠ .newline) ?_ ?_
    (fun item hitem done more hmore => ?_)
    (fun item hitem more => (hlist item hitem).not_newline more) [])).trans ?_
  · exact keyword_not_newline _ _
  · rintro done t ⟨⟩
    rfl
  · obtain ⟨patterns, list, ending⟩ := item
    obtain ⟨hne, hpatterns, hstatements⟩ := hlist _ hitem
    obtain ⟨first, patterns, rfl⟩ := List.exists_cons_of_ne_nil hne
    obtain ⟨hfirst, hpatterns⟩ := List.forall_mem_cons.1 hpatterns
    have hread := caseItem h hfirst hpatterns hstatements ending hmore
    have htokens : CaseItem.tokens ⟨first :: patterns, list, ending⟩ ++ more =
        .ofWord 0 first.raw :: (patterns.flatMap (fun w => [.ofKind .pipe, .ofWord 0 w.raw]) ++
          .ofKind .closeParen :: .lineEnd :: (list.flatMap Statement.tokens ++
            .ofKind (.clauseEnd ending) :: .lineEnd :: more)) := by
      simp [CaseItem.tokens, patternTokens]
    have hesac : first.raw ≠ "esac" := hfirst.raw_ne (by decide)
    rw [htokens]
    refine outcome_repeatFrom_turn ?_ (outcome_map_ok (· :: done) hread)
    rw [if_pos (by rfl), if_neg (by simpa [Token.ofWord] using hesac)]
    rfl
  · refine (outcome_bind_ok (outcome_peek _ _)).trans ?_
    simp [outcome]
    rfl

theorem caseOf {subject : Word} (hsubject : subject.IsQuoted) {list : List CaseItem}
    (hlist : ∀ item ∈ list, item.Of P) (rest : List Token) :
    p.caseOf.outcome (.ofWord 0 subject.raw :: .keyword "in" :: .lineEnd ::
      (list.flatMap CaseItem.tokens ++ .keyword "esac" :: rest)) =
      .ok (.case subject list, rest) := by
  have hstart : ∀ t ∈ (list.flatMap CaseItem.tokens ++ .keyword "esac" :: rest).head?,
      t.kind ≠ .newline := by
    cases list with
    | nil => exact keyword_not_newline _ _
    | cons item list =>
      rw [List.flatMap_cons, List.append_assoc]
      exact (hlist item List.mem_cons_self).not_newline _
  refine (outcome_bind_ok (outcome_expect p rfl _)).trans ?_
  refine (outcome_bind_ok (outcome_skipNewlines (keyword_not_newline _ _))).trans ?_
  refine (outcome_bind_ok (outcome_keyword p "in" _)).trans ?_
  refine (outcome_bind_ok (outcome_skipNewlines_lineEnd hstart)).trans ?_
  refine (outcome_bind_ok (caseItems h hlist rest)).trans ?_
  refine (outcome_bind_ok (outcome_keyword p "esac" rest)).trans ?_
  exact outcome_bind_ok (word h hsubject rest)

theorem group {list : List Statement} (hlist : Statement.BodyOf P list) (rest : List Token) :
    p.group.outcome (.lineEnd :: (list.flatMap Statement.tokens ++ .keyword "\x7d" :: rest)) =
      .ok (.group list, rest) := by
  refine (outcome_bind_ok (body_lineEnd h (by decide) (by rfl) hlist)).trans ?_
  exact outcome_bind_ok (outcome_keyword p "\x7d" rest)

theorem test {list : List Word} (hne : list ≠ []) (hlist : ∀ w ∈ list, w.IsQuoted) (line : Nat)
    (rest : List Token) :
    (p.test line).outcome (list.map (fun w => .ofWord 0 w.raw) ++ .keyword "]]" :: rest) =
      .ok (.test list, rest) := by
  have hoperands : (p.testOperands line).outcome
      (list.map (fun w => .ofWord 0 w.raw) ++ .keyword "]]" :: rest) = .ok (list, rest) := by
    rw [List.map_eq_flatMap]
    refine (outcome_bind_ok (outcome_repeatFrom_flatMap (fun _ => True) trivial ?_
      (fun w hw done more _ => ?_) (fun _ _ _ => trivial) [])).trans ?_
    · rintro done t ⟨⟩
      rfl
    · have hclose : w.raw ≠ "]]" := (hlist w hw).raw_ne (by decide)
      have hmatch : w.raw ≠ "=~" := (hlist w hw).raw_ne (by decide)
      have hoperand : (p.operands (.ofWord 0 w.raw)).outcome more = .ok ([w], more) := by
        refine (outcome_bind_ok (word h (hlist w hw) more)).trans ?_
        rw [if_neg (by simpa [Token.ofWord] using hmatch)]
        rfl
      refine outcome_repeatFrom_turn ?_ (outcome_map_ok (· ++ done) hoperand)
      rw [if_neg (by simpa [Token.ofWord] using hclose)]
    · refine (outcome_bind_ok (outcome_peek _ _)).trans ?_
      refine (outcome_bind_ok (outcome_keyword p "]]" rest)).trans ?_
      simp [outcome]
      rfl
  refine (outcome_bind_ok hoperands).trans ?_
  rw [if_neg (by simpa using hne)]
  rfl

/-! ## Commands -/

/-- The keyword of a compound command says how it is read on. -/
theorem exists_keyword {body : Compound} (hbody : body.Of P) (rest : List Token) :
    ∃ text read tokens, p.keywordCommand? (.keyword text) = some (p.withRedirections read) ∧
      body.tokens ++ rest = .keyword text :: tokens ∧
      read.outcome tokens = .ok (body, rest) := by
  cases body with
  | arithmetic | forArithmetic => exact hbody.elim
  | ifElse clauses orElse =>
    obtain ⟨hne, hclauses, horElse⟩ := hbody
    obtain ⟨first, list, rfl⟩ := List.exists_cons_of_ne_nil hne
    cases orElse with
    | none =>
      exact ⟨"if", _, _, rfl, by simp [Compound.tokens, Clause.tokens], ifElse_none h hclauses rest⟩
    | some orElse =>
      exact ⟨"if", _, _, rfl, by simp [Compound.tokens, Clause.tokens],
        ifElse_some h hclauses (horElse orElse rfl) rest⟩
  | forEach name words list =>
    obtain ⟨hname, hwords, hlist⟩ := hbody
    exact ⟨"for", _, _, rfl, by simp [Compound.tokens], forLoop h hname hwords hlist rest⟩
  | loop kind condition list =>
    have hread := conditionLoop h kind hbody.1 hbody.2 rest
    refine ⟨kind.keyword, _, _, ?_, by simp [Compound.tokens], hread⟩
    cases kind <;> rfl
  | case subject items =>
    exact ⟨"case", _, _, rfl, by simp [Compound.tokens], caseOf h hbody.1 hbody.2 rest⟩
  | group list => exact ⟨"\x7b", _, _, rfl, by simp [Compound.tokens], group h hbody rest⟩
  | test words =>
    exact ⟨"[[", _, _, rfl, by simp [Compound.tokens], test h hbody.1 hbody.2 0 rest⟩

/-- **A compound command** is given back, with the redirections after it. -/
theorem compound {body : Compound} (hbody : body.Of P) {redirections : List Redirection}
    (hredirections : ∀ r ∈ redirections, r.WellFormed) {rest : List Token}
    (hrest : NextIn commandEnds rest) :
    (ofRest p.command).outcome
      (body.tokens ++ (redirections.flatMap (Redirection.tokens 0) ++ rest)) =
      .ok (.compound body redirections, rest) := by
  obtain ⟨text, read, tokens, hkeyword, htokens, hread⟩ :=
    exists_keyword h hbody (redirections.flatMap (Redirection.tokens 0) ++ rest)
  rw [htokens, Along.outcome_command, Along.commandAfter_word rfl, hkeyword]
  refine (outcome_bind_ok hread).trans ?_
  exact outcome_bind_ok (ReadsSource.redirections h hredirections 0 hrest)

theorem functionRest {body : Compound} {redirections : List Redirection}
    (hbody : P (.compound body redirections)) (t : Token) {rest : List Token}
    (hrest : NextIn commandEnds rest) :
    (Along.functionRest p t).outcome
      (body.tokens ++ (redirections.flatMap (Redirection.tokens 0) ++ rest)) =
      .ok (.function t.text body redirections, rest) := by
  have hstart := ((h.starts hbody).append rest).startsPipeline
  have hread := innerCommand h hbody hrest
  rw [Command.tokens, List.append_assoc] at hstart hread
  refine (outcome_bind_ok (outcome_skipNewlines hstart.not_newline)).trans ?_
  exact outcome_bind_ok hread

omit h in
/-- Empty parentheses after the name of a function are passed over. -/
theorem outcome_functionBody_parens (p : Parser) (t : Token) (tokens : List Token) :
    (p.functionBody t).outcome (.ofKind .openParen :: .ofKind .closeParen :: tokens) =
      (Along.functionRest p t).outcome tokens := by
  refine (outcome_bind_ok (outcome_peek _ _)).trans ?_
  refine (outcome_bind_ok (outcome_expect p rfl _)).trans ?_
  exact outcome_bind_ok (outcome_expect p rfl tokens)

omit h in
theorem outcome_functionBody (p : Parser) (t : Token) {tokens : List Token}
    (htokens : StartsCommand tokens) :
    (p.functionBody t).outcome tokens = (Along.functionRest p t).outcome tokens := by
  obtain ⟨next, hnext, hkind⟩ := htokens
  obtain ⟨more, rfl⟩ := List.head?_eq_some_iff.1 hnext
  refine (outcome_bind_ok (outcome_peek _ _)).trans ?_
  obtain ⟨kind, text, line, descriptor, document⟩ := next
  cases kind with
  | openParen => simp at hkind
  | _ => rfl

/-- **A function** is given back, however its name is written. -/
theorem function {name : String} {body : Compound} {redirections : List Redirection}
    (hbody : P (.compound body redirections)) {rest : List Token}
    (hrest : NextIn commandEnds rest) :
    (ofRest p.command).outcome ((Command.function name body redirections).tokens ++ rest) =
      .ok (.function name body redirections, rest) := by
  have hread := functionRest h hbody (.keyword name) hrest
  have hstart := (h.starts hbody).append rest
  rw [Command.tokens, List.append_assoc] at hstart
  rw [Command.tokens, List.append_assoc, List.append_assoc, functionHead]
  split
  · refine (Along.outcome_command p _ _).trans ?_
    rw [Along.commandAfter_word rfl]
    refine (outcome_bind_ok (outcome_expect p rfl _)).trans ?_
    exact (outcome_functionBody p _ hstart).trans hread
  · next hname =>
    have hname : name ∉ keywords := by simpa using hname
    have hmisplaced : misplacedKeywords.contains (Token.keyword name).text = false := by
      simpa [Token.keyword, Token.ofWord] using not_mem_misplacedKeywords hname
    refine (Along.outcome_command p _ _).trans ?_
    rw [Along.commandAfter_word rfl, keywordCommand?_of_not_mem p hname]
    dsimp only
    rw [hmisplaced, if_neg (by exact Bool.false_ne_true), if_pos (by rfl)]
    exact (outcome_functionBody_parens p _ _).trans hread

end Parser.ReadsSource

/-! ## Levels -/

/-- **A level gives back the commands** that nest less deep. -/
theorem Level.readsSource_ofDepth (n : Nat) :
    (ofDepth (n + 1)).ReadsSource (Command.WellFormed n) := by
  have hword {n : Nat} {w : Word} (hw : w.IsQuoted) :
      (ofDepth (n + 1)).parts .unquoted w.raw.toList = .ok w.parts := by
    obtain ⟨text, htext, rfl⟩ := hw
    have hraw : (Word.inQuotes text).raw.toList = '\'' :: (text.toList ++ ['\'']) := by
      simp [Word.inQuotes]
    have hscan := Quotation.scanParts_single (ofDepth n) htext [] []
    rw [String.ofList_toList, scanParts] at hscan
    rw [hraw]
    exact hscan
  induction n with
  | zero => exact ⟨hword, fun hc => hc.elim, fun hc => hc.elim⟩
  | succ n ih =>
    refine ⟨hword, fun {c} hc => ?_, fun {c} hc lastLine {rest} hrest => ?_⟩
    · cases c with
      | simple c => exact SimpleCommand.WellFormed.startsCommand hc
      | compound body redirections => exact hc.1.startsCommand.append _
      | function name body redirections => exact startsCommand_functionHead name _
    · change (ofRest (Parser.command ⟨ofDepth (n + 1), lastLine⟩)).outcome (c.tokens ++ rest) = _
      cases c with
      | simple c => exact Parser.ReadsSource.simple ih hc hrest
      | compound body redirections =>
        rw [Command.tokens, List.append_assoc]
        exact Parser.ReadsSource.compound ih hc.1 hc.2 hrest
      | function name body redirections => exact Parser.ReadsSource.function ih hc.2 hrest

/-! ## Scripts -/

/-- **A script is read back from its source text**, but for the lines that its commands stand on. -/
theorem Script.parse_source {script : Script} (h : script.WellFormed)
    (hlength : script.source.length ≤ maxScriptLength)
    (hcount : script.tokens.length + 1 ≤ maxTokenCount) :
    ∃ read, parse script.source = .ok read ∧
      read.statements.map (Statement.mapLines fun _ => 0) =
        script.statements.map (Statement.mapLines fun _ => 0) := by
  obtain ⟨stream, hstream, hsame⟩ := TokenStream.ofText_source h.inSource
  have hkeeps : Level.outermost.Keeps fun _ => 0 := Level.keeps_ofDepth _ maxNesting
  have hlevel : Level.outermost.ReadsSource (Command.WellFormed (maxNesting - 1)) :=
    Level.readsSource_ofDepth (maxNesting - 1)
  have hend : Parser.atListEnd [] [] = true := rfl
  have hread := Parser.ReadsSource.statementsFrom (p := ⟨.outermost, stream.lastLine⟩) hlevel
    (List.nil_subset _) hend h []
  rw [List.append_nil] at hread
  have hcondense : Token.condense (fun _ => 0) script.tokens =
      Token.condense (fun _ => 0) stream.tokens := by
    rw [Token.condense_map, ← hsame, ← Token.condense_map]
  obtain ⟨list, hlist, hlines⟩ := Parser.statementList_of_condense hkeeps hkeeps stream.lastLine
    stream.lastLine hcondense hread
  have htokens : stream.tokens.length = script.tokens.length := by
    simpa using congrArg List.length hsame
  refine ⟨⟨list⟩, Level.Along.script_eq_ok_iff.2 ⟨hlength, stream, hstream, ?_, hlist⟩, hlines.symm⟩
  rwa [htokens]

/-- A function in whose body a condition and a negated pipeline in the background stand. -/
theorem Script.parse_source_function :
    let call (text : String) : Command := .simple ⟨[], some (.inQuotes text), [], [], 0⟩
    let list (commands : List Command) (negated background : Bool) : List Statement :=
      [⟨⟨commands, negated⟩, [], background⟩]
    let choice : Compound :=
      .ifElse [⟨list [call "a"] false false, list [call "b", call "c"] true true⟩] none
    let output : Redirection := ⟨.output, .word (.inQuotes "d"), some 2⟩
    let body : Compound := .group (list [.compound choice [output]] false false)
    let script : Script := ⟨list [.function "fi" body []] false false⟩
    script.WellFormed ∧ ∃ read, parse script.source = .ok read ∧
      read.statements.map (Statement.mapLines fun _ => 0) =
        script.statements.map (Statement.mapLines fun _ => 0) := by
  intro call list choice output body script
  have hcall (n : Nat) (text : String) (htext : '\'' ∉ text.toList) :
      (call text).WellFormed (n + 1) :=
    ⟨nofun, List.forall_mem_singleton.2 ⟨text, htext, rfl⟩, nofun, nofun, .inr (.inl nofun)⟩
  have hlist {P : Command → Prop} {commands : List Command} (negated background : Bool)
      (hne : commands ≠ []) (hcommands : ∀ c ∈ commands, P c) :
      Statement.BodyOf P (list commands negated background) :=
    ⟨nofun, List.forall_mem_singleton.2 ⟨⟨hne, hcommands⟩, nofun⟩⟩
  have hchoice (n : Nat) : choice.Of (Command.WellFormed (n + 1)) := by
    refine ⟨nofun, List.forall_mem_singleton.2 ⟨hlist _ _ nofun ?_, hlist _ _ nofun ?_⟩, nofun⟩
    · exact List.forall_mem_singleton.2 (hcall n "a" (by decide))
    · exact List.forall_mem_cons.2 ⟨hcall n "b" (by decide),
        List.forall_mem_singleton.2 (hcall n "c" (by decide))⟩
  have houtput : output.WellFormed :=
    ⟨rfl, ⟨_, ⟨"d", by decide, rfl⟩, rfl⟩, fun _ _ => ⟨'>', by decide, .inr rfl⟩, by
      rintro n ⟨⟩
      decide⟩
  have hbody (n : Nat) : Command.WellFormed (n + 3) (.compound body []) :=
    ⟨hlist _ _ nofun (List.forall_mem_singleton.2
      ⟨hchoice n, List.forall_mem_singleton.2 houtput⟩), nofun⟩
  have hfunction : Command.WellFormed (maxNesting - 1) (.function "fi" body []) :=
    ⟨isPlainWord_of_mem_keywords (by decide), hbody 59⟩
  have hwell : script.WellFormed :=
    (hlist false false (List.cons_ne_nil _ _) (List.forall_mem_singleton.2 hfunction)).statements
  exact ⟨hwell, parse_source hwell (by cbv) (by cbv)⟩

/-- The script of one word between single quotes. -/
def Script.ofQuoted (text : String) : Script :=
  ⟨[⟨⟨[.simple ⟨[], some (.inQuotes text), [], [], 1⟩], false⟩, [], false⟩]⟩

theorem Script.wellFormed_ofQuoted {text : String} (h : '\'' ∉ text.toList) :
    (ofQuoted text).WellFormed := by
  refine List.forall_mem_singleton.2 ⟨⟨nofun, List.forall_mem_singleton.2 ?_⟩, nofun⟩
  exact ⟨nofun, List.forall_mem_singleton.2 ⟨text, h, rfl⟩, nofun, nofun, .inr (.inl nofun)⟩

theorem Script.length_source_ofQuoted (text : String) :
    (ofQuoted text).source.length = text.length + 7 := by
  have hquote : "'".length = 1 := by decide
  have hend : "' ; \n ".length = 6 := by decide
  simp [ofQuoted, source, tokens, Statement.tokens, Pipeline.tokens, Command.tokens,
    SimpleCommand.tokens, Token.source, Word.inQuotes, Token.ofWord, Token.ofKind, Token.lineEnd,
    TokenKind.spelling, hquote, hend]
  omega

theorem Script.parse_ofQuoted_tooLarge :
    let script := ofQuoted (String.ofList (List.replicate maxScriptLength 'x'))
    script.WellFormed ∧
      parse script.source = .error (.grammar (.scriptTooLarge (maxScriptLength + 7)) none) := by
  refine ⟨wellFormed_ofQuoted (by simp), (Level.Along.script_eq _ _).trans ?_⟩
  have hlength := length_source_ofQuoted (String.ofList (List.replicate maxScriptLength 'x'))
  rw [String.length_ofList, List.length_replicate] at hlength
  rw [hlength, if_pos (by omega)]

end VirtualShell
