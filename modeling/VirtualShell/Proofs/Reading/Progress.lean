import VirtualShell.Proofs.Reading.SourceCommand
import VirtualShell.Proofs.Reading.Yield

/-!
# Parsers make progress

A parser hands on what is left of its tokens, and by its type this list is no longer than before.
More is true: what is left is the end of the list, and every token before it has one place in what
the parser gives. So a command takes a token at least and none that is not there, every turn of a
loop leaves fewer tokens, and a script that is read has used up its tokens.

This is shown of one construct after the other. The commands inside of a construct are those of the
level further in, of which it is assumed, so an induction over the levels ends the proof.

* `Level.Reads` — the commands of a level are read from tokens of the grammar.
* `Parser.consumes_statementList`, `Parser.consumes_command` and the like — so are the constructs of
  a parser over this level.
* `Reader.exists_endsAfter` — loops end when every turn that goes on leaves fewer items.
* `Parser.MakesProgress`, `Parser.LoopsEnd` — what is read by a parser, and that its loops end.
* **`Level.makesProgress_ofDepth`** — both hold at every level, and a script is read from all tokens
  of its text.
-/

namespace VirtualShell

open Reader

/-- The commands of a level are read from tokens of the grammar. -/
def Level.Reads (P : Command → List Token → Prop) (l : Level) : Prop :=
  ∀ lastLine items, Consumes P (ofRest (l.command lastLine)) items

namespace Parser

variable {α : Type} {P : Command → List Token → Prop}

/-! ## Single tokens -/

theorem isWord_of_eq {t : Token} {text : String} (h : t.kind == .word && t.text == text) :
    t.IsWord text := by
  simpa [Token.IsWord] using h

theorem kind_of_connective? {t : Token} {op : Connective} (h : connective? t = some op) :
    t.kind = .connective op := by
  unfold connective? at h
  split at h
  · next hkind =>
    cases h
    exact hkind
  · cases h

theorem consumes_skipNewlines (items : List Token) :
    Consumes (fun _ taken => LineEnds taken) skipNewlines items :=
  (Consumes.skipWhile _).mono fun _ _ h t ht => eq_of_beq (h t ht)

section

variable (p : Parser)

theorem consumes_lift {Q : α → Prop} {x : Except SyntaxError α} (h : ∀ a, x = .ok a → Q a)
    (items : List Token) : Consumes (fun a taken => taken = [] ∧ Q a) (p.lift x) items := by
  rintro a rest hread
  cases x with
  | error e => cases hread
  | ok b =>
    cases hread
    exact ⟨[], rfl, rfl, h _ rfl⟩

theorem consumes_lift_map {β : Type} {Q : α → Prop} {x : Except SyntaxError β} {f : β → α}
    (h : ∀ b, Q (f b)) (items : List Token) :
    Consumes (fun a taken => taken = [] ∧ Q a) (p.lift (x.map f)) items := by
  refine consumes_lift p (fun a ha => ?_) items
  cases x with
  | error e => cases ha
  | ok b =>
    cases ha
    exact h b

theorem consumes_word (text : String) (items : List Token) :
    Consumes (fun w taken => taken = [] ∧ w.raw = text) (p.word text) items :=
  consumes_lift_map p (Q := fun w : Word => w.raw = text) (fun _ => rfl) items

theorem consumes_expandedText (text : String) (items : List Token) :
    Consumes (fun w taken => taken = [] ∧ w.raw = text) (p.expandedText text) items :=
  consumes_lift_map p (Q := fun w : Word => w.raw = text) (fun _ => rfl) items

theorem consumes_expect (kind : TokenKind) (items : List Token) :
    Consumes (fun t taken => taken = [t] ∧ t.kind = kind) (p.expect kind) items := by
  rintro a rest hread
  cases items with
  | nil => cases hread
  | cons t items =>
    unfold outcome expect at hread
    dsimp only at hread
    split at hread
    · next hkind =>
      cases hread
      exact ⟨[t], rfl, rfl, eq_of_beq hkind⟩
    · cases hread

theorem consumes_keyword (text : String) (items : List Token) :
    Consumes (fun _ taken => ∃ t : Token, taken = [t] ∧ t.IsWord text) (p.keyword text) items := by
  rintro a rest hread
  cases items with
  | nil => cases hread
  | cons t items =>
    unfold outcome keyword at hread
    dsimp only at hread
    split at hread
    · next htext =>
      cases hread
      exact ⟨[t], rfl, t, rfl, isWord_of_eq htext⟩
    · cases hread

theorem consumes_keyword? (text : String) (items : List Token) :
    Consumes (fun found taken => if found then ∃ t : Token, taken = [t] ∧ t.IsWord text
      else taken = []) (keyword? text) items := by
  rintro a rest hread
  cases items with
  | nil =>
    cases hread
    exact ⟨[], rfl, rfl⟩
  | cons t items =>
    unfold outcome keyword? at hread
    dsimp only at hread
    split at hread
    · next htext =>
      cases hread
      exact ⟨[t], rfl, t, rfl, isWord_of_eq htext⟩
    · cases hread
      exact ⟨[], rfl, rfl⟩

/-- What a keyword announces may be absent. -/
theorem consumes_optional {β γ : Type} {R : β → List Token → Prop} {Q : γ → List Token → Prop}
    {text : String} {read : TokenReader β} {f : Option β → TokenReader γ}
    (hread : ∀ items, Consumes R read items)
    (hf : ∀ b taken rest, Optionally (Announced (Token.IsWord text) R) b taken →
      Consumes (fun c more => Q c (taken ++ more)) (f b) rest) (items : List Token) :
    Consumes Q (do
      let b ← if ← keyword? text then some <$> read else pure none
      f b) items := by
  refine (consumes_keyword? text items).bind fun found taken rest _ hfound => ?_
  dsimp only
  split
  · next hword =>
    rw [if_pos hword] at hfound
    obtain ⟨t, rfl, ht⟩ := hfound
    refine ((hread rest).map (R := fun b ts =>
      Optionally (Announced (Token.IsWord text) R) b (t :: ts))
      fun b ts hb => .present (.mk ht hb)).bind fun b ts rest _ hb => ?_
    simpa using hf b (t :: ts) rest hb
  · next hno =>
    rw [if_neg hno] at hfound
    subst hfound
    exact .pure_bind (hf none [] rest .absent)

theorem consumes_unexpected {Q : α → List Token → Prop} (items : List Token) :
    Consumes Q p.unexpected items := by
  rintro a rest hread
  cases hread

/-! ## Words -/

theorem isWordOf_empty {text : String} (h : text.isEmpty) : IsWordOf text none := by
  simp [IsWordOf, h]

theorem consumes_some {text : String} {read : TokenReader Word} {items : List Token}
    (h : Consumes (fun w taken => taken = [] ∧ w.raw = text) read items) (hne : ¬ text.isEmpty) :
    Consumes (fun word taken => taken = [] ∧ IsWordOf text word) (some <$> read) items := by
  refine h.map fun w taken hw => ⟨hw.1, ?_⟩
  simp [IsWordOf, hne, hw.2]

theorem consumes_wordList (items : List Token) :
    Consumes (Listed Word.Yields) p.wordList items := by
  refine (Consumes.collected (fun done t read items hread => ?_) items).map fun _ _ hws => hws
  split at hread
  · next ht =>
    cases hread
    refine (consumes_word p t.text items).map ?_
    rintro w _ ⟨rfl, hw⟩
    exact ⟨w, rfl, .token (eq_of_beq ht) hw⟩
  · cases hread

theorem consumes_patterns (first : Word) (items : List Token) :
    Consumes (fun patterns taken => ∃ more, patterns = first :: more ∧
      Listed (Announced (fun t => t.kind = .pipe) Word.Yields) more taken)
      (p.patterns first) items := by
  refine (Consumes.listed (fun done t read items hread => ?_) [first] items).map
    fun done taken hdone => hdone
  split at hread
  · next hpipe =>
    cases hread
    refine (consumes_expect p .word items).bind ?_
    rintro t' _ rest - ⟨rfl, ht'⟩
    refine (consumes_word p t'.text rest).map ?_
    rintro w _ ⟨rfl, hw⟩
    exact ⟨w, rfl, .mk (eq_of_beq hpipe) (.token ht' hw)⟩
  · cases hread

theorem consumes_section? (text : List Char) (items : List Token) :
    Consumes (fun word taken => taken = [] ∧ IsWordOf (.ofList (Text.strip text)) word)
      (p.section? text) items := by
  have hisEmpty : (String.ofList (Text.strip text)).isEmpty = (Text.strip text).isEmpty := by
    rw [Bool.eq_iff_iff, String.isEmpty_iff, List.isEmpty_iff, ← String.toList_inj]
    simp
  unfold section?
  dsimp only
  rw [← hisEmpty]
  split
  · next hempty => exact .pure ⟨rfl, isWordOf_empty hempty⟩
  · next hne => exact consumes_some (consumes_expandedText p _ items) hne

end

/-! ## Redirections and simple commands -/

section

variable (p : Parser)

theorem consumes_redirection {operator : Token} {op : RedirectOp}
    (hop : operator.kind = .redirect op) (items : List Token) :
    Consumes (fun r more => Redirection.Yields r (operator :: more))
      (p.redirection operator op) items := by
  refine (consumes_expect p .word items).bind ?_
  rintro target _ rest - ⟨rfl, htarget⟩
  split
  · next htakes =>
    split
    · exact .fail
    · next doc hdoc =>
      have hread {content : Word} (hcontent : content.raw = doc.body) :=
        Redirection.Yields.hereDocument hop htakes htarget hdoc hcontent
      split
      · exact .pure (hread rfl)
      · refine (consumes_expandedText p doc.body rest).bind ?_
        rintro content _ rest' - ⟨rfl, hcontent⟩
        exact .pure (hread hcontent)
  · next htakes =>
    refine (consumes_word p target.text rest).bind ?_
    rintro w _ rest' - ⟨rfl, hw⟩
    exact .pure (.word hop (by simpa using htakes) (.token htarget hw))

theorem consumes_redirections (items : List Token) :
    Consumes (Listed Redirection.Yields) p.redirections items := by
  refine (Consumes.collected (fun done t read items hread => ?_) items).map fun _ _ hrs => hrs
  split at hread
  · next op hop =>
    cases hread
    refine (consumes_redirection p hop items).map ?_
    exact fun r more hr => ⟨r, rfl, hr⟩
  · cases hread

variable {line : Nat} {c : SimpleCommand} {t : Token} {before : List Token}

theorem consumes_addWord (hc : c.inOrder.Yields line before) (ht : t.kind = .word)
    (items : List Token) : Consumes (fun c' more => c'.inOrder.Yields line (before ++ t :: more))
      (p.addWord c t.text) items := by
  unfold addWord
  split
  · next name hname =>
    refine (consumes_word p t.text items).bind ?_
    rintro arg _ rest - ⟨rfl, harg⟩
    have hsome : c.inOrder.name ≠ none := by simp [SimpleCommand.inOrder, hname]
    exact .pure (by simpa [SimpleCommand.inOrder] using hc.argument hsome (.token ht harg))
  · next hname =>
    split
    · next name append text hread =>
      have hadd {value : Option Word} (hvalue : IsWordOf text value) : SimpleCommand.Yields line
          (SimpleCommand.inOrder { c with assignments := ⟨name, value, append⟩ :: c.assignments })
          (before ++ [t]) := by
        simpa [SimpleCommand.inOrder] using hc.assignment hname (.token ht hread hvalue)
      dsimp only
      split
      · next hempty => exact .pure (hadd (isWordOf_empty hempty))
      · next hne =>
        refine (consumes_some (consumes_word p text items) hne).bind ?_
        rintro value _ rest - ⟨rfl, hvalue⟩
        exact .pure (hadd hvalue)
    · next hno =>
      refine (consumes_word p t.text items).bind ?_
      rintro w _ rest - ⟨rfl, hw⟩
      exact .pure (hc.name hname (hw ▸ hno) (.token ht hw))

theorem consumes_simpleItem {read : TokenReader SimpleCommand}
    (hc : c.inOrder.Yields line before) (hread : p.simpleItem c t = some read)
    (items : List Token) :
    Consumes (fun c' more => c'.inOrder.Yields line (before ++ t :: more)) read items := by
  unfold simpleItem at hread
  split at hread
  · next op hop =>
    cases hread
    refine (consumes_redirection p hop items).map fun r more hr => ?_
    simpa [SimpleCommand.inOrder] using hc.redirection hr
  · next ht =>
    cases hread
    exact consumes_addWord p hc ht items
  · cases hread

theorem consumes_simpleCommand (P : Command → List Token → Prop) (t : Token) (items : List Token) :
    Consumes (fun c more => c.YieldsBy P (t :: more)) (p.simpleCommand t) items := by
  refine Consumes.bind (Q := fun c more => c.inOrder.Yields t.line (t :: more)) ?_
    fun c taken rest _ hc => ?_
  · have hnothing : (⟨[], none, [], [], t.line⟩ : SimpleCommand).inOrder.Yields t.line [] :=
      .nothing
    cases hitem : p.simpleItem ⟨[], none, [], [], t.line⟩ t with
    | none => exact consumes_unexpected p items
    | some read => exact consumes_simpleItem p hnothing hitem items
  · refine (Consumes.repeatFrom (I := fun c taken => c.inOrder.Yields t.line taken)
      (fun c before t' read items hc hread => ?_) hc rest).map fun c more hc => ?_
    · exact consumes_simpleItem p hc hread items
    · exact .simple hc

end

/-! ## Lists, statements and pipelines -/

/-- At the end of the tokens a pipeline is what the command of the inner level is. -/
theorem outcome_pipeline_nil (p : Parser) (negated : Bool) :
    (ofRest (p.pipeline negated)).outcome [] = (do
      let c ← p.innerCommand
      pure (⟨[c], negated⟩ : Pipeline)).outcome [] := by
  rw [outcome_bind, Along.innerCommand_eq]
  unfold outcome ofRest
  rw [Parser.pipeline]
  rcases p.lower.command p.lastLine [] with e | ⟨c, rest, hrest⟩ <;> rfl

section

variable {p : Parser} (h : p.lower.Reads P)
include h

theorem consumes_innerCommand (items : List Token) : Consumes P p.innerCommand items := by
  rw [Along.innerCommand_eq]
  exact h p.lastLine items

theorem consumes_stages (done : List Command) (items : List Token) :
    Consumes (fun done' taken => ∃ cs, done'.reverse = done.reverse ++ cs ∧
      Listed (Announced (fun t => t.kind = .pipe) (AfterLineEnds P)) cs taken)
      (p.stages done) items := by
  refine .listed (fun done t read items hread => ?_) done items
  split at hread
  · next hpipe =>
    cases hread
    refine (consumes_skipNewlines items).bind fun _ ends rest _ hends => ?_
    refine (consumes_innerCommand h rest).map fun c ts hc => ⟨c, rfl, ?_⟩
    exact .mk (eq_of_beq hpipe) (.mk hends hc)
  · cases hread

theorem consumes_pipeline (negated : Bool) (items : List Token) :
    Consumes (fun r taken => Pipeline.Yields P ⟨r.commands, r.negated ^^ negated⟩ taken)
      (ofRest (p.pipeline negated)) items := by
  induction items generalizing negated with
  | nil =>
    refine Consumes.congr ((consumes_innerCommand h []).map fun c ts hc => ?_)
      (outcome_pipeline_nil p negated)
    simpa using Pipeline.Yields.commands hc .nil
  | cons t items ih =>
    intro r rest hread
    rw [Along.outcome_pipeline] at hread
    split at hread
    · next hbang =>
      -- the pipeline behind the bang is read with the other sign, so the sign is generalized
      obtain ⟨taken, htaken, hr⟩ := ih (!negated) r rest hread
      refine ⟨t :: taken, by rw [List.cons_append, htaken], ?_⟩
      have hr' := Pipeline.Yields.negated (isWord_of_eq hbang) hr
      cases negated <;> simpa using hr'
    · -- without a bang the reader is a sequence, which takes tokens as a whole
      revert r rest hread
      refine (consumes_innerCommand h _).bind fun c ts rest _ hc => ?_
      refine (consumes_stages h [c] rest).map fun cs us hcs => ?_
      obtain ⟨more, hmore, hlisted⟩ := hcs
      rw [hmore]
      simpa using .commands hc hlisted

theorem consumes_nextPipeline (items : List Token) :
    Consumes (Pipeline.Yields P) (ofRest (p.pipeline false)) items := by
  refine (consumes_pipeline h false items).mono fun ⟨commands, negated⟩ taken hr => ?_
  rw [Bool.xor_false] at hr
  exact hr

theorem consumes_links (items : List Token) :
    Consumes (fun done taken => Listed (Link.Yields P) done.reverse taken) p.links items := by
  rw [Along.links_eq]
  refine .collected (fun done t read items hread => ?_) items
  obtain ⟨op, hop, rfl⟩ := Option.map_eq_some_iff.1 hread
  refine (consumes_skipNewlines items).bind fun _ ends rest _ hends => ?_
  refine (consumes_nextPipeline h rest).map fun r ts hr => ⟨(op, r), rfl, ?_⟩
  exact .mk (kind_of_connective? hop) (.mk hends hr)

theorem consumes_statement (items : List Token) :
    Consumes (Statement.Yields P) (ofRest p.statement) items := by
  unfold Consumes
  rw [Along.outcome_statement]
  refine (consumes_nextPipeline h items).bind fun first ts rest _ hfirst => ?_
  exact (consumes_links h rest).map fun links us hlinks => .mk hfirst hlinks

omit h in
/-- What comes after a statement: the tokens of the list go on after a separator. -/
theorem consumes_afterStatement {stops : List String} {s : Statement} {ends ts after : List Token}
    (hends : LineEnds ends) (hs : s.Yields P ts)
    (hmore : ∀ t rest, after = t :: rest →
      Consumes (Statements.Yields P) (Along.statementsFrom p stops []) rest)
    {list : List Statement} {rest : List Token}
    (hread : Along.afterStatement p stops [] (s, after) = .ok (list, rest)) :
    ∃ taken, taken ++ rest = ends ++ (ts ++ after) ∧ Statements.Yields P list taken := by
  cases after with
  | nil =>
    cases hread
    exact ⟨ends ++ ts, by simp, .last hends hs⟩
  | cons t after =>
    have hgo {background : Bool} (ht : Separates background t)
        (hread : (Along.statementsFrom p stops [{ s with background }]).outcome after =
          .ok (list, rest)) :
        ∃ taken, taken ++ rest = ends ++ (ts ++ t :: after) ∧ Statements.Yields P list taken := by
      rw [Along.outcome_statementsFrom] at hread
      rcases hlist : (Along.statementsFrom p stops []).outcome after with e | ⟨more, rest'⟩ <;>
        rw [hlist] at hread <;> cases hread
      obtain ⟨us, rfl, hus⟩ := hmore t after rfl more rest' hlist
      exact ⟨ends ++ (ts ++ t :: us), by simp, .cons hends hs ht hus⟩
    rw [Along.afterStatement] at hread
    split at hread
    · next hkind =>
      rw [← hs.foreground] at hread
      exact hgo (.foreground (by simpa using hkind)) hread
    split at hread
    · next hkind => exact hgo (.background (eq_of_beq hkind)) hread
    split at hread
    · cases hread
      exact ⟨ends ++ ts, by simp, .last hends hs⟩
    · cases hread

theorem consumes_statementList (stops : List String) (items : List Token) :
    Consumes (Statements.Yields P) (p.statementList stops) items := by
  induction hn : items.length using Nat.strongRecOn generalizing items with
  | ind n ih =>
    subst hn
    intro list rest hread
    change (Along.statementsFrom p stops []).outcome items = _ at hread
    rw [Along.outcome_statements] at hread
    dsimp only at hread
    obtain ⟨ends, hends, hitems⟩ : ∃ ends, LineEnds ends ∧
        ends ++ items.dropWhile (fun t => t.kind == .newline) = items :=
      ⟨_, fun t ht =>
        eq_of_beq (List.mem_takeWhile_imp (p := fun t : Token => t.kind == .newline) ht),
        List.takeWhile_append_dropWhile⟩
    generalize items.dropWhile (fun t => t.kind == .newline) = next at hread hitems
    subst hitems
    split at hread
    · cases hread
      exact ⟨ends, rfl, .none hends⟩
    rcases hstatement : (ofRest p.statement).outcome next with e | ⟨s, after⟩ <;>
      rw [hstatement] at hread
    · cases hread
    obtain ⟨ts, rfl, hs⟩ := consumes_statement h next s after hstatement
    -- the induction goes over the tokens that are left after the separator
    refine consumes_afterStatement hends hs (fun t rest hafter => ih rest.length ?_ rest rfl) hread
    simp only [hafter, List.length_append, List.length_cons]
    omega

theorem consumes_body (stops : List String) (items : List Token) :
    Consumes (Body.Yields P) (p.body stops) items := by
  refine (consumes_statementList h stops items).bind fun list taken rest _ hlist => ?_
  split
  · exact consumes_unexpected p rest
  · next hne =>
    refine .pure ⟨by simpa using hne, ?_⟩
    rw [List.append_nil]
    exact hlist

/-! ## Compound commands -/

theorem consumes_doGroup (items : List Token) :
    Consumes (LoopBody.Yields P) p.doGroup items := by
  refine (Consumes.skipWhile _).bind fun _ before rest _ hbefore => ?_
  refine (consumes_keyword p "do" rest).bind ?_
  rintro - _ rest - ⟨start, rfl, hstart⟩
  refine (consumes_body h ["done"] rest).bind fun list ts rest _ hlist => ?_
  refine (consumes_keyword p "done" rest).map ?_
  rintro - _ ⟨stop, rfl, hstop⟩
  exact .mk (fun t ht => by simpa using hbefore t ht) hstart hlist hstop

theorem consumes_clause (items : List Token) : Consumes (Clause.Yields P) p.clause items := by
  refine (consumes_body h ["then"] items).bind fun condition ts rest _ hcondition => ?_
  refine (consumes_keyword p "then" rest).bind ?_
  rintro - _ rest - ⟨t, rfl, ht⟩
  refine (consumes_body h ["elif", "else", "fi"] rest).map fun list us hlist => ?_
  exact .mk hcondition ht hlist

theorem consumes_clauses (first : Clause) (items : List Token) :
    Consumes (fun clauses taken => ∃ more, clauses = first :: more ∧
      Listed (Announced (Token.IsWord "elif") (Clause.Yields P)) more taken)
      (p.clauses first) items := by
  refine (Consumes.listed (fun done t read items hread => ?_) [first] items).map
    fun done taken hdone => hdone
  split at hread
  · next helif =>
    cases hread
    refine (consumes_clause h items).map fun clause ts hclause => ⟨clause, rfl, ?_⟩
    exact .mk (isWord_of_eq helif) hclause
  · cases hread

theorem consumes_ifElse {start : Token} (hstart : start.IsWord "if") (items : List Token) :
    Consumes (fun c more => c.Yields P (start :: more)) p.ifElse items := by
  refine (consumes_clause h items).bind fun first ts rest _ hfirst => ?_
  refine (consumes_clauses h first rest).bind ?_
  rintro _ us rest - ⟨more, rfl, hmore⟩
  refine consumes_optional (consumes_body h ["fi"]) (fun orElse vs rest horElse => ?_) rest
  refine (consumes_keyword p "fi" rest).map ?_
  rintro - _ ⟨stop, rfl, hstop⟩
  exact .ifElse hstart hfirst hmore horElse hstop

theorem consumes_conditionLoop (kind : LoopKind) {start : Token}
    (hstart : start.IsWord kind.keyword) (items : List Token) :
    Consumes (fun c more => c.Yields P (start :: more)) (p.conditionLoop kind) items := by
  refine (consumes_body h ["do"] items).bind fun condition ts rest _ hcondition => ?_
  refine (consumes_keyword p "do" rest).bind ?_
  rintro - _ rest - ⟨middle, rfl, hmiddle⟩
  refine (consumes_body h ["done"] rest).bind fun list us rest _ hlist => ?_
  refine (consumes_keyword p "done" rest).map ?_
  rintro - _ ⟨stop, rfl, hstop⟩
  exact .loop hstart hcondition hmiddle hlist hstop

theorem consumes_group {start : Token} (hstart : start.IsWord "\x7b") (items : List Token) :
    Consumes (fun c more => c.Yields P (start :: more)) p.group items := by
  refine (consumes_body h ["\x7d"] items).bind fun list ts rest _ hlist => ?_
  refine (consumes_keyword p "\x7d" rest).map ?_
  rintro - _ ⟨stop, rfl, hstop⟩
  exact .group hstart hlist hstop

theorem consumes_forEach {start name : Token} (hstart : start.IsWord "for")
    (hname : name.kind = .word) (hvalid : isValidName name.text) (items : List Token) :
    Consumes (fun c more => c.Yields P (start :: name :: more)) (do
      skipNewlines
      let words ← if ← keyword? "in" then some <$> p.wordList else pure none
      let list ← p.doGroup
      pure (Compound.forEach name.text words list)) items := by
  refine (consumes_skipNewlines items).bind fun _ ends rest _ hends => ?_
  refine consumes_optional (consumes_wordList p) (fun words ts rest hwords => ?_) rest
  refine (consumes_doGroup h rest).map fun list us hlist => ?_
  exact .forEach hstart hname hvalid hends hwords hlist

theorem consumes_forArithmetic {start sections : Token} {first second third : List Char}
    (hstart : start.IsWord "for") (hkind : sections.kind = .arithmetic)
    (hsplit : sections.text.toList.splitOn ';' = [first, second, third]) (items : List Token) :
    Consumes (fun c more => c.Yields P (start :: sections :: more)) (do
      let init ← p.section? first
      let condition ← p.section? second
      let update ← p.section? third
      let list ← p.doGroup
      pure (Compound.forArithmetic init condition update list)) items := by
  refine (consumes_section? p first items).bind ?_
  rintro init _ rest - ⟨rfl, hinit⟩
  refine (consumes_section? p second rest).bind ?_
  rintro condition _ rest - ⟨rfl, hcondition⟩
  refine (consumes_section? p third rest).bind ?_
  rintro update _ rest - ⟨rfl, hupdate⟩
  refine (consumes_doGroup h rest).map fun list us hlist => ?_
  exact .forArithmetic hstart hkind hsplit hinit hcondition hupdate hlist

theorem consumes_forLoop {start : Token} (hstart : start.IsWord "for") (items : List Token) :
    Consumes (fun c more => c.Yields P (start :: more)) p.forLoop items := by
  refine .peek ?_
  cases items with
  | nil => exact consumes_unexpected p []
  | cons t items =>
    dsimp only [List.head?_cons]
    split
    · -- the sections are those of the token ahead, which is the one that is taken
      refine (consumes_expect p .arithmetic (t :: items)).bind ?_
      rintro t' _ rest hrest ⟨rfl, hkind⟩
      obtain ⟨rfl, rfl⟩ := List.cons.inj hrest
      split
      · next hsplit => exact consumes_forArithmetic h hstart hkind hsplit rest
      · exact .fail
    · refine (consumes_expect p .word (t :: items)).bind ?_
      rintro name _ rest - ⟨rfl, hname⟩
      split
      · exact .fail
      · next hvalid => exact consumes_forEach h hstart hname (by simpa using hvalid) rest

theorem consumes_caseItem {first : Token} {paren : List Token}
    (hparen : paren.map Token.kind = [] ∨ paren.map Token.kind = [.openParen])
    (hfirst : first.kind = .word) (items : List Token) :
    Consumes (fun item more => item.Yields P (paren ++ first :: more)) (p.caseItem first.text)
      items := by
  refine (consumes_word p first.text items).bind ?_
  rintro w _ rest - ⟨rfl, hw⟩
  refine (consumes_patterns p w rest).bind ?_
  rintro _ us rest - ⟨more, rfl, hmore⟩
  refine (consumes_expect p .closeParen rest).bind ?_
  rintro close _ rest - ⟨rfl, hclose⟩
  refine (consumes_statementList h ["esac"] rest).bind fun list bs rest _ hlist => ?_
  refine Consumes.bind (Q := ClauseEnd.Yields) ?_ fun ending es rest _ hending => ?_
  · rintro how rest' hread
    rcases rest with - | ⟨⟨kind, text, line, descriptor, document⟩, rest⟩
    · cases hread
      exact ⟨[], rfl, .absent⟩
    · cases kind with
      | clauseEnd how =>
        cases hread
        exact ⟨[_], rfl, .token rfl⟩
      | _ =>
        cases hread
        exact ⟨[], rfl, .absent⟩
  · refine (consumes_skipNewlines rest).bind fun _ ends _ _ hends => .pure ?_
    have hitem := CaseItem.Yields.mk hparen (.token hfirst hw) hmore hclose hlist hending hends
    simpa using hitem

theorem consumes_caseItems (items : List Token) :
    Consumes (Listed (CaseItem.Yields P)) p.caseItems items := by
  refine (Consumes.collected (R := CaseItem.Yields P)
    (fun done t read items hread => ?_) items).bind ?_
  · split at hread
    · next ht =>
      split at hread
      · cases hread
      · cases hread
        have hparen : ([] : List Token).map Token.kind = [] := rfl
        refine (consumes_caseItem h (.inl hparen) (eq_of_beq ht) items).map ?_
        exact fun item more hitem => ⟨item, rfl, hitem⟩
    split at hread
    · next ht =>
      cases hread
      refine (consumes_expect p .word items).bind ?_
      rintro first _ rest - ⟨rfl, hfirst⟩
      have hparen : [t].map Token.kind = [.openParen] := by simpa using ht
      refine (consumes_caseItem h (.inr hparen) hfirst rest).map ?_
      exact fun item more hitem => ⟨item, rfl, hitem⟩
    · cases hread
      exact .fail
  · intro done taken rest _ hlist
    refine .peek ?_
    split
    · exact consumes_unexpected p rest
    · refine .pure ?_
      rw [List.append_nil]
      exact hlist

theorem consumes_caseOf {start : Token} (hstart : start.IsWord "case") (items : List Token) :
    Consumes (fun c more => c.Yields P (start :: more)) p.caseOf items := by
  refine (consumes_expect p .word items).bind ?_
  rintro subject _ rest - ⟨rfl, hsubject⟩
  refine (consumes_skipNewlines rest).bind fun _ ends rest _ hends => ?_
  refine (consumes_keyword p "in" rest).bind ?_
  rintro - _ rest - ⟨middle, rfl, hmiddle⟩
  refine (consumes_skipNewlines rest).bind fun _ ends' rest _ hends' => ?_
  refine (consumes_caseItems h rest).bind fun list ts rest _ hlist => ?_
  refine (consumes_keyword p "esac" rest).bind ?_
  rintro - _ rest - ⟨stop, rfl, hstop⟩
  refine (consumes_word p subject.text rest).map ?_
  rintro w _ ⟨rfl, hw⟩
  exact .case hstart (.token hsubject hw) hends hmiddle hends' hlist hstop

end

/-! ## Conditions -/

/-- The operand of `=~` ends before some tokens, inside so many parentheses. -/
def endsOperand (depth : Nat) : List Token → Bool
  | [] => true
  | t :: tokens => t.kind == .newline || depth == 0 &&
    (atWord "]]" (t :: tokens) || (connective? t).isSome || t.kind == .closeParen)

/-- How many parentheses of an operand are open after a token. -/
def openAfter (depth : Nat) (t : Token) : Nat :=
  match t.kind with
  | .openParen => depth + 1
  | .closeParen => depth - 1
  | _ => depth

theorem regexOperand_of_ends {depth : Nat} {t : Token} {tokens : List Token}
    (h : endsOperand depth (t :: tokens)) (raw : String) :
    regexOperand depth raw (t :: tokens) = (raw, t :: tokens) := by
  rw [regexOperand.eq_def]
  dsimp only
  split
  · rfl
  split
  · rfl
  · next hline hgo =>
    obtain ⟨rfl, hclose⟩ : depth = 0 ∧ t.kind = .closeParen := by
      simp_all [endsOperand]
    simp only [hclose]

theorem regexOperand_of_not_ends {depth : Nat} {t : Token} {tokens : List Token}
    (h : ¬ endsOperand depth (t :: tokens)) (raw : String) :
    regexOperand depth raw (t :: tokens) =
      regexOperand (openAfter depth t) (raw ++ t.operandText) tokens := by
  simp only [endsOperand, Bool.or_eq_true, Bool.and_eq_true, not_or] at h
  rw [regexOperand.eq_def]
  dsimp only
  rw [if_neg h.1, if_neg (by simp_all)]
  unfold openAfter Token.operandText
  cases hkind : t.kind with
  | closeParen =>
    cases depth with
    | zero => simp [hkind] at h
    | succ depth => rfl
  | arithmetic => simp only [String.append_assoc]
  | openParen => rfl
  | _ => simp only [String.append_assoc]

/-- What `=~` takes of some tokens, after the given text. -/
def OperandTaken (raw : String) (tokens : List Token) (found : String × List Token) : Prop :=
  ∃ taken, taken ++ found.2 = tokens ∧
    found.1 = raw ++ String.join (taken.map Token.operandText)

theorem OperandTaken.nothing {raw : String} {tokens : List Token} :
    OperandTaken raw tokens (raw, tokens) :=
  ⟨[], rfl, by simp⟩

theorem OperandTaken.cons {raw : String} {t : Token} {tokens : List Token}
    {found : String × List Token} (h : OperandTaken (raw ++ t.operandText) tokens found) :
    OperandTaken raw (t :: tokens) found := by
  obtain ⟨taken, rfl, hfound⟩ := h
  refine ⟨t :: taken, rfl, ?_⟩
  rw [hfound, List.map_cons, String.join_cons, String.append_assoc]

/-- **The operand of `=~`** is what its tokens add to it. -/
theorem regexOperand_taken (depth : Nat) (raw : String) (tokens : List Token) :
    OperandTaken raw tokens (regexOperand depth raw tokens) := by
  induction tokens generalizing depth raw with
  | nil => exact .nothing
  | cons t tokens ih =>
    by_cases h : endsOperand depth (t :: tokens)
    · rw [regexOperand_of_ends h]
      exact .nothing
    · rw [regexOperand_of_not_ends h]
      exact (ih _ _).cons

theorem consumes_operandWord (p : Parser) {t : Token} (ht : t.kind = .word) (items : List Token) :
    Consumes (fun words more => Operands.Yields words.reverse (t :: more)) (p.operandWord t)
      items := by
  refine (consumes_word p t.text items).bind ?_
  rintro w _ rest - ⟨rfl, hw⟩
  split
  · next hmatch =>
    refine Consumes.bind (Q := fun raw taken => raw = String.join (taken.map Token.operandText))
      ?_ fun raw taken rest' _ hraw => ?_
    · rintro raw rest' hread
      cases hread
      obtain ⟨taken, htaken, hraw⟩ := regexOperand_taken 0 "" rest
      exact ⟨taken, htaken, by simpa using hraw⟩
    · subst hraw
      have hregex {operand : Option Word}
          (hoperand : IsWordOf (String.join (taken.map Token.operandText)) operand) :=
        Operands.Yields.regex ⟨ht, eq_of_beq hmatch⟩ (.token ht hw) hoperand
      split
      · next hempty => exact .pure (by simpa using hregex (isWordOf_empty hempty))
      · next hne =>
        refine (consumes_word p _ rest').bind ?_
        rintro operand _ rest - ⟨rfl, hoperand⟩
        have hsome : IsWordOf (String.join (taken.map Token.operandText)) (some operand) := by
          simp [IsWordOf, hne, hoperand]
        exact .pure (by simpa using hregex hsome)
  · exact .pure (.word (.token ht hw))

theorem consumes_innerOperands (p : Parser) (done : List Word) (tokens items : List Token) :
    Consumes (fun words taken => taken = [] ∧
      words.reverse.map Word.raw = done.reverse.map Word.raw ++ tokens.map Token.text)
      (p.innerOperands done tokens) items := by
  induction tokens generalizing done items with
  | nil => exact .pure ⟨rfl, by simp⟩
  | cons t tokens ih =>
    have hnext {w : Word} (hw : w.raw = t.text) (items : List Token) :
        Consumes (fun words taken => taken = [] ∧ words.reverse.map Word.raw =
          done.reverse.map Word.raw ++ (t :: tokens).map Token.text)
          (p.innerOperands (w :: done) tokens) items :=
      (ih (w :: done) items).mono fun words taken hwords =>
        ⟨hwords.1, by simpa [hw] using hwords.2⟩
    unfold innerOperands
    dsimp only
    split
    · refine (consumes_word p t.text items).bind ?_
      rintro w _ rest - ⟨rfl, hw⟩
      exact hnext hw rest
    · exact .pure_bind (hnext rfl items)

theorem consumes_operands (p : Parser) (t : Token) (items : List Token) :
    Consumes (fun words more => Operands.Yields words.reverse (t :: more)) (p.operands t)
      items := by
  unfold operands
  split
  · next hkind => exact .pure (.lineEnd hkind)
  · next hkind => exact consumes_operandWord p hkind items
  · next hkind =>
    refine (consumes_lift p (fun stream hstream => hstream) items).bind ?_
    rintro stream _ rest - ⟨rfl, hstream⟩
    refine (consumes_innerOperands p [] stream.tokens rest).bind ?_
    rintro inner _ rest - ⟨rfl, hinner⟩
    have hwords := Operands.Yields.arithmetic hkind hstream hinner
    exact .pure (by simpa using hwords)
  · next hline hword harithmetic => exact .pure (.operator ⟨hline, hword, harithmetic⟩)

theorem consumes_test (p : Parser) (P : Command → List Token → Prop) {start : Token}
    (hstart : start.IsWord "[[") (items : List Token) :
    Consumes (fun c more => c.Yields P (start :: more)) (p.test start.line) items := by
  refine Consumes.bind (Q := fun words more => ∃ parts ts, ∃ stop : Token, words = parts.flatten ∧
    Listed Operands.Yields parts ts ∧ stop.IsWord "]]" ∧ more = ts ++ [stop]) ?_ ?_
  · have hnone : ∃ parts, ([] : List Word).reverse = parts.flatten ∧
        Listed Operands.Yields parts [] := ⟨[], rfl, .nil⟩
    refine (Consumes.repeatFrom (I := fun (done : List Word) taken =>
      ∃ parts, done.reverse = parts.flatten ∧ Listed Operands.Yields parts taken)
      (fun done before t read items hdone hread => ?_) hnone items).bind ?_
    · obtain ⟨parts, hparts, hlisted⟩ := hdone
      split at hread
      · cases hread
      · cases hread
        refine (consumes_operands p t items).map fun words more hwords => ?_
        exact ⟨parts ++ [words.reverse], by simp [hparts], hlisted.concat hwords⟩
    · rintro done taken rest - ⟨parts, hparts, hlisted⟩
      refine .peek ?_
      split
      · exact .fail
      · refine (consumes_keyword p "]]" rest).map ?_
        rintro - _ ⟨stop, rfl, hstop⟩
        exact ⟨parts, taken, stop, hparts, hlisted, hstop, rfl⟩
  · rintro _ _ rest - ⟨parts, ts, stop, rfl, hlisted, hstop, rfl⟩
    split
    · exact .fail
    · next hne =>
      refine .pure ?_
      rw [List.append_nil]
      exact .test hstart hlisted (by simpa using hne) hstop

/-! ## Commands -/

section

variable {p : Parser} (h : p.lower.Reads P)
include h

theorem consumes_functionRest (name : Token) (parens items : List Token) :
    Consumes (fun c more => Definition.Yields P name parens c (name :: (parens ++ more)))
      (Along.functionRest p name) items := by
  refine (consumes_skipNewlines items).bind fun _ ends rest _ hends => ?_
  refine (consumes_innerCommand h rest).bind fun c ts rest _ hc => ?_
  cases c with
  | compound body rs =>
    refine .pure ?_
    rw [List.append_nil]
    exact .mk hends hc
  | _ => exact .fail

theorem consumes_functionBody (name : Token) (items : List Token) :
    Consumes (fun c more => ∃ parens, Definition.Yields P name parens c (name :: more) ∧
      (EmptyParens parens ∨ parens = [] ∧ ∀ t ∈ items.head?, t.kind ≠ .openParen))
      (p.functionBody name) items := by
  refine .peek ?_
  have hrest (hno : ∀ t ∈ items.head?, t.kind ≠ .openParen) :
      Consumes (fun c more => ∃ parens, Definition.Yields P name parens c (name :: more) ∧
        (EmptyParens parens ∨ parens = [] ∧ ∀ t ∈ items.head?, t.kind ≠ .openParen))
        (Along.functionRest p name) items :=
    (consumes_functionRest h name [] items).mono fun c more hc => ⟨[], hc, .inr ⟨rfl, hno⟩⟩
  rcases items with - | ⟨⟨kind, text, line, descriptor, document⟩, items⟩
  · exact hrest (by simp)
  · cases kind with
    | openParen =>
      refine (consumes_expect p .openParen _).bind ?_
      rintro start _ rest - ⟨rfl, hstart⟩
      refine (consumes_expect p .closeParen rest).bind ?_
      rintro stop _ rest - ⟨rfl, hstop⟩
      refine (consumes_functionRest h name [start, stop] rest).mono fun c more hc => ?_
      exact ⟨[start, stop], hc, .inl (by simp [EmptyParens, hstart, hstop])⟩
    | _ => exact hrest (by simp)

omit h in
theorem consumes_withRedirections (p : Parser) {start : Token} {read : TokenReader Compound}
    {items : List Token} (hread : Consumes (fun c more => c.Yields P (start :: more)) read items) :
    Consumes (fun c more => Command.YieldsBy P c (start :: more)) (p.withRedirections read)
      items := by
  refine hread.bind fun c ts rest _ hc => ?_
  refine (consumes_redirections p rest).map fun rs us hrs => ?_
  exact .compound hc hrs

theorem consumes_keywordCommand? {t : Token} (ht : t.kind = .word) {read : TokenReader Command}
    (hread : p.keywordCommand? t = some read) (items : List Token) :
    Consumes (fun c more => Command.YieldsBy P c (t :: more)) read items := by
  unfold keywordCommand? at hread
  split at hread <;> cases hread
  case h_1 htext => exact consumes_withRedirections p (consumes_ifElse h ⟨ht, htext⟩ items)
  case h_2 htext => exact consumes_withRedirections p (consumes_forLoop h ⟨ht, htext⟩ items)
  case h_3 htext =>
    exact consumes_withRedirections p (consumes_conditionLoop h .whileTrue ⟨ht, htext⟩ items)
  case h_4 htext =>
    exact consumes_withRedirections p (consumes_conditionLoop h .untilTrue ⟨ht, htext⟩ items)
  case h_5 htext => exact consumes_withRedirections p (consumes_caseOf h ⟨ht, htext⟩ items)
  case h_6 htext => exact consumes_withRedirections p (consumes_group h ⟨ht, htext⟩ items)
  case h_7 htext => exact consumes_withRedirections p (consumes_test p P ⟨ht, htext⟩ items)
  case h_8 htext =>
    refine (consumes_expect p .word items).bind ?_
    rintro name _ rest - ⟨rfl, hname⟩
    refine (consumes_functionBody h name rest).mono ?_
    rintro c more ⟨parens, hc, hparens⟩
    exact .functionKeyword ⟨ht, htext⟩ hname (hparens.symm.imp_left And.left) hc

theorem consumes_commandAfter (t : Token) (items : List Token) :
    Consumes (fun c more => Command.YieldsBy P c (t :: more)) (p.commandAfter t items) items := by
  cases hkind : t.kind with
  | arithmetic =>
    simp only [commandAfter, hkind]
    refine consumes_withRedirections p ((consumes_expandedText p t.text items).map ?_)
    rintro expression _ ⟨rfl, hraw⟩
    exact .arithmetic hkind hraw
  | redirect op =>
    simp only [commandAfter, hkind]
    exact consumes_simpleCommand p P t items
  | word =>
    rw [Along.commandAfter_word hkind]
    cases hread : p.keywordCommand? t with
    | some read => exact consumes_keywordCommand? h hkind hread items
    | none =>
      dsimp only
      split
      · exact .fail
      split
      · next hparens =>
        refine (consumes_functionBody h t items).mono ?_
        rintro c more ⟨parens, hc, hparens' | ⟨-, hno⟩⟩
        · exact .function hkind hparens' hc
        · -- the parentheses that were seen ahead are there to be taken
          rw [atEmptyParens_of_head?_ne hno] at hparens
          cases hparens
      · exact consumes_simpleCommand p P t items
  | _ =>
    simp only [commandAfter, hkind]
    exact .fail

theorem consumes_command (items : List Token) :
    Consumes (Command.YieldsBy P) (ofRest p.command) items := by
  intro c rest hread
  cases items with
  | nil => cases hread
  | cons t items =>
    rw [Along.outcome_command] at hread
    obtain ⟨taken, htaken, hc⟩ := consumes_commandAfter h t items c rest hread
    exact ⟨t :: taken, by rw [List.cons_append, htaken], hc⟩

end

end Parser

/-! ## Loops -/

namespace Reader

variable {ε τ α σ : Type}

/-- What one turn of a loop comes to: the loop ends, or it goes on with the items that are left. -/
inductive Turn (ε τ σ α : Type) where
  | stop (found : Except ε (α × List τ))
  | next (s : σ) (rest : List τ)

/-- **A loop that ends after so many turns**, of which each but the last one leaves fewer items. -/
inductive EndsAfter (turn : σ → List τ → Turn ε τ σ α) :
    Nat → σ → List τ → Except ε (α × List τ) → Prop
  | stop {s : σ} {items : List τ} {found : Except ε (α × List τ)}
      (h : turn s items = .stop found) : EndsAfter turn 0 s items found
  | next {n : Nat} {s s' : σ} {items rest : List τ} {found : Except ε (α × List τ)}
      (h : turn s items = .next s' rest) (hless : rest.length < items.length)
      (hrest : EndsAfter turn n s' rest found) : EndsAfter turn (n + 1) s items found

/-- What a loop gives is what its turn comes to, which leaves fewer than so many items if the loop
goes on. -/
def Turn.LeadsTo (f : σ → List τ → Except ε (α × List τ)) (size : Nat)
    (result : Except ε (α × List τ)) : Turn ε τ σ α → Prop
  | .stop found => result = found
  | .next s rest => rest.length < size ∧ result = f s rest

theorem Turn.LeadsTo.mono {f : σ → List τ → Except ε (α × List τ)} {size size' : Nat}
    {result : Except ε (α × List τ)} {turn : Turn ε τ σ α} (h : turn.LeadsTo f size result)
    (hsize : size ≤ size') : turn.LeadsTo f size' result := by
  cases turn with
  | stop found => exact h
  | next s rest => exact ⟨Nat.lt_of_lt_of_le h.1 hsize, h.2⟩

/-- **Loops end** when every turn that goes on leaves fewer items. -/
theorem exists_endsAfter {turn : σ → List τ → Turn ε τ σ α}
    {f : σ → List τ → Except ε (α × List τ)}
    (hf : ∀ s items, (turn s items).LeadsTo f items.length (f s items)) (s : σ) (items : List τ) :
    ∃ n ≤ items.length, EndsAfter turn n s items (f s items) := by
  induction hn : items.length using Nat.strongRecOn generalizing s items with
  | ind n ih =>
    subst hn
    have hturn := hf s items
    cases h : turn s items with
    | stop found =>
      rw [h] at hturn
      exact ⟨0, Nat.zero_le _, .stop (h.trans (congrArg _ hturn.symm))⟩
    | next s' rest =>
      rw [h] at hturn
      obtain ⟨hless, hnext⟩ := hturn
      obtain ⟨n, hn, hrest⟩ := ih rest.length hless s' rest rfl
      exact ⟨n + 1, Nat.succ_le_of_lt (Nat.lt_of_le_of_lt hn hless), hnext ▸ .next h hless hrest⟩

/-- A turn of the loop over items takes the next item and what its reader takes. -/
def turn (step : σ → τ → Option (Reader ε τ σ)) (s : σ) : List τ → Turn ε τ σ σ
  | [] => .stop (.ok (s, []))
  | t :: items =>
    match step s t with
    | none => .stop (.ok (s, t :: items))
    | some read =>
      match read.outcome items with
      | .error e => .stop (.error e)
      | .ok (s', rest) => .next s' rest

theorem repeatFrom_ends (step : σ → τ → Option (Reader ε τ σ)) (s : σ) (items : List τ) :
    ∃ n ≤ items.length, EndsAfter (turn step) n s items ((repeatFrom s step).outcome items) := by
  refine exists_endsAfter (f := fun s => (repeatFrom s step).outcome) (fun s items => ?_) s items
  cases items with
  | nil => exact outcome_repeatFrom_nil step s
  | cons t items =>
    rw [outcome_repeatFrom_cons, turn]
    cases step s t with
    | none => rfl
    | some read =>
      dsimp only
      rcases hread : read.outcome items with e | ⟨s', rest⟩
      · rfl
      · exact ⟨Nat.lt_succ_of_le (outcome_length_le hread), rfl⟩

end Reader

namespace Parser

/-- The loop over statements goes on after a separator. -/
def turnAfter (p : Parser) (stops : List String) (done : List Statement) :
    Statement × List Token → Turn SyntaxError Token (List Statement) (List Statement)
  | (s, []) => .stop (.ok ((s :: done).reverse, []))
  | (s, t :: rest) =>
    if t.kind == .semicolon || t.kind == .newline then .next (s :: done) rest
    else if t.kind == .ampersand then .next ({ s with background := true } :: done) rest
    else if atListEnd stops (t :: rest) then .stop (.ok ((s :: done).reverse, t :: rest))
    else .stop (.error (p.unexpectedAt (t :: rest)))

/-- A turn of the loop over statements takes a statement and the separator after it. -/
def statementTurn (p : Parser) (stops : List String) (done : List Statement)
    (tokens : List Token) : Turn SyntaxError Token (List Statement) (List Statement) :=
  let next := tokens.dropWhile fun t => t.kind == .newline
  if atListEnd stops next then .stop (.ok (done.reverse, next))
  else
    match (ofRest p.statement).outcome next with
    | .error e => .stop (.error e)
    | .ok found => p.turnAfter stops done found

theorem turnAfter_leadsTo (p : Parser) (stops : List String) (done : List Statement)
    (found : Statement × List Token) : (p.turnAfter stops done found).LeadsTo
      (fun done => (Along.statementsFrom p stops done).outcome) found.2.length
      (Along.afterStatement p stops done found) := by
  obtain ⟨s, - | ⟨t, rest⟩⟩ := found
  · rfl
  · rw [turnAfter, Along.afterStatement]
    split
    · exact ⟨Nat.lt_succ_self _, rfl⟩
    split
    · exact ⟨Nat.lt_succ_self _, rfl⟩
    split <;> rfl

theorem statements_ends (p : Parser) (stops : List String) (done : List Statement)
    (tokens : List Token) : ∃ n ≤ tokens.length, EndsAfter (p.statementTurn stops) n done tokens
      ((Along.statementsFrom p stops done).outcome tokens) := by
  refine exists_endsAfter (f := fun done => (Along.statementsFrom p stops done).outcome)
    (fun done tokens => ?_) done tokens
  have hle := (tokens.dropWhile_sublist fun t => t.kind == .newline).length_le
  rw [Along.outcome_statements, statementTurn]
  dsimp only
  split
  · rfl
  · rcases hs : (ofRest p.statement).outcome (tokens.dropWhile fun t => t.kind == .newline) with
      e | found
    · rfl
    · exact (turnAfter_leadsTo p stops done found).mono (Nat.le_trans (outcome_length_le hs) hle)

/-- A turn of the loop over the operand of `=~` takes one token. -/
def operandTurn (inside : Nat × String) :
    List Token → Turn SyntaxError Token (Nat × String) String
  | [] => .stop (.ok (inside.2, []))
  | t :: tokens =>
    if endsOperand inside.1 (t :: tokens) then .stop (.ok (inside.2, t :: tokens))
    else .next (openAfter inside.1 t, inside.2 ++ t.operandText) tokens

theorem regexOperand_ends (depth : Nat) (raw : String) (tokens : List Token) :
    ∃ n ≤ tokens.length, EndsAfter operandTurn n (depth, raw) tokens
      (.ok (regexOperand depth raw tokens)) := by
  refine exists_endsAfter (f := fun inside tokens => .ok (regexOperand inside.1 inside.2 tokens))
    (fun inside tokens => ?_) (depth, raw) tokens
  obtain ⟨depth, raw⟩ := inside
  cases tokens with
  | nil => rfl
  | cons t tokens =>
    rw [operandTurn]
    split
    · next hends => exact congrArg Except.ok (regexOperand_of_ends hends raw)
    · next hgo => exact ⟨Nat.lt_succ_self _, congrArg Except.ok (regexOperand_of_not_ends hgo raw)⟩

end Parser

/-! ## The main statement -/

/-- **A level reads commands from their tokens**, and they nest no deeper than the level. -/
theorem Level.reads_ofDepth (depth : Nat) :
    (Level.ofDepth depth).Reads (Command.YieldsWithin depth) := by
  induction depth with
  | zero =>
    intro lastLine items c rest hread
    cases hread
  | succ depth ih => exact fun lastLine items => Parser.consumes_command ih items

/-- **A parser makes progress**: what it gives is read from tokens that it takes off the front. Each
of them has one place there, and a command, a pipeline, a statement and what follows the operator of
a redirection have one token at least. -/
structure Parser.MakesProgress (P : Command → List Token → Prop) (p : Parser) : Prop where
  command (tokens : List Token) :
    Consumes (fun c taken => taken ≠ [] ∧ c.YieldsBy P taken) (ofRest p.command) tokens
  pipeline (tokens : List Token) :
    Consumes (fun r taken => taken ≠ [] ∧ r.Yields P taken) (ofRest (p.pipeline false)) tokens
  statement (tokens : List Token) :
    Consumes (fun s taken => taken ≠ [] ∧ s.Yields P taken) (ofRest p.statement) tokens
  redirection {operator : Token} {op : RedirectOp} (hop : operator.kind = .redirect op)
    (tokens : List Token) : Consumes (fun r taken => taken ≠ [] ∧ r.Yields (operator :: taken))
      (p.redirection operator op) tokens
  statements (stops : List String) (tokens : List Token) :
    Consumes (Statements.Yields P) (p.statementList stops) tokens

/-- **The loops of a parser end** after at most as many turns as there are tokens: the one over
statements, the one over the operand of `=~`, and all that are loops over items, such as those over
the clauses of a `case`, the operands of a test and the words of a `for`. -/
structure Parser.LoopsEnd (p : Parser) : Prop where
  statements (stops : List String) (tokens : List Token) : ∃ n ≤ tokens.length,
    EndsAfter (p.statementTurn stops) n [] tokens ((p.statementList stops).outcome tokens)
  operand (tokens : List Token) : ∃ n ≤ tokens.length,
    EndsAfter operandTurn n (0, "") tokens (.ok (regexOperand 0 "" tokens))
  items {σ : Type} (step : σ → Token → Option (TokenReader σ)) (s : σ) (tokens : List Token) :
    ∃ n ≤ tokens.length, EndsAfter (turn step) n s tokens ((repeatFrom s step).outcome tokens)

theorem Parser.makesProgress {p : Parser} {P : Command → List Token → Prop}
    (hP : ∀ c ts, P c ts → ts ≠ []) (h : p.lower.Reads P) : p.MakesProgress P where
  command tokens := (consumes_command h tokens).mono fun _ _ hc => ⟨hc.ne_nil, hc⟩
  pipeline tokens := (consumes_nextPipeline h tokens).mono fun _ _ hr => ⟨hr.ne_nil hP, hr⟩
  statement tokens := (consumes_statement h tokens).mono fun _ _ hs => ⟨hs.ne_nil hP, hs⟩
  redirection hop tokens := (consumes_redirection p hop tokens).mono fun _ _ hr => ⟨hr.ne_nil, hr⟩
  statements stops tokens := consumes_statementList h stops tokens

/-- **The parser always makes progress.** Whatever the tokens are, every part of a script is read
from tokens that come next, and the loops end. A script that is read has used up all tokens of its
text, each of them once. -/
theorem Level.makesProgress_ofDepth (depth : Nat) :
    (∀ lastLine, Parser.MakesProgress (Command.YieldsWithin depth) ⟨.ofDepth depth, lastLine⟩) ∧
      (∀ lastLine, Parser.LoopsEnd ⟨.ofDepth depth, lastLine⟩) ∧
      ∀ text script, (ofDepth depth).script text = .ok script →
        ∃ stream, TokenStream.ofText text = .ok stream ∧
          Statements.Yields (Command.YieldsWithin depth) script.statements stream.tokens := by
  have hread : (ofDepth depth).Reads (Command.YieldsWithin depth) := reads_ofDepth depth
  refine ⟨fun lastLine => ?_, fun lastLine => ?_, fun text script hscript => ?_⟩
  · exact Parser.makesProgress (fun _ _ => Command.YieldsWithin.ne_nil) hread
  · exact ⟨fun stops tokens => Parser.statements_ends _ stops [] tokens,
      Parser.regexOperand_ends 0 "", repeatFrom_ends⟩
  · obtain ⟨-, stream, hstream, -, hlist⟩ := Along.script_eq_ok_iff.1 hscript
    obtain ⟨taken, htaken, hyields⟩ := Parser.consumes_statementList
      (p := ⟨.ofDepth depth, stream.lastLine⟩) hread [] stream.tokens _ _ hlist
    rw [List.append_nil] at htaken
    exact ⟨stream, hstream, htaken ▸ hyields⟩

/-- A loop whose condition is negated, with a test and a redirection in the background. -/
theorem Level.makesProgress_ofDepth_loop :
    let text := "while ! a; do [[ =~ (c) ]] >f & done"
    ∃ script stream, Script.parse text = .ok script ∧ TokenStream.ofText text = .ok stream ∧
      Statements.Yields (Command.YieldsWithin maxNesting) script.statements stream.tokens := by
  intro text
  have hok : (Script.parse text).isOk = true := by decide +kernel
  cases hscript : Script.parse text with
  | error e =>
    rw [hscript] at hok
    cases hok
  | ok script =>
    obtain ⟨stream, hstream, hyields⟩ :=
      (Level.makesProgress_ofDepth maxNesting).2.2 text script hscript
    exact ⟨script, stream, rfl, hstream, hyields⟩

end VirtualShell
