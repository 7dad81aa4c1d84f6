import VirtualShell.Proofs.Reading.SourceCommand
import VirtualShell.Proofs.Reading.SourceTokens

/-!
# Tests between double brackets

Between double brackets `=~` takes all that comes after it up to the closing brackets: the operand is
put together again from the tokens that the lexer made of it. So what a test is read as follows from
what the lexer does with the operand alone.

Any other test lists its words in order: the operands that are written there and, as literal texts,
the operators between them. With a blank after each of them the whole text is read as one command
that holds these words.

* `Parser.regexOperand_bare` — only the kinds, the texts and the descriptors of tokens are asked for.
* `Parser.outcome_test_regex` — the tokens of a test are read as three words.
* `Scanner.Yields`, `Scanner.Refuses` — what the lexer does with an operand.
* **`Script.parse_regexTest`** — then the text of the test is read as a script of one command.
* `Word.InTest` — the words of other tests.
* `Parser.outcome_testOperands` — the tokens of such a test are read as its words.
* **`Script.parse_test`** — the text of the test is read as a script of one command.
-/

namespace VirtualShell

open Reader

/-! ## Tokens -/

/-- A token without its line and its here-document. -/
def Token.bare (t : Token) : Token := { t with line := 0, hereDocument := none }

@[simp] theorem Token.bare_kind (t : Token) : t.bare.kind = t.kind := rfl

@[simp] theorem Token.bare_text (t : Token) : t.bare.text = t.text := rfl

@[simp] theorem Token.bare_descriptor (t : Token) : t.bare.descriptor = t.descriptor := rfl

/-- A token of which only a text is left was a word. -/
theorem Token.word_of_bare {t : Token} {text : String} (h : t.bare = .ofWord 0 text) :
    t.kind = .word ∧ t.text = text :=
  ⟨congrArg Token.kind h, congrArg Token.text h⟩

/-! ## Words without quotes -/

theorem isPlainWord_match : IsPlainWord "=~" :=
  ⟨by decide, by decide, by simp [isMetacharacter, Delimiter.marks]⟩

/-- A text without quotes, backslashes and dollar signs is cut into its characters. -/
theorem Piece.cut_of_unmarked {text : List Char} (h : ∀ c ∈ text, c ∉ Delimiter.marks) :
    cut .unquoted text = text.map plain := by
  induction text with
  | nil => simp [cut]
  | cons c text ih =>
    obtain ⟨hc, htext⟩ := List.forall_mem_cons.1 h
    simp only [Delimiter.marks, List.mem_cons, List.not_mem_nil, or_false, not_or] at hc
    have htake : take .unquoted c text = (plain c, text) := by simp [take, hc]
    rw [cut_cons hc.1, htake, ih htext, List.map_cons]

namespace Level

theorem assemble_plain (l : Level) (done : List Part) (plain text : List Char) :
    l.assemble done plain (text.map .plain) = .ok (flush (text.reverse ++ plain) done).reverse := by
  induction text generalizing plain with
  | nil => rfl
  | cons c text ih => simpa [assemble] using ih (c :: plain)

/-- It is read as one piece of plain text. -/
theorem partsOf_unmarked (l : Level) {text : List Char} (h : ∀ c ∈ text, c ∉ Delimiter.marks)
    (hne : text ≠ []) (htilde : text.head? ≠ some '~') :
    l.partsOf .unquoted text = .ok [.literal (String.ofList text)] := by
  have hno : takeTilde text = none := by
    unfold takeTilde
    split
    · exact absurd rfl htilde
    · rfl
  rw [partsOf_eq_assemble, Piece.ofText, if_pos (by rfl), hno]
  dsimp only
  rw [Piece.cut_of_unmarked h, assemble_plain]
  simp [flush, hne]

/-- At the start there may be a home directory, so in any case it is read. -/
theorem exists_partsOf_unmarked (l : Level) {text : List Char}
    (h : ∀ c ∈ text, c ∉ Delimiter.marks) : ∃ parts, l.partsOf .unquoted text = .ok parts := by
  rw [partsOf_eq_assemble, Piece.ofText, if_pos (by rfl)]
  split
  · next user rest htilde =>
    rw [Piece.cut_of_unmarked fun c hc => h c ((takeTilde_suffix htilde).subset hc)]
    exact ⟨_, l.assemble_plain _ _ _⟩
  · rw [Piece.cut_of_unmarked h]
    exact ⟨_, l.assemble_plain _ _ _⟩

end Level

namespace Parser

/-- The operand of `=~` is made of what bare tokens have. -/
theorem regexOperand_bare (depth : Nat) (raw : String) (tokens : List Token) :
    regexOperand depth raw (tokens.map Token.bare) =
      ((regexOperand depth raw tokens).1, (regexOperand depth raw tokens).2.map Token.bare) := by
  fun_induction regexOperand depth raw tokens with
  | case1 => rfl
  | case2 depth raw t tokens hline => simp [regexOperand, hline]
  | case8 depth raw t tokens hline hgo fd hopen hclose harithmetic ih =>
    rw [List.map_cons, regexOperand.eq_def]
    refine (if_neg hline).trans ((if_neg hgo).trans ?_)
    split
    · next hkind => exact absurd hkind hopen
    · next hkind => exact absurd hkind hclose
    · next hkind => exact absurd hkind harithmetic
    · exact ih
  | _ => simp_all [regexOperand, atWord, connective?]

/-! ## Reading a test -/

theorem outcome_word (p : Parser) {text : String} {parts : List Part}
    (h : p.lower.parts .unquoted text.toList = .ok parts) (tokens : List Token) :
    (p.word text).outcome tokens = .ok (⟨parts, text⟩, tokens) := by
  rw [Parser.word, h]
  rfl

variable {p : Parser} {t : Token} {parts : List Part} {tokens rest : List Token}

/-- A word that is no `=~` is an operand. -/
theorem outcome_operands_word (hkind : t.kind = .word) (hmatch : t.text ≠ "=~")
    (hparts : p.lower.parts .unquoted t.text.toList = .ok parts) :
    (p.operands t).outcome tokens = .ok ([⟨parts, t.text⟩], tokens) := by
  rw [operands, hkind]
  refine (outcome_bind_ok (outcome_word p hparts tokens)).trans ?_
  rw [if_neg (by simpa using hmatch)]
  rfl

/-- After `=~` comes the operand that is put together again. -/
theorem outcome_operands_match {raw : String} (ht : t.kind = .word ∧ t.text = "=~")
    (hmatch : p.lower.parts .unquoted "=~".toList = .ok [.literal "=~"]) (hraw : raw ≠ "")
    (hparts : p.lower.parts .unquoted raw.toList = .ok parts)
    (hoperand : regexOperand 0 "" tokens = (raw, rest)) :
    (p.operands t).outcome tokens = .ok ([⟨parts, raw⟩, .ofLiteral "=~"], rest) := by
  have hread : outcome (fun tokens => .ok ((regexOperand 0 "" tokens).1,
      ⟨_, regexOperand_length_le 0 "" tokens⟩) : TokenReader String) tokens = .ok (raw, rest) := by
    change Except.ok ((regexOperand 0 "" tokens).1, (regexOperand 0 "" tokens).2) = _
    rw [hoperand]
  rw [operands, ht.1]
  refine (outcome_bind_ok (outcome_word p (ht.2 ▸ hmatch) tokens)).trans ?_
  rw [if_pos (by simp [ht.2])]
  refine (outcome_bind_ok hread).trans ?_
  rw [if_neg (by simpa using hraw)]
  refine (outcome_bind_ok (outcome_word p hparts rest)).trans ?_
  rw [ht.2]
  rfl

/-- **A list of statements that is one command**, which starts with a word. -/
theorem outcome_statementList_command {c : Command} (hkind : t.kind = .word) (hnot : t.text ≠ "!")
    (hcommand : (ofRest (p.lower.command p.lastLine)).outcome (t :: tokens) = .ok (c, [])) :
    (p.statementList []).outcome (t :: tokens) = .ok ([⟨⟨[c], false⟩, [], false⟩], []) := by
  have hinner : p.innerCommand.outcome (t :: tokens) = .ok (c, []) := by
    rw [Along.innerCommand_eq]
    exact hcommand
  have hstages : (p.stages [c]).outcome [] = .ok ([c], []) := outcome_repeatFrom_nil _ _
  have hpipeline : (ofRest (p.pipeline false)).outcome (t :: tokens) = .ok (⟨[c], false⟩, []) := by
    rw [Along.outcome_pipeline, if_neg (by simp [hnot]), outcome_bind_ok hinner,
      outcome_bind_ok hstages]
    rfl
  have hlinks : p.links.outcome [] = .ok ([], []) := outcome_repeatFrom_nil _ _
  have hstatement : (ofRest p.statement).outcome (t :: tokens) =
      .ok (⟨⟨[c], false⟩, [], false⟩, []) := by
    rw [Along.outcome_statement, outcome_bind_ok hpipeline, outcome_bind_ok hlinks]
    rfl
  have hline : (t :: tokens).dropWhile (fun t => t.kind == .newline) = t :: tokens :=
    dropWhile_newline (by simp [hkind])
  have hend : atListEnd [] (t :: tokens) = false := by simp [atListEnd, hkind]
  refine (Along.outcome_statements p [] [] (t :: tokens)).trans ?_
  dsimp only
  rw [hline, hend, if_neg (by exact Bool.false_ne_true), hstatement]
  rfl

/-- **The words of a test** are read up to the end of the text, after the brackets that open it. -/
theorem outcome_command_test {l : Level} {lastLine : Nat} {words : List Word}
    (hopening : t.kind = .word ∧ t.text = "[[") (hne : words ≠ [])
    (hwords : (testOperands ⟨l, lastLine⟩ t.line).outcome tokens = .ok (words, [])) :
    (ofRest (command ⟨l, lastLine⟩)).outcome (t :: tokens) =
      .ok (.compound (.test words) [], []) := by
  have hkeyword : keywordCommand? ⟨l, lastLine⟩ t =
      some (withRedirections ⟨l, lastLine⟩ (test ⟨l, lastLine⟩ t.line)) := by
    rw [keywordCommand?, hopening.2]
    rfl
  have hread : (test ⟨l, lastLine⟩ t.line).outcome tokens = .ok (.test words, []) := by
    refine (outcome_bind_ok hwords).trans ?_
    rw [if_neg (by simpa using hne)]
    rfl
  have hredirections : (redirections ⟨l, lastLine⟩).outcome [] = .ok ([], []) :=
    outcome_bind_ok (outcome_repeatFrom_nil _ _)
  rw [Along.outcome_command, Along.commandAfter_word hopening.1, hkeyword]
  exact (outcome_bind_ok hread).trans (outcome_bind_ok hredirections)

/-- The closing brackets end the words of a test. -/
theorem outcome_closing (hclosing : t.kind = .word ∧ t.text = "]]") :
    (keyword p "]]").outcome [t] = .ok ((), []) := by
  simp [outcome, keyword, hclosing.1, hclosing.2, Except.map]

/-- The words of a test against a regular expression. -/
def regexWords (left operand : Word) : List Word := [left, .ofLiteral "=~", operand]

/-- **The tokens of a test against a regular expression** are read as its three words. -/
theorem outcome_test_regex {l : Level} (lastLine : Nat) {left raw : String}
    {leftParts parts : List Part} (hclose : left ≠ "]]") (hleft : left ≠ "=~")
    (hleftParts : l.parts .unquoted left.toList = .ok leftParts)
    (hmatch : l.parts .unquoted "=~".toList = .ok [.literal "=~"]) (hraw : raw ≠ "")
    (hparts : l.parts .unquoted raw.toList = .ok parts)
    (htokens : tokens.map Token.bare = .ofWord 0 "[[" :: .ofWord 0 left :: .ofWord 0 "=~" :: rest)
    (hoperand : regexOperand 0 "" rest = (raw, [.ofWord 0 "]]"])) :
    (ofRest (command ⟨l, lastLine⟩)).outcome tokens =
      .ok (.compound (.test (regexWords ⟨leftParts, left⟩ ⟨parts, raw⟩)) [], []) := by
  -- the tokens themselves, and what is left of them after the operand
  obtain ⟨opening, tokens, rfl, hopening, htokens⟩ := List.map_eq_cons_iff.1 htokens
  obtain ⟨first, tokens, rfl, hfirst, htokens⟩ := List.map_eq_cons_iff.1 htokens
  obtain ⟨operator, tokens, rfl, hoperator, rfl⟩ := List.map_eq_cons_iff.1 htokens
  rw [regexOperand_bare, Prod.mk.injEq] at hoperand
  obtain ⟨closing, nothing, hlater, hclosing, hnothing⟩ := List.map_eq_cons_iff.1 hoperand.2
  obtain rfl := List.map_eq_nil_iff.1 hnothing
  have hoperand : regexOperand 0 "" tokens = (raw, [closing]) := Prod.ext hoperand.1 hlater
  have hopening := Token.word_of_bare hopening
  have hfirst := Token.word_of_bare hfirst
  have hclosing := Token.word_of_bare hclosing
  have hwords : (testOperands ⟨l, lastLine⟩ opening.line).outcome (first :: operator :: tokens) =
      .ok (regexWords ⟨leftParts, left⟩ ⟨parts, raw⟩, []) := by
    have hoperands (t : Token) (ht : t.text ≠ "]]") :
        ¬ (t.kind == .word && t.text == "]]") = true := by simp [ht]
    have hoperator := Token.word_of_bare hoperator
    refine (outcome_bind_ok ((outcome_repeatFrom_turn
      (if_neg (hoperands first (hfirst.2 ▸ hclose))) (outcome_map_ok (· ++ [])
        (outcome_operands_word hfirst.1 (hfirst.2 ▸ hleft) (hfirst.2 ▸ hleftParts)))).trans
      ((outcome_repeatFrom_turn (if_neg (hoperands operator (by simp [hoperator.2])))
        (outcome_map_ok (· ++ _) (outcome_operands_match hoperator hmatch hraw hparts
          hoperand))).trans (outcome_repeatFrom_stop ?_)))).trans ?_
    · rintro t ⟨⟩
      exact if_pos (by simp [hclosing.1, hclosing.2])
    · refine (outcome_bind_ok (outcome_peek _ _)).trans ?_
      refine (outcome_bind_ok (outcome_closing hclosing)).trans ?_
      rw [hfirst.2]
      rfl
  exact outcome_command_test hopening nofun hwords

end Parser

/-! ## Taking a test off the text -/

namespace Scanner

/-- **A run goes on** from one scanner to another one, and adds some tokens. Bare ones are given. -/
structure Goes (s : Scanner) (tokens : List Token) (next : Scanner) : Prop where
  run : s.run = next.run
  bodies : next.bodies = s.bodies
  tokens : next.tokens.map Token.bare = tokens.reverse ++ s.tokens.map Token.bare

theorem Goes.refl (s : Scanner) : s.Goes [] s := ⟨rfl, rfl, rfl⟩

theorem Goes.trans {s next last : Scanner} {tokens more : List Token} (h : s.Goes tokens next)
    (hmore : next.Goes more last) : s.Goes (tokens ++ more) last where
  run := h.run.trans hmore.run
  bodies := hmore.bodies.trans h.bodies
  tokens := by simp [hmore.tokens, h.tokens]

/-- **A text is read** up to a part that is left, and some tokens are added. -/
def Reads (s : Scanner) (tokens : List Token) (rest : List Char) : Prop :=
  ∃ next : Scanner, s.Goes tokens next ∧ next.rest = rest

theorem Reads.trans {s : Scanner} {tokens more : List Token} {rest last : List Char}
    (h : s.Reads tokens rest) (hmore : ∀ next : Scanner, next.rest = rest → next.Reads more last) :
    s.Reads (tokens ++ more) last := by
  obtain ⟨next, hgoes, hrest⟩ := h
  obtain ⟨final, hlater, hlast⟩ := hmore next hrest
  exact ⟨final, hgoes.trans hlater, hlast⟩

/-- **What a text is to the lexer** when a blank follows: some tokens. -/
def Yields (text : List Char) (tokens : List Token) : Prop :=
  ∀ (s : Scanner) (more : List Char), s.rest = text ++ ' ' :: more → s.Reads tokens (' ' :: more)

/-- A text at which the lexer fails when a blank follows. -/
def Refuses (text : List Char) (e : SyntaxError) : Prop :=
  ∀ (s : Scanner) (more : List Char), s.rest = text ++ ' ' :: more → s.run = .error e

theorem noteDelimiter_bare (s : Scanner) (word : List Char) :
    (s.noteDelimiter word).tokens.map Token.bare = s.tokens.map Token.bare ∧
      (s.noteDelimiter word).bodies = s.bodies := by
  unfold noteDelimiter
  split
  · next htokens =>
    split
    · exact ⟨by rw [htokens]; rfl, rfl⟩
    · exact ⟨rfl, rfl⟩
  · exact ⟨rfl, rfl⟩

/-- The brackets that end the text are the last token. -/
theorem run_brackets {s : Scanner} (hs : s.rest = "]]".toList) : ∃ last : Scanner,
    s.run = .ok last ∧ last.bodies = s.bodies ∧
      last.tokens.map Token.bare = .ofWord 0 "]]" :: s.tokens.map Token.bare := by
  obtain ⟨rest, line, tokens, pending, bodies⟩ := s
  obtain rfl : rest = [']', ']'] := hs
  obtain ⟨hbare, hbodies⟩ := noteDelimiter_bare ⟨[']', ']'], line, tokens, pending, bodies⟩ [']', ']']
  have hscan : Delimiter.scan isMetacharacter [] [] [']', ']'] = .ok ([']', ']'], []) := rfl
  have hdigit : Text.isDigit ']' = false := Text.isDigit_of_ascii (by decide)
  have hstep : step ⟨[']', ']'], line, tokens, pending, bodies⟩ ']' [']'] = _ :=
    step_word _ rfl hdigit (by decide) (by decide)
  rw [readWord_of_scan [']', ']'] [] hscan] at hstep
  exact ⟨_, (run_of_step rfl hstep).trans (run_of_nil rfl), hbodies,
    congrArg (Token.ofWord 0 "]]" :: ·) hbare⟩

/-- There may be a blank before them. -/
theorem run_closing {s : Scanner} (hs : s.rest = " ]]".toList) : ∃ last : Scanner,
    s.run = .ok last ∧ last.bodies = s.bodies ∧
      last.tokens.map Token.bare = .ofWord 0 "]]" :: s.tokens.map Token.bare := by
  obtain ⟨last, hrun, hlast⟩ := run_brackets (s := { s with rest := "]]".toList }) rfl
  exact ⟨last, (run_blank hs).trans hrun, hlast⟩

/-- **Tokens with a blank after each** are taken off the text. -/
theorem goes_tokens {tokens : List Token} (h : ∀ t ∈ tokens, t.InSource) {s : Scanner}
    (hs : s.Quiet) {more : List Char} (hrest : s.rest = tokens.flatMap Token.source ++ more) :
    ∃ next : Scanner, s.Goes (tokens.map Token.bare) next ∧ next.rest = more := by
  induction tokens generalizing s with
  | nil => exact ⟨s, .refl s, hrest⟩
  | cons t tokens ih =>
    obtain ⟨ht, htokens⟩ := List.forall_mem_cons.1 h
    have hsource : s.rest = t.source ++ (tokens.flatMap Token.source ++ more) := by
      rw [hrest, List.flatMap_cons, List.append_assoc]
    obtain ⟨line, hrun⟩ := run_token ht hs hsource
    obtain ⟨next, hgoes, hnext⟩ := ih (s := { s with
      rest := tokens.flatMap Token.source ++ more, line := line
      tokens := { t with line := s.line } :: s.tokens }) htokens
      ⟨hs.pending, by simpa using ht.quiet⟩ rfl
    have hfirst : s.Goes [t.bare] { s with
        rest := tokens.flatMap Token.source ++ more, line := line
        tokens := { t with line := s.line } :: s.tokens } := ⟨hrun, rfl, rfl⟩
    exact ⟨next, hfirst.trans hgoes, hnext⟩

/-- What stands before the operand of a test. -/
theorem reads_left {left : String} (hleft : IsWordText left.toList) (operand : String) :
    (start ("[[ " ++ left ++ " =~ " ++ operand ++ " ]]")).Reads
      [.ofWord 0 "[[", .ofWord 0 left, .ofWord 0 "=~"] (operand.toList ++ " ]]".toList) := by
  have hbrackets : IsPlainWord "[[" := isPlainWord_of_mem_keywords (by decide)
  have htokens : ∀ t ∈ [Token.ofWord 0 "[[", .ofWord 0 left, .ofWord 0 "=~"], t.InSource := by
    simp only [List.forall_mem_cons, List.not_mem_nil, false_imp_iff, implies_true, and_true]
    exact ⟨.word 0 hbrackets.isWordText, .word 0 hleft, .word 0 isPlainWord_match.isWordText⟩
  exact goes_tokens htokens ⟨rfl, by rintro t ⟨⟩⟩ (by simp [start, Token.source, Token.ofWord])

end Scanner

namespace TokenStream

/-- The tokens of a text are those that were read up to its last token, and that one. -/
theorem ofText_of_goes {text : String} {tokens : List Token} {closing : Token} {next : Scanner}
    (hgoes : (Scanner.start text).Goes tokens next) (hclosing : ∃ last : Scanner,
      next.run = .ok last ∧ last.bodies = next.bodies ∧
        last.tokens.map Token.bare = closing :: next.tokens.map Token.bare) :
    ∃ stream, ofText text = .ok stream ∧ stream.tokens.map Token.bare = tokens ++ [closing] := by
  obtain ⟨hrun, hbodies, htokens⟩ := hgoes
  obtain ⟨last, hclosing, hlastBodies, hlast⟩ := hclosing
  refine ⟨_, ofText_eq_ok_iff.2 ⟨last, hrun.trans hclosing, rfl⟩, ?_⟩
  rw [hlastBodies, hbodies]
  change (attachBodies [] [] last.tokens.reverse).map Token.bare = _
  rw [attachBodies_nil, List.reverse_nil, List.nil_append, List.map_reverse, hlast, htokens]
  simp [Scanner.start]

variable {left operand : String} (hleft : IsWordText left.toList)
include hleft

/-- **The tokens of a test** against a regular expression. -/
theorem ofText_regexTest {tokens : List Token} (h : Scanner.Yields operand.toList tokens) :
    ∃ stream, ofText ("[[ " ++ left ++ " =~ " ++ operand ++ " ]]") = .ok stream ∧
      stream.tokens.map Token.bare = .ofWord 0 "[[" :: .ofWord 0 left :: .ofWord 0 "=~" ::
        (tokens ++ [.ofWord 0 "]]"]) := by
  obtain ⟨next, hgoes, hrest⟩ :=
    (Scanner.reads_left hleft operand).trans fun s hs => h s "]]".toList hs
  exact ofText_of_goes hgoes (Scanner.run_closing hrest)

theorem ofText_regexTest_refused {e : SyntaxError} (h : Scanner.Refuses operand.toList e) :
    ofText ("[[ " ++ left ++ " =~ " ++ operand ++ " ]]") = .error e := by
  obtain ⟨next, ⟨hrun, -, -⟩, hrest⟩ := Scanner.reads_left hleft operand
  have hfailed : (Scanner.start ("[[ " ++ left ++ " =~ " ++ operand ++ " ]]")).run = .error e :=
    hrun.trans (h next "]]".toList hrest)
  rw [Scanner.start] at hfailed
  rw [ofText, hfailed]

end TokenStream

/-- The script that is one test. -/
def Script.ofTest (words : List Word) : Script :=
  ⟨[⟨⟨[.compound (.test words) []], false⟩, [], false⟩]⟩

/-- A text of which the tokens are one test is read as the script of that test. -/
theorem Script.parse_of_test {text : String} {stream : TokenStream} {tokens : List Token}
    {words : List Word} (hlength : text.length ≤ maxScriptLength)
    (hstream : TokenStream.ofText text = .ok stream)
    (htokens : stream.tokens.map Token.bare = .ofWord 0 "[[" :: tokens)
    (hcount : tokens.length + 2 ≤ maxTokenCount)
    (hcommand : (ofRest (Parser.command ⟨.ofDepth (maxNesting - 1), stream.lastLine⟩)).outcome
      stream.tokens = .ok (.compound (.test words) [], [])) :
    parse text = .ok (.ofTest words) := by
  have hsize : stream.tokens.length = tokens.length + 1 := by
    simpa using congrArg List.length htokens
  obtain ⟨opening, more, hcons, hopening, -⟩ := List.map_eq_cons_iff.1 htokens
  have hword := Token.word_of_bare hopening
  refine Level.Along.script_eq_ok_iff.2 ⟨hlength, stream, hstream, by omega, ?_⟩
  rw [hcons] at hcommand ⊢
  exact Parser.outcome_statementList_command hword.1 (by rw [hword.2]; decide) hcommand

/-- **A test against a regular expression** is read as a script of one command. The operand is put
together again from the tokens that the lexer makes of it. -/
theorem Script.parse_regexTest {left operand raw : String} {tokens : List Token}
    {leftParts parts : List Part} (hleft : IsWordText left.toList) (hclose : left ≠ "]]")
    (hmatch : left ≠ "=~")
    (hleftParts : (Level.ofDepth (maxNesting - 1)).parts .unquoted left.toList = .ok leftParts)
    (h : Scanner.Yields operand.toList tokens)
    (hoperand : Parser.regexOperand 0 "" (tokens ++ [.ofWord 0 "]]"]) = (raw, [.ofWord 0 "]]"]))
    (hraw : raw ≠ "")
    (hparts : (Level.ofDepth (maxNesting - 1)).parts .unquoted raw.toList = .ok parts)
    (hlength : ("[[ " ++ left ++ " =~ " ++ operand ++ " ]]").length ≤ maxScriptLength)
    (hcount : tokens.length + 5 ≤ maxTokenCount) :
    parse ("[[ " ++ left ++ " =~ " ++ operand ++ " ]]") =
      .ok (.ofTest (Parser.regexWords ⟨leftParts, left⟩ ⟨parts, raw⟩)) := by
  obtain ⟨stream, hstream, htokens⟩ := TokenStream.ofText_regexTest hleft h
  have hoperator : (Level.ofDepth (maxNesting - 1)).parts .unquoted "=~".toList =
      .ok [.literal "=~"] :=
    Level.partsOf_unmarked _ (fun c hc => (isPlainWord_match.chars c hc).2) nofun nofun
  have hcommand := Parser.outcome_test_regex stream.lastLine hclose hmatch hleftParts
    hoperator hraw hparts htokens hoperand
  exact parse_of_test hlength hstream htokens (by simpa using hcount) hcommand

/-- A numeral that cannot be read makes the whole text one that is not read. -/
theorem Script.parse_regexTest_refused {left operand : String} {cause : Text.IntegerError}
    (hleft : IsWordText left.toList) (h : Scanner.Refuses operand.toList (.integer cause))
    (hlength : ("[[ " ++ left ++ " =~ " ++ operand ++ " ]]").length ≤ maxScriptLength) :
    parse ("[[ " ++ left ++ " =~ " ++ operand ++ " ]]") = .error (.integer cause) := by
  rw [parse, Level.script, if_neg (Nat.not_lt.2 hlength),
    TokenStream.ofText_regexTest_refused hleft h]

/-! ## Tests of words -/

/-- **A word of a test** at a level: one that is read there, or an operator that is none of its own. -/
inductive Word.InTest (l : Level) : Word → Prop where
  | operand {word : Word} (text : IsWordText word.raw.toList) (closes : word.raw ≠ "]]")
    (matching : word.raw ≠ "=~") (parts : l.parts .unquoted word.raw.toList = .ok word.parts) :
    InTest l word
  | operator {kind : TokenKind} (spelled : kind.isSpelled = true) : InTest l (.ofLiteral kind.spelling)

/-- **A token of a test** that stands for one word. -/
structure Token.IsTestWord (l : Level) (t : Token) (word : Word) : Prop where
  closes : ¬ (t.kind = .word ∧ t.text = "]]")
  read (lastLine : Nat) (tokens : List Token) :
    (Parser.operands ⟨l, lastLine⟩ t).outcome tokens = .ok ([word], tokens)

/-- Each word of a test is written as one token, and is read again from it. -/
theorem Word.InTest.exists_token {l : Level} {word : Word} (h : word.InTest l) :
    ∃ t : Token, t.InSource ∧ t.source = word.raw.toList ++ [' '] ∧
      ∀ t' : Token, t'.bare = t.bare → t'.IsTestWord l word := by
  cases h with
  | operand text closes matching parts =>
    refine ⟨.ofWord 0 word.raw, .word 0 text, rfl, fun t hbare => ?_⟩
    have hkind : t.kind = .word := (Token.word_of_bare hbare).1
    have htext : t.text = word.raw := (Token.word_of_bare hbare).2
    refine ⟨fun hword => closes (htext ▸ hword.2), fun lastLine tokens => ?_⟩
    have hread : (Parser.operands ⟨l, lastLine⟩ t).outcome tokens =
        .ok ([⟨word.parts, t.text⟩], tokens) :=
      Parser.outcome_operands_word hkind (htext ▸ matching) (htext ▸ parts)
    obtain ⟨parts, raw⟩ := word
    rw [hread, htext]
  | @operator kind spelled =>
    refine ⟨⟨kind, kind.spelling, 0, none, none⟩, .operator 0 spelled, rfl, fun t hbare => ?_⟩
    have hkind : t.kind = kind := congrArg Token.kind hbare
    have htext : t.text = kind.spelling := congrArg Token.text hbare
    refine ⟨fun hword => ?_, fun lastLine tokens => ?_⟩
    · rw [← hkind, hword.1] at spelled
      cases spelled
    · rw [Parser.operands, hkind, htext]
      cases kind with
      | word | newline | arithmetic => cases spelled
      | _ => rfl

/-- The words of a test are written one after the other, each with a blank after it. -/
theorem Word.InTest.exists_tokens {l : Level} {words : List Word}
    (h : ∀ word ∈ words, word.InTest l) : ∃ tokens : List Token, (∀ t ∈ tokens, t.InSource) ∧
      tokens.flatMap Token.source = (String.join (words.map fun word => word.raw ++ " ")).toList ∧
        ∀ read : List Token, read.map Token.bare = tokens.map Token.bare →
          List.Forall₂ (Token.IsTestWord l) read words := by
  induction words with
  | nil =>
    refine ⟨[], nofun, rfl, fun read hread => ?_⟩
    rw [List.map_eq_nil_iff.1 hread]
    exact .nil
  | cons word words ih =>
    obtain ⟨hword, hwords⟩ := List.forall_mem_cons.1 h
    obtain ⟨t, ht, hsource, htest⟩ := hword.exists_token
    obtain ⟨tokens, htokens, hsources, htests⟩ := ih hwords
    refine ⟨t :: tokens, List.forall_mem_cons.2 ⟨ht, htokens⟩, ?_, fun read hread => ?_⟩
    · rw [List.flatMap_cons, hsource, hsources]
      simp [String.toList_join]
    · obtain ⟨t', read, rfl, hfirst, hlater⟩ := List.map_eq_cons_iff.1 hread
      exact .cons (htest t' hfirst) (htests read hlater)

namespace Parser

/-- **The tokens of a test** are read as its words. -/
theorem outcome_testOperands {l : Level} {tokens : List Token} {words : List Word}
    (h : List.Forall₂ (Token.IsTestWord l) tokens words) {closing : Token}
    (hclosing : closing.kind = .word ∧ closing.text = "]]") (lastLine line : Nat) :
    (testOperands ⟨l, lastLine⟩ line).outcome (tokens ++ [closing]) = .ok (words, []) := by
  have hloop (done : List Word) :
      (repeatFrom done fun done t =>
        if t.kind == .word && t.text == "]]" then none
        else some ((· ++ done) <$> operands ⟨l, lastLine⟩ t)).outcome (tokens ++ [closing]) =
          .ok (words.reverse ++ done, [closing]) := by
    induction h generalizing done with
    | nil =>
      refine outcome_repeatFrom_stop ?_
      rintro t ⟨⟩
      exact if_pos (by simp [hclosing])
    | cons ht _ ih =>
      refine (outcome_repeatFrom_turn (if_neg (by simpa using ht.closes))
        (outcome_map_ok (· ++ done) (ht.read lastLine _))).trans ((ih _).trans ?_)
      simp
  refine (outcome_bind_ok (hloop [])).trans ((outcome_bind_ok (outcome_peek _ _)).trans
    ((outcome_bind_ok (outcome_closing hclosing)).trans ?_))
  rw [List.append_nil, List.reverse_reverse]
  rfl

end Parser

namespace Script

/-- The text of a test. -/
def testText (words : List Word) : String :=
  "[[ " ++ String.join (words.map fun word => word.raw ++ " ") ++ "]]"

/-- **The text of a test** is read as a script of one command, which holds the words of the test. -/
theorem parse_test {words : List Word} (hne : words ≠ [])
    (h : ∀ word ∈ words, word.InTest (.ofDepth (maxNesting - 1)))
    (hlength : (testText words).length ≤ maxScriptLength)
    (hcount : words.length + 3 ≤ maxTokenCount) :
    parse (testText words) = .ok (.ofTest words) := by
  obtain ⟨tokens, htokens, hsource, htests⟩ := Word.InTest.exists_tokens h
  have hbrackets : IsPlainWord "[[" := isPlainWord_of_mem_keywords (by decide)
  have hall : ∀ t ∈ Token.ofWord 0 "[[" :: tokens, t.InSource :=
    List.forall_mem_cons.2 ⟨.word 0 hbrackets.isWordText, htokens⟩
  have htext : (testText words).toList =
      (Token.ofWord 0 "[[" :: tokens).flatMap Token.source ++ "]]".toList := by
    rw [List.flatMap_cons, hsource]
    simp [testText, Token.source, Token.ofWord]
  obtain ⟨next, hgoes, hrest⟩ :=
    Scanner.goes_tokens (s := Scanner.start (testText words)) hall ⟨rfl, by rintro t ⟨⟩⟩ htext
  obtain ⟨stream, hstream, hbare⟩ := TokenStream.ofText_of_goes hgoes (Scanner.run_brackets hrest)
  rw [List.map_cons, List.cons_append] at hbare
  obtain ⟨opening, read, hcons, hopening, hread⟩ := List.map_eq_cons_iff.1 hbare
  obtain ⟨operands, closing, rfl, hoperands, hclosing⟩ := List.map_eq_append_iff.1 hread
  obtain ⟨closing, rfl, hlast⟩ := List.map_eq_singleton_iff.1 hclosing
  have htest := htests operands hoperands
  have hsize : operands.length = words.length := htest.length_eq
  refine parse_of_test hlength hstream hbare ?_ ?_
  · rw [← hoperands, List.length_append, List.length_map, hsize]
    exact hcount
  · rw [hcons]
    exact Parser.outcome_command_test (Token.word_of_bare hopening) hne
      (Parser.outcome_testOperands htest (Token.word_of_bare hlast) _ _)

end Script

end VirtualShell
