import VirtualShell.Proofs.Quoting.Command
import VirtualShell.Proofs.Quoting.Entity
import VirtualShell.Session

/-!
# A here-document with a quoted delimiter

A here-document whose delimiter is quoted is handed on as it stands. The session puts operators back
before the script is read, and this pass knows quotes but no here-documents, so it reaches into the
body: what comes out is the body with its operators put back.

* `PendingDocument.readBody_lines` — the body ends at the first line that is the delimiter.
* `Text.unescapeEntities_lines` — putting operators back makes no line the delimiter.
* **`Session.run_quotedDocument`** — the output of `cat` on a here-document in a new session.
-/

namespace VirtualShell

/-! ## Lines -/

/-- Some lines, each with the line feed that ends it. -/
def linesText (lines : List (List Char)) : List Char := lines.flatMap (· ++ ['\n'])

theorem linesText_cons (line : List Char) (lines : List (List Char)) (rest : List Char) :
    linesText (line :: lines) ++ rest = line ++ '\n' :: (linesText lines ++ rest) := by
  simp [linesText]

namespace PendingDocument

/-- What a line is in the body and when it is compared with the delimiter. -/
def keep (doc : PendingDocument) (line : List Char) : List Char :=
  if doc.stripTabs then line.dropWhile (· == '\t') else line

variable {doc : PendingDocument} {line : List Char} (hline : '\n' ∉ line)

include hline in
/-- The next line is the delimiter, or it is added to the body. -/
theorem readBody_line (body : String) (count : Nat) (rest : List Char) :
    doc.readBody body count (line ++ '\n' :: rest) =
      if doc.keep line = doc.delimiter then (body, count + 1, rest)
      else doc.readBody (body ++ String.ofList (doc.keep line) ++ "\n") (count + 1) rest := by
  rw [readBody.eq_def]
  split
  · next htext => simp at htext
  · next c text htext =>
    rw [← htext, takeLine_line hline]
    by_cases hlast : doc.keep line = doc.delimiter
    · rw [if_pos hlast]
      exact if_pos (beq_iff_eq.2 hlast)
    · rw [if_neg hlast]
      exact if_neg (mt beq_iff_eq.1 hlast)

include hline in
/-- **The lines of a body** are read up to the delimiter. -/
theorem readBody_lines (hdelimiter : doc.keep line = doc.delimiter) {lines : List (List Char)}
    (hlines : ∀ line ∈ lines, '\n' ∉ line ∧ doc.keep line ≠ doc.delimiter) (body : String)
    (count : Nat) (rest : List Char) :
    doc.readBody body count (linesText lines ++ (line ++ '\n' :: rest)) =
      (body ++ String.ofList (linesText (lines.map doc.keep)), count + lines.length + 1, rest) := by
  induction lines generalizing body count with
  | nil =>
    rw [linesText, List.flatMap_nil, List.nil_append, readBody_line hline, if_pos hdelimiter]
    simp [linesText]
  | cons next lines ih =>
    obtain ⟨⟨hnext, hne⟩, hlines⟩ := List.forall_mem_cons.1 hlines
    rw [linesText_cons, readBody_line hnext, if_neg hne, ih hlines]
    simp only [List.length_cons, List.map_cons, linesText, List.flatMap_cons, String.ofList_append]
    simp [String.append_assoc, Nat.add_assoc, Nat.add_comm 1]

end PendingDocument

/-- **Operators are put back inside the lines** and make none of them another line that holds no
operator. -/
theorem Text.unescapeEntities_lines (quote : Option Char) {delimiter : List Char}
    (hdelimiter : ∀ c ∈ delimiter, c ≠ '<' ∧ c ≠ '>' ∧ c ≠ '&') {lines : List (List Char)}
    (hlines : ∀ line ∈ lines, '\n' ∉ line ∧ line ≠ delimiter) :
    ∃ restored next, (∀ line ∈ restored, '\n' ∉ line ∧ line ≠ delimiter) ∧
      ∀ rest, unescapeEntities quote (linesText lines ++ rest) =
        linesText restored ++ unescapeEntities next rest := by
  induction lines generalizing quote with
  | nil => exact ⟨[], quote, nofun, fun _ => rfl⟩
  | cons line lines ih =>
    obtain ⟨hline, hne⟩ := hlines line List.mem_cons_self
    obtain ⟨restored, last, hrestored, hrest⟩ :=
      ih ((QuoteState.after ⟨quote, false⟩ line).next '\n').quote
        fun line hmem => hlines line (List.mem_cons_of_mem _ hmem)
    refine ⟨unescapeEntities quote line :: restored, last, ?_, fun rest => ?_⟩
    · intro new hnew
      rcases List.mem_cons.1 hnew with rfl | hnew
      · constructor
        · intro hmem
          rcases mem_of_mem_unescapeEntities hmem with hmem | hoperator
          · exact hline hmem
          · revert hoperator
            decide
        · intro heq
          rcases unescapeEntities_eq_or quote line with hsame | ⟨c, hc, hoperator⟩
          · exact hne (hsame.symm.trans heq)
          · rw [heq] at hc
            obtain ⟨hless, hgreater, hand⟩ := hdelimiter c hc
            rcases hoperator with rfl | rfl | rfl
            · exact hless rfl
            · exact hgreater rfl
            · exact hand rfl
      · exact hrestored new hnew
    · rw [linesText_cons, unescapeEntities_line, hrest, linesText_cons]

/-! ## The script -/

/-- **The script that hands a text to `cat`** in a here-document with a quoted delimiter. -/
def quotedDocument (body : String) : String := "cat <<'EOF'\n" ++ body ++ "EOF\n"

/-- The characters of the first line. -/
def documentStart : List Char :=
  ['c', 'a', 't', ' ', '<', '<', '\'', 'E', 'O', 'F', '\'', '\n']

/-- The name of the command. -/
def documentName : Token := ⟨.word, "cat", 1, none, none⟩

/-- The end of the first line. -/
def documentEnd : Token := ⟨.newline, "\n", 1, none, none⟩

/-- The tokens after the name. -/
def documentRest (body : String) : List Token :=
  [⟨.redirect .hereDocument, "<<", 1, none, some ⟨"EOF", true, false, body⟩⟩,
    ⟨.word, "'EOF'", 1, none, none⟩, documentEnd]

/-- The tokens of the script. -/
def documentTokens (body : String) : List Token := documentName :: documentRest body

theorem documentEnd_length_le (body : String) :
    [documentEnd].length ≤ (documentRest body).length := by
  simp [documentRest]

namespace Scanner

/-- The first line is a command with one here-document, which comes next. -/
theorem run_documentStart (rest : List Char) :
    run ⟨documentStart ++ rest, 1, [], [], []⟩ =
      run (readBodies ⟨rest, 2, (documentTokens "").reverse, [⟨['E', 'O', 'F'], false⟩], []⟩
        [⟨['E', 'O', 'F'], false⟩]) := by
  have hname : step ⟨documentStart ++ rest, 1, [], [], []⟩ 'c' (documentStart.tail ++ rest) =
      .ok ⟨documentStart.drop 3 ++ rest, 1, [⟨.word, "cat", 1, none, none⟩], [], []⟩ := by
    have hdigit : Text.isDigit 'c' = false := Text.isDigit_of_ascii (by decide)
    rw [step_word _ rfl hdigit (by decide) (by decide),
      readWord_of_scan ['t', 'a', 'c'] (documentStart.drop 3 ++ rest) rfl]
    rfl
  have hoperator : step ⟨documentStart.drop 4 ++ rest, 1, [⟨.word, "cat", 1, none, none⟩], [], []⟩
      '<' (documentStart.drop 5 ++ rest) = .ok ⟨documentStart.drop 6 ++ rest, 1,
        [⟨.redirect .hereDocument, "<<", 1, none, none⟩, ⟨.word, "cat", 1, none, none⟩], [], []⟩ :=
    step_operator _ (.redirect .hereDocument) (documentStart.drop 6 ++ rest) rfl rfl
  have hdelimiter : step ⟨documentStart.drop 6 ++ rest, 1,
      [⟨.redirect .hereDocument, "<<", 1, none, none⟩, ⟨.word, "cat", 1, none, none⟩], [], []⟩
      '\'' (documentStart.drop 7 ++ rest) = .ok ⟨'\n' :: rest, 1, (documentTokens "").reverse.tail,
        [⟨['E', 'O', 'F'], false⟩], []⟩ := by
    have hdigit : Text.isDigit '\'' = false := Text.isDigit_of_ascii (by decide)
    rw [step_word _ rfl hdigit (by decide) (by decide),
      readWord_of_scan ['\'', 'F', 'O', 'E', '\''] ('\n' :: rest) rfl]
    rfl
  calc
    _ = run ⟨documentStart.drop 3 ++ rest, 1, [⟨.word, "cat", 1, none, none⟩], [], []⟩ :=
      run_of_step rfl hname
    _ = run ⟨documentStart.drop 4 ++ rest, 1, [⟨.word, "cat", 1, none, none⟩], [], []⟩ :=
      run_blank rfl
    _ = _ := run_of_step rfl hoperator
    _ = _ := run_of_step rfl hdelimiter
    _ = _ := run_of_step rfl (step_newline _ rest)

end Scanner

theorem TokenStream.ofText_quotedDocument {lines : List (List Char)}
    (hlines : ∀ line ∈ lines, '\n' ∉ line ∧ line ≠ ['E', 'O', 'F']) : ∃ lastLine,
    TokenStream.ofText (quotedDocument (String.ofList (linesText lines))) =
      .ok ⟨documentTokens (String.ofList (linesText lines)), lastLine⟩ := by
  have hbody : PendingDocument.readBody ⟨['E', 'O', 'F'], false⟩ "" 0
      (linesText lines ++ (['E', 'O', 'F'] ++ ['\n'])) = _ :=
    PendingDocument.readBody_lines (by decide) rfl hlines "" 0 []
  have hkept : lines.map (PendingDocument.keep ⟨['E', 'O', 'F'], false⟩) = lines := List.map_id _
  rw [hkept] at hbody
  have htext : (quotedDocument (String.ofList (linesText lines))).toList =
      documentStart ++ (linesText lines ++ (['E', 'O', 'F'] ++ ['\n'])) := by
    simp [quotedDocument, documentStart]
  refine ⟨2 + (0 + lines.length + 1), ?_⟩
  rw [TokenStream.ofText, htext, Scanner.run_documentStart]
  simp only [Scanner.readBodies, hbody]
  rw [Scanner.run_of_nil rfl]
  simp [documentTokens, documentName, documentRest, documentEnd, attachBodies]

/-- The command of the script. -/
def documentCommand (body : String) : SimpleCommand :=
  ⟨[], some (.ofLiteral "cat"), [],
    [⟨.hereDocument, .hereDocument "EOF" ⟨[.quoted body], body⟩ true false, none⟩], 1⟩

namespace Parser

/-- A name that needs no quotes is read as it stands. -/
theorem word_cat (n lastLine : Nat) (tokens : List Token) :
    word ⟨.ofDepth (n + 1), lastLine⟩ "cat" tokens =
      .ok (.ofLiteral "cat", ⟨tokens, Nat.le_refl _⟩) := by
  have hparts : (Level.ofDepth (n + 1)).parts .unquoted ['c', 'a', 't'] =
      .ok [.literal "cat"] := by
    simp [Level.ofDepth, Level.partsOf, takeTilde, Level.scanParts, Level.part?, Level.flush]
  have hchars : "cat".toList = ['c', 'a', 't'] := by decide
  simp only [word, hchars, hparts]
  rfl

/-- What follows the name is a here-document, and then the line ends. -/
theorem simpleCommand_document (n lastLine : Nat) (body : String) :
    simpleCommand ⟨.ofDepth (n + 1), lastLine⟩ documentName (documentRest body) =
      .ok (.simple (documentCommand body), ⟨[documentEnd], documentEnd_length_le body⟩) := by
  have hassignment : readAssignment? "cat" = none := by decide
  have hredirection (rest : List Token) : redirection ⟨.ofDepth (n + 1), lastLine⟩
      ⟨.redirect .hereDocument, "<<", 1, none, some ⟨"EOF", true, false, body⟩⟩ .hereDocument
      (⟨.word, "'EOF'", 1, none, none⟩ :: rest) =
        .ok (⟨.hereDocument, .hereDocument "EOF" ⟨[.quoted body], body⟩ true false, none⟩,
          ⟨rest, Nat.le_succ _⟩) := rfl
  simp only [simpleCommand, simpleItem, documentName, Option.getD_some, Reader.bind_apply, addWord,
    hassignment, word_cat, Reader.pure_apply, Reader.repeatFrom, Tail.all, documentRest]
  rw [Reader.loop]
  simp only [simpleItem, Reader.bind_apply, hredirection, Reader.pure_apply, Tail.all]
  rw [Reader.loop]
  simp only [simpleItem, documentEnd]
  rfl

/-- No loop of the parser takes the end of the first line. -/
theorem repeatFrom_documentEnd {σ : Type} {step : σ → Token → Option (TokenReader σ)} {s : σ}
    (h : step s documentEnd = none) :
    Reader.repeatFrom s step [documentEnd] = .ok (s, .all [documentEnd]) := by
  simp only [Reader.repeatFrom, Tail.all, Reader.loop, h]

theorem command_document (n lastLine : Nat) (body : String) :
    (Level.ofDepth (n + 2)).command lastLine (documentName :: documentRest body) =
      .ok (.simple (documentCommand body),
        ⟨[documentEnd], Nat.lt_succ_of_le (documentEnd_length_le body)⟩) := by
  have hkeyword (p : Parser) : p.keywordCommand? documentName = none := rfl
  have hmisplaced : misplacedKeywords.contains documentName.text = false := by decide
  have hafter : commandAfter ⟨.ofDepth (n + 1), lastLine⟩ documentName (documentRest body) =
      simpleCommand ⟨.ofDepth (n + 1), lastLine⟩ documentName := by
    unfold commandAfter
    simp only [hkeyword, hmisplaced]
    rfl
  change command ⟨.ofDepth (n + 1), lastLine⟩ (documentName :: documentRest body) = _
  rw [command, hafter, simpleCommand_document]

/-- A statement before a line end, after which the list goes on. -/
theorem statements_of_separator {p : Parser} {stops : List String} {start next rest : List Token}
    {done : List Statement} {items : Tail start} {s : Statement} {t : Token}
    {h : (t :: rest).length < next.length}
    (hnext : (items.1.dropWhile fun t => t.kind == .newline) = next)
    (hend : atListEnd stops next = false) (hs : p.statement next = .ok (s, ⟨t :: rest, h⟩))
    (ht : t.kind = .newline) (hle : rest.length ≤ start.length) :
    p.statements stops done items = p.statements stops (s :: done) (⟨rest, hle⟩ : Tail start) := by
  subst hnext
  rw [statements]
  simp only [hend, hs, ht, Bool.false_eq_true, if_false]
  rfl

/-- **The script is one command** with a here-document. -/
theorem statementList_document (n lastLine : Nat) (body : String) :
    statementList ⟨.ofDepth (n + 2), lastLine⟩ [] (documentTokens body) =
      .ok ([statementOf (.simple (documentCommand body))], ⟨[], Nat.zero_le _⟩) := by
  have hnegation : (documentName.kind == .word && documentName.text == "!") = false := by decide
  have hcommand := command_document n lastLine body
  have hstages (p : Parser) (c : Command) :
      p.stages [c] [documentEnd] = .ok ([c], .all [documentEnd]) := repeatFrom_documentEnd rfl
  have hlinks (p : Parser) : p.links [documentEnd] = .ok ([], .all [documentEnd]) :=
    repeatFrom_documentEnd rfl
  have hstatement : statement ⟨.ofDepth (n + 2), lastLine⟩ (documentTokens body) =
      .ok (statementOf (.simple (documentCommand body)),
        ⟨[documentEnd], by simp [documentTokens, documentRest]⟩) := by
    simp only [statement, documentTokens, pipeline, hnegation, Bool.false_eq_true, if_false,
      hcommand, hstages, Tail.all, hlinks]
    rfl
  have hnext : (documentTokens body).dropWhile (fun t => t.kind == .newline) =
      documentTokens body := rfl
  rw [statementList, statements_of_separator hnext rfl hstatement rfl (Nat.zero_le _), statements]
  rfl

end Parser

/-- **The script is read as one command**, when it is not too long. -/
theorem Script.parse_quotedDocument {lines : List (List Char)}
    (hlines : ∀ line ∈ lines, '\n' ∉ line ∧ line ≠ ['E', 'O', 'F'])
    (hlength : (quotedDocument (String.ofList (linesText lines))).length ≤ maxScriptLength) :
    Script.parse (quotedDocument (String.ofList (linesText lines))) =
      .ok ⟨[Parser.statementOf (.simple (documentCommand (String.ofList (linesText lines))))]⟩ := by
  obtain ⟨lastLine, hstream⟩ := TokenStream.ofText_quotedDocument hlines
  have hlist := Parser.statementList_document 62 lastLine (String.ofList (linesText lines))
  change Level.script (.ofDepth (62 + 2)) _ = _
  rw [Level.script, if_neg (Nat.not_lt.2 hlength), hstream]
  dsimp only
  rw [if_neg (by simp [documentTokens, documentRest, maxTokenCount]), hlist]

/-! ## Running -/

theorem Word.allFields_cat (x : Expander) (shell : Shell) :
    allFields x [.ofLiteral "cat"] shell = (.ok ["cat"], shell) :=
  allFields_cons (fields_ofLiteral x (by decide) (by decide) shell) rfl

/-- The command reads the body. -/
theorem Streams.ofRedirections_document (x : Expander) (body input : String) :
    (ofRedirections x (documentCommand body).redirections input).run =
      pure (.ok { ofInput input with input := body }) := by
  simp only [ofRedirections, documentCommand, List.foldlM_cons, List.foldlM_nil, redirect,
    Word.text_quoted]
  rfl

/-- Without redirections of the output it goes where it would go. -/
theorem Streams.deliver_eq {s : Streams} (input : String)
    (hs : s.outputs = (ofInput input).outputs) (output : Output) :
    s.deliver output = pure output := by
  obtain ⟨stdout, stderr⟩ := output
  have hstdout : s.destination 1 = .stdout := by
    rw [destination, hs]
    rfl
  have hstderr : s.destination 2 = .stderr := by
    rw [destination, hs]
    rfl
  have houtput : Output.empty ++ ⟨stdout, ""⟩ ++ ⟨"", stderr⟩ = ⟨stdout, stderr⟩ := by
    change Output.mk ("" ++ stdout ++ "") ("" ++ "" ++ stderr) = _
    simp
  rw [deliver, hstdout, hstderr]
  exact congrArg (pure : Output → Run Output) houtput

/-- **`cat` without operands writes its input.** -/
theorem Utility.Cat.step_run (input directory : String) (environment : Table String String)
    (host : Host) :
    Utility.step Cat.run ⟨[], input, directory, environment, host⟩ = pure (.ofText input) := by
  funext shell
  have hrun : Utility.step Cat.run ⟨[], input, directory, environment, host⟩ shell =
      (.ok ⟨⟨"" ++ input, ""⟩, 0⟩, shell) := rfl
  rw [hrun, String.empty_append]
  rfl

/-- **The command writes the body**, in every shell that has no function of its name. -/
theorem Runner.simple_document {r : Runner} (hcat : r.utilities.lookup "cat" = some Utility.Cat.run)
    (body input : String) (shell : Shell) (hfunction : shell.functions.get? "cat" = none) :
    r.simple (documentCommand body) input shell = (.ok (.ofText body), shell) := by
  have hwords : r.wordsOf (documentCommand body) shell = (.ok ["cat"], shell) :=
    Word.allFields_cat r.expander shell
  have hnamed : r.named "cat" [] body shell = (.ok (.ofText body), shell) := by
    have hbuiltin : Builtin.named? "cat" = none := by decide
    rw [named, Run.bind_apply, Run.get_apply]
    simp only [hfunction, hbuiltin, hcat, Utility.Cat.step_run]
    rfl
  have hbindings : Assignment.bindings r.expander (documentCommand body).assignments =
      pure (.ofList []) := rfl
  have hbinding (run : Run Outcome) : Run.binding (.ofList []) run = run := if_pos rfl
  have hdeliver (output : Output) :
      Streams.deliver { Streams.ofInput input with input := body } output = pure output :=
    Streams.deliver_eq input rfl output
  rw [simple, Run.bind_apply, hwords]
  simp only [Run.redirected, Streams.ofRedirections_document, pure_bind, hbindings, hbinding,
    Streams.around]
  simp only [Run.bind_apply, Run.tryCatch_apply, hnamed, hdeliver]
  rfl

/-- Nothing that was written before changes an outcome. -/
theorem Outcome.after_empty (o : Outcome) : o.after .empty = o := by
  obtain ⟨⟨stdout, stderr⟩, status⟩ := o
  change Outcome.mk ⟨"" ++ stdout, "" ++ stderr⟩ status = _
  simp

theorem Run.after_of_ok {α : Type} {run : Run α} {shell next : Shell} {a : α} (earlier : Output)
    (h : run shell = (.ok a, next)) : Run.after earlier run shell = (.ok a, next) := by
  rw [after, h]

/-- **The command as a pipeline** writes the body, and its status is kept. -/
theorem Pipeline.run_document {r : Runner} (hcat : r.utilities.lookup "cat" = some Utility.Cat.run)
    (body : String) (shell : Shell) (hfunction : shell.functions.get? "cat" = none) :
    Pipeline.run r ⟨[.simple (documentCommand body)], false⟩ shell =
      (.ok (.ofText body), { shell with status := 0 }) := by
  have hsimple : r.simple (documentCommand body) (shell.groupInput.getD "")
      { shell with expansionErrors := "" } = _ :=
    Runner.simple_document hcat body _ _ hfunction
  have hcommand : Command.run r (.simple (documentCommand body)) (shell.groupInput.getD "") shell =
      (.ok (.ofText body), shell) := by
    rw [Command.run, Run.withExpansionErrors, hsimple]
    exact congrArg (fun o => (Except.ok o, shell)) (Outcome.after_empty _)
  have hstage (several : Bool) (label : String) :
      Run.stage several label
        (Command.run r (.simple (documentCommand body)) (shell.groupInput.getD "")) shell =
        (.ok (.ofText body), shell) := by
    rw [Run.stage, Run.tryCatch_apply, hcommand]
  simp only [Pipeline.run, Command.runStages, Run.bind_apply, Run.get_apply,
    Run.after_of_ok _ (hstage _ _)]
  exact congrArg (fun o => (Except.ok o, { shell with status := 0 }))
    (Outcome.after_empty (.ofText body))

/-- **The script writes the body**, as long as a statement may run. -/
theorem Statement.runAll_document {r : Runner}
    (hcat : r.utilities.lookup "cat" = some Utility.Cat.run) (body : String) (shell : Shell)
    (hfunction : shell.functions.get? "cat" = none)
    (hlimit : ((shell.statementCount + 1 : Nat) : Int) ≤ r.limits.statements) : ∃ next,
    Statement.runAll r .success [Parser.statementOf (.simple (documentCommand body))] shell =
      (.ok (.ofText body), next) := by
  let counted : Shell := { shell with
    statementCount := shell.statementCount + 1, usage := shell.usage.letRun }
  have hcount : Run.accept r.limits shell = (.ok (), counted) := by
    rw [Run.accept_apply, if_neg (by simpa using hlimit)]
  have hpipeline := Pipeline.run_document hcat body counted hfunction
  have hstatement : Statement.run r (Parser.statementOf (.simple (documentCommand body))) shell =
      (.ok (.ofText body), { counted with status := 0 }) := by
    simp only [Parser.statementOf, Statement.run_eq, Run.bind_apply, hcount, hpipeline]
    rfl
  refine ⟨{ counted with status := 0 }, ?_⟩
  simp only [Statement.runAll, Run.bind_apply, Run.after_of_ok _ hstatement]
  exact congrArg (fun o => (Except.ok o, { counted with status := 0 }))
    (Outcome.after_empty (.ofText body))

/-! ## The session -/

/-- Putting operators back leaves the first line and the delimiter alone. -/
theorem Text.restoreOperators_quotedDocument {lines : List (List Char)}
    (hlines : ∀ line ∈ lines, '\n' ∉ line ∧ line ≠ ['E', 'O', 'F']) : ∃ restored,
    (∀ line ∈ restored, '\n' ∉ line ∧ line ≠ ['E', 'O', 'F']) ∧
      restoreOperators (String.ofList (linesText lines)) = String.ofList (linesText restored) ∧
      restoreOperators (quotedDocument (String.ofList (linesText lines))) =
        quotedDocument (String.ofList (linesText restored)) := by
  obtain ⟨restored, next, hrestored, hrest⟩ := unescapeEntities_lines none (by simp) hlines
  have hstart (rest : List Char) :
      unescapeEntities none (documentStart ++ rest) =
        documentStart ++ unescapeEntities none rest := by
    simp [documentStart, unescapeEntities]
  have hdelimiter : unescapeEntities next ['E', 'O', 'F', '\n'] = ['E', 'O', 'F', '\n'] :=
    unescapeEntities_eq_self next (by unfold HoldsNoEntity; decide)
  have hbody := hrest []
  have hdocument (lines : List (List Char)) :
      (quotedDocument (String.ofList (linesText lines))).toList =
        documentStart ++ (linesText lines ++ ['E', 'O', 'F', '\n']) := by
    simp [quotedDocument, documentStart]
  refine ⟨restored, hrestored, ?_, ?_⟩
  · simp only [restoreOperators, String.toList_ofList]
    rw [List.append_nil, unescapeEntities, List.append_nil] at hbody
    rw [hbody]
  · rw [restoreOperators, hdocument, hstart, hrest, hdelimiter, ← hdocument, String.ofList_toList]

theorem Text.length_restoreOperators_le (text : String) :
    (restoreOperators text).length ≤ text.length := by
  rw [restoreOperators, String.length_ofList, ← String.length_toList]
  exact unescapeEntities_length_le none text.toList

namespace Session

/-- **The output of the script**, in a session that has no function of the name of the utility and
lets a statement run: the body with its operators put back. -/
theorem run_document {s : Session} (hrestores : s.restoresOperators = true)
    (hcat : s.utilities.lookup "cat" = some Utility.Cat.run)
    (hfunction : s.shell.functions.get? "cat" = none) (hlimit : 1 ≤ s.limits.statements)
    {lines : List (List Char)} (hlines : ∀ line ∈ lines, '\n' ∉ line ∧ line ≠ ['E', 'O', 'F'])
    (hlength : (quotedDocument (String.ofList (linesText lines))).length ≤ maxScriptLength) :
    (s.run (quotedDocument (String.ofList (linesText lines)))).1 =
      .ok (.ofText (Text.restoreOperators (String.ofList (linesText lines)))) := by
  obtain ⟨restored, hrestored, hbody, hdocument⟩ := Text.restoreOperators_quotedDocument hlines
  have hshort : (quotedDocument (String.ofList (linesText restored))).length ≤ maxScriptLength := by
    rw [← hdocument]
    exact Nat.le_trans (Text.length_restoreOperators_le _) hlength
  have hparse := Script.parse_quotedDocument hrestored hshort
  rw [hbody]
  generalize String.ofList (linesText restored) = body at hdocument hparse
  let r : Runner := .ofLimits s.limits s.utilities
  obtain ⟨next, hrun⟩ := Statement.runAll_document (r := r) hcat body
    { s.shell with statementCount := 0, usage := .none } hfunction hlimit
  have hscript : runScript r ⟨[Parser.statementOf (.simple (documentCommand body))]⟩ s.shell =
      (.ok (.ofText body), putRight next) := by
    simp only [runScript, Run.during, scriptBody, id, concluding, Run.bind_apply, Run.modify_apply,
      Run.tryCatch_apply, hrun]
  have htext : (runText r (quotedDocument body) s.shell).1 = .ok (.ofText body) := by
    simp only [runText, hparse, Run.bind_apply, hscript]
    rfl
  simp only [run, hrestores, if_true, hdocument]
  exact htext

/-- **A here-document with a quoted delimiter in a new session.** The output is the body as far as
it writes no operator as an entity; where it does outside of quotes, the operator is put back. -/
theorem run_quotedDocument (host : Host) (directory : String) (added : List (String × String))
    (files : FileSystem) (lines : List String)
    (hlines : ∀ line ∈ lines, '\n' ∉ line.toList ∧ line ≠ "EOF") :
    let body := String.join (lines.map (· ++ "\n"))
    (quotedDocument body).length ≤ maxScriptLength →
      ((start host directory added files .standard Utility.all true).run (quotedDocument body)).1 =
        .ok ⟨⟨Text.restoreOperators body, ""⟩, 0⟩ ∧
      (Text.HoldsNoEntity body.toList → Text.restoreOperators body = body) := by
  intro body hlength
  have hbody : body = String.ofList (linesText (lines.map String.toList)) := by
    rw [← String.toList_inj, String.toList_ofList]
    simp [body, linesText, List.flatMap_def, Function.comp_def]
  have hchars : ∀ line ∈ lines.map String.toList, '\n' ∉ line ∧ line ≠ ['E', 'O', 'F'] := by
    intro chars hmem
    obtain ⟨line, hline, rfl⟩ := List.mem_map.1 hmem
    obtain ⟨hfeed, hne⟩ := hlines line hline
    exact ⟨hfeed, fun heq => hne (String.toList_inj.1 (heq.trans (by decide)))⟩
  constructor
  · rw [hbody] at hlength ⊢
    exact run_document rfl rfl rfl (show (1 : Int) ≤ 10000 by decide) hchars hlength
  · intro hentities
    rw [Text.restoreOperators, Text.unescapeEntities_eq_self none hentities, String.ofList_toList]

/-- Quotes, expansions, backslashes and a word like the delimiter stand in the lines. -/
theorem run_quotedDocument_literal :
    let lines := ["it's \"$x\" $(y)", " EOF", "", "z\\"]
    let body := "it's \"$x\" $(y)\n EOF\n\nz\\\n"
    (∀ line ∈ lines, '\n' ∉ line.toList ∧ line ≠ "EOF") ∧
      (quotedDocument body).length ≤ maxScriptLength ∧
      ((start .bare "/home/user" [] (.ofClock ⟨0, 1⟩) .standard Utility.all true).run
        (quotedDocument body)).1 = .ok ⟨⟨body, ""⟩, 0⟩ := by
  intro lines body
  have hlines : ∀ line ∈ lines, '\n' ∉ line.toList ∧ line ≠ "EOF" := by simp [lines]
  have hbody : String.join (lines.map (· ++ "\n")) = body := by
    rw [← String.toList_inj]
    simp [lines, body]
  have hlength : (quotedDocument body).length ≤ maxScriptLength := by
    rw [← String.length_toList]
    simp [quotedDocument, body, maxScriptLength]
  have hentities : Text.HoldsNoEntity body.toList := by
    simp [Text.HoldsNoEntity, body]
    decide
  have hdocument := run_quotedDocument .bare "/home/user" [] (.ofClock ⟨0, 1⟩) lines hlines
  rw [hbody] at hdocument
  obtain ⟨hrun, hverbatim⟩ := hdocument hlength
  rw [hverbatim hentities] at hrun
  exact ⟨hlines, hlength, hrun⟩

/-- An operator written as an entity is put back in the body, too. -/
theorem run_quotedDocument_entity :
    ((start .bare "/home/user" [] (.ofClock ⟨0, 1⟩) .standard Utility.all true).run
      "cat <<'EOF'\n&lt;\nEOF\n").1 = .ok ⟨⟨"<\n", ""⟩, 0⟩ := by
  have hbody : String.ofList (linesText [['&', 'l', 't', ';']]) = "&lt;\n" := by
    rw [← String.toList_inj]
    simp [linesText]
  have hrestored : Text.restoreOperators "&lt;\n" = "<\n" := by
    rw [← String.toList_inj]
    simp [Text.restoreOperators, Text.unescapeEntities]
  have hdocument : quotedDocument "&lt;\n" = "cat <<'EOF'\n&lt;\nEOF\n" := by
    rw [← String.toList_inj]
    simp [quotedDocument]
  have hlength : (quotedDocument "&lt;\n").length ≤ maxScriptLength := by
    rw [← String.length_toList]
    simp [quotedDocument, maxScriptLength]
  rw [← hbody] at hlength
  have hrun := run_document
    (s := start .bare "/home/user" [] (.ofClock ⟨0, 1⟩) .standard Utility.all true)
    rfl rfl rfl (show (1 : Int) ≤ 10000 by decide) (by decide) hlength
  rw [hbody, hrestored, hdocument] at hrun
  exact hrun

end Session

end VirtualShell
