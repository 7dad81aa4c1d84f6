import VirtualShell.Proofs.Reading.Joining
import VirtualShell.Proofs.Reading.SourceTokens

/-!
# The here-documents of a line

Any number of here-documents can follow a command on its line. Their operators and delimiters are
read before the line ends, and the lines of all of them after that, one document after the other.
So each operator gets the lines of its own document, and the lexer comes to the text behind the last
delimiter as it would come to it alone, some lines further down.

* `WrittenDocument` — a here-document as it is written.
* `Scanner.run_introductions` — the operators and delimiters on the line.
* `Scanner.readBodies_texts` — the lines below it.
* **`TokenStream.ofText_documents`** — the tokens of the line and of the text after the documents.
-/

namespace VirtualShell

/-! ## Written here-documents -/

/-- **A here-document as it is written**: an operator and a delimiter, which is a plain word such as a
name, and further down some lines, none of which is the delimiter, and then the delimiter. Where tabs
are dropped, they are before a line is compared, and there may be some before the last one. -/
structure WrittenDocument where
  stripTabs : Bool
  delimiter : String
  lines : List String
  tabs : Nat
  isPlain : IsPlainWord delimiter
  noDash : delimiter.toList.head? ≠ some '-'
  noFeed : ∀ line ∈ lines, '\n' ∉ line.toList
  isOpen : ∀ line ∈ lines,
    PendingDocument.keep ⟨delimiter.toList, stripTabs⟩ line.toList ≠ delimiter.toList
  noTabs : stripTabs = false → tabs = 0

namespace WrittenDocument

/-- The operator of the document. -/
def operator (d : WrittenDocument) : RedirectOp :=
  if d.stripTabs then .hereDocumentTabs else .hereDocument

/-- The document as the lexer waits for it. -/
def pending (d : WrittenDocument) : PendingDocument := ⟨d.delimiter.toList, d.stripTabs⟩

/-- What stands on the line of the command. -/
def introduction (d : WrittenDocument) : List Char :=
  ' ' :: (d.operator.spelling.toList ++ d.delimiter.toList)

/-- What stands below it. -/
def text (d : WrittenDocument) : List Char :=
  linesText (d.lines.map String.toList) ++
    (List.replicate d.tabs '\t' ++ d.delimiter.toList ++ ['\n'])

/-- How many lines that are. -/
def height (d : WrittenDocument) : Nat := d.lines.length + 1

/-- **The body** of the document: its lines, without tabs at their starts where they are dropped. -/
def body (d : WrittenDocument) : String :=
  String.ofList (linesText (d.lines.map fun line => d.pending.keep line.toList))

/-- The tokens of the document on the first line, with some body. -/
def tokens (d : WrittenDocument) (body : String) : List Token :=
  [⟨.redirect d.operator, d.operator.spelling, 1, none,
      some ⟨d.delimiter, false, d.stripTabs, body⟩⟩,
    ⟨.word, d.delimiter, 1, none, none⟩]

/-- A command with here-documents, and their lines. -/
def written (command : String) (docs : List WrittenDocument) : String :=
  String.ofList (command.toList ++ (docs.flatMap introduction ++ '\n' :: docs.flatMap text))

/-- How many lines that are. -/
def heightOf (docs : List WrittenDocument) : Nat := 1 + (docs.map height).sum

/-- The tokens of the first line. -/
def firstLine (command : String) (docs : List WrittenDocument) : List Token :=
  ⟨.word, command, 1, none, none⟩ ::
    (docs.flatMap (fun d => d.tokens d.body) ++ [⟨.newline, "\n", 1, none, none⟩])

end WrittenDocument

namespace WrittenDocument

/-- **The lines of one document** are its body, up to its last line. -/
theorem readBody_text (d : WrittenDocument) (rest : List Char) :
    d.pending.readBody "" 0 (d.text ++ rest) = (d.body, d.height, rest) := by
  have hplain {c : Char} (hc : isMetacharacter c = true) : c ∉ d.delimiter.toList := fun hmem =>
    absurd ((d.isPlain.chars c hmem).1.symm.trans hc) (by decide)
  have hlast : '\n' ∉ List.replicate d.tabs '\t' ++ d.delimiter.toList := by
    simp [hplain (c := '\n') rfl]
  have hkept : d.pending.keep (List.replicate d.tabs '\t' ++ d.delimiter.toList) =
      d.pending.delimiter := by
    rw [PendingDocument.keep]
    cases htabs : d.stripTabs with
    | false => simp [pending, htabs, d.noTabs htabs]
    | true =>
      obtain ⟨c, hc, hword, -, -⟩ := d.isPlain.isWordText.starts
      obtain ⟨more, hchars⟩ := List.head?_eq_some_iff.1 hc
      have htab : c ≠ '\t' := by
        rintro rfl
        cases hword
      rw [if_pos (by exact htabs), List.dropWhile_append_of_pos (by simp), pending, hchars]
      simp [htab]
  have hlines : ∀ line ∈ d.lines.map String.toList,
      '\n' ∉ line ∧ d.pending.keep line ≠ d.pending.delimiter := by
    intro chars hmem
    obtain ⟨line, hline, rfl⟩ := List.mem_map.1 hmem
    exact ⟨d.noFeed line hline, d.isOpen line hline⟩
  have hread := PendingDocument.readBody_lines hlast hkept hlines "" 0 rest
  rw [List.map_map, List.length_map, Nat.zero_add, String.empty_append] at hread
  rw [text, List.append_assoc, List.append_assoc, List.singleton_append]
  exact hread

end WrittenDocument

/-! ## Plain words -/

/-- A plain word is a delimiter without quotes. -/
theorem isQuotedDelimiter_of_plain {word : List Char} (h : ∀ c ∈ word, c ∉ Delimiter.marks) :
    isQuotedDelimiter word = false := by
  rw [isQuotedDelimiter, List.any_eq_false]
  intro c hc
  have hmark := h c hc
  simp only [Delimiter.marks, List.mem_cons, List.not_mem_nil, or_false, not_or] at hmark
  simp [hmark]

theorem unquoteDelimiter_of_plain {word : List Char} (h : ∀ c ∈ word, c ∉ Delimiter.marks) :
    unquoteDelimiter word = word := by
  induction word with
  | nil => rfl
  | cons c word ih =>
    obtain ⟨hmark, hword⟩ := List.forall_mem_cons.1 h
    simp only [Delimiter.marks, List.mem_cons, List.not_mem_nil, or_false, not_or] at hmark
    rw [unquoteDelimiter]
    · simp [hmark, ih hword]
    · simp [hmark]

namespace Scanner

/-- **A plain word** is taken off the text in front of a blank or a line end. -/
theorem run_plainWord {s : Scanner} {text : String} {rest : List Char} (htext : IsPlainWord text)
    (hs : s.rest = text.toList ++ rest) (hrest : ∀ c ∈ rest.head?, c = ' ' ∨ c = '\n') :
    s.run = run { (s.noteDelimiter text.toList).emit .word text none with rest := rest } := by
  obtain ⟨c, hc, hword, hescape, hcomment⟩ := htext.isWordText.starts
  obtain ⟨more, hchars⟩ := List.head?_eq_some_iff.1 hc
  have hs' : s.rest = c :: (more ++ rest) := by rw [hs, hchars, List.cons_append]
  have hsame : { s with rest := c :: (more ++ rest) } = s := by rw [← hs']
  have hdescriptor : descriptor? (c :: (more ++ rest)) = none := by
    rw [← List.cons_append, ← hchars]
    exact descriptor?_of_plain (fun c hc => (htext.chars c hc).1) fun c hc =>
      not_descriptor_of_blank (hrest c hc)
  have hscan : Delimiter.scan isMetacharacter [] [] s.rest = .ok (text.toList.reverse, rest) := by
    rw [hs, Delimiter.passes_of_plain htext.chars, List.append_nil]
    refine Delimiter.scan_stop _ fun c hc => ?_
    rcases hrest c hc with rfl | rfl <;> rfl
  have hlines : text.toList.reverse.count '\n' = 0 := by
    refine List.count_eq_zero.2 fun hmem => ?_
    have hfeed := (htext.chars _ (List.mem_reverse.1 hmem)).1
    exact absurd hfeed (by decide)
  have hstep := s.step_word_of_descriptor hword hdescriptor (by simp [hescape]) hcomment
  rw [hsame, readWord_of_scan _ _ hscan, List.reverse_reverse, String.ofList_toList, hlines] at hstep
  rw [run_of_step hs' hstep]
  simp only [emit, Nat.add_zero, noteDelimiter_line]

/-- **An operator and its delimiter** are taken off the text, and a document is due. -/
theorem run_introduction (d : WrittenDocument) {s : Scanner} {rest : List Char}
    (hs : s.rest = d.introduction ++ rest) (hline : s.line = 1)
    (hrest : ∀ c ∈ rest.head?, c = ' ' ∨ c = '\n') :
    s.run = run { s with
      rest := rest
      tokens := (d.tokens "").reverse ++ s.tokens
      pending := s.pending ++ [d.pending] } := by
  obtain ⟨start, line, tokens, pending, bodies⟩ := s
  obtain rfl : line = 1 := hline
  obtain rfl : start = d.introduction ++ rest := hs
  obtain ⟨c, hc, hword, -, -⟩ := d.isPlain.isWordText.starts
  obtain ⟨more, hchars⟩ := List.head?_eq_some_iff.1 hc
  have hdash : c ≠ '-' := fun heq => d.noDash (heq ▸ hc)
  have hless : c ≠ '<' := by
    rintro rfl
    cases hword
  have hkind : TokenKind.operator? (d.operator.spelling.toList ++ (d.delimiter.toList ++ rest)) =
      some (.redirect d.operator, d.delimiter.toList ++ rest) := by
    rw [hchars]
    unfold WrittenDocument.operator
    split
    · rfl
    · change TokenKind.operator? ('<' :: '<' :: c :: (more ++ rest)) = _
      simp [TokenKind.operator?, hdash, hless]
  obtain ⟨first, hfirst⟩ : ∃ first, d.operator.spelling.toList = '<' :: first := by
    unfold WrittenDocument.operator
    split <;> exact ⟨_, rfl⟩
  have hblank : d.introduction ++ rest = ' ' :: '<' :: (first ++ (d.delimiter.toList ++ rest)) := by
    simp [WrittenDocument.introduction, hfirst]
  have hoperator := step_operator
    ⟨'<' :: (first ++ (d.delimiter.toList ++ rest)), 1, tokens, pending, bodies⟩ _ _
    (by rw [← List.cons_append, ← hfirst]; exact hkind) rfl
  have hnoted : noteDelimiter ⟨d.delimiter.toList ++ rest, 1,
      ⟨.redirect d.operator, d.operator.spelling, 1, none, none⟩ :: tokens, pending, bodies⟩
        d.delimiter.toList = ⟨d.delimiter.toList ++ rest, 1, (d.tokens "").reverse.tail ++ tokens,
          pending ++ [d.pending], bodies⟩ := by
    have hplain : ∀ c ∈ d.delimiter.toList, c ∉ Delimiter.marks := fun c hc =>
      (d.isPlain.chars c hc).2
    have htakes : d.operator.takesHereDocument = true ∧
        (d.operator == .hereDocumentTabs) = d.stripTabs := by
      unfold WrittenDocument.operator
      cases d.stripTabs <;> exact ⟨rfl, rfl⟩
    simp [noteDelimiter, htakes, unquoteDelimiter_of_plain hplain, isQuotedDelimiter_of_plain hplain,
      WrittenDocument.tokens, WrittenDocument.pending]
  calc
    _ = run ⟨'<' :: (first ++ (d.delimiter.toList ++ rest)), 1, tokens, pending, bodies⟩ :=
      run_blank hblank
    _ = _ := run_of_step rfl hoperator
    _ = _ := run_plainWord d.isPlain rfl hrest
    _ = _ := by
      simp only [emit, TokenKind.spelling, hnoted]
      rfl

/-- **The operators and delimiters** of all documents. -/
theorem run_introductions (docs : List WrittenDocument) {s : Scanner} {rest : List Char}
    (hs : s.rest = docs.flatMap WrittenDocument.introduction ++ '\n' :: rest) (hline : s.line = 1) :
    s.run = run { s with
      rest := '\n' :: rest
      tokens := (docs.flatMap (·.tokens "")).reverse ++ s.tokens
      pending := s.pending ++ docs.map WrittenDocument.pending } := by
  induction docs generalizing s with
  | nil =>
    obtain ⟨rest', line, tokens, pending, bodies⟩ := s
    obtain rfl : rest' = '\n' :: rest := hs
    simp
  | cons d docs ih =>
    rw [List.flatMap_cons, List.append_assoc] at hs
    have hnext : ∀ c ∈ (docs.flatMap WrittenDocument.introduction ++ '\n' :: rest).head?,
        c = ' ' ∨ c = '\n' := by
      intro c hc
      cases docs with
      | nil => exact .inr (Option.some.inj hc).symm
      | cons d docs => exact .inl (Option.some.inj hc).symm
    rw [run_introduction d hs hline hnext]
    refine (ih (s := ⟨_, s.line, _, _, _⟩) rfl hline).trans ?_
    simp

/-- **The lines below** are read as the bodies of the documents. -/
theorem readBodies_texts (docs : List WrittenDocument) {s : Scanner} {rest : List Char}
    (hs : s.rest = docs.flatMap WrittenDocument.text ++ rest) :
    s.readBodies (docs.map WrittenDocument.pending) = { s with
      rest := rest
      line := s.line + (docs.map WrittenDocument.height).sum
      pending := []
      bodies := (docs.map WrittenDocument.body).reverse ++ s.bodies } := by
  induction docs generalizing s with
  | nil =>
    obtain ⟨rest', line, tokens, pending, bodies⟩ := s
    obtain rfl : rest' = rest := hs
    rfl
  | cons d docs ih =>
    rw [List.flatMap_cons, List.append_assoc] at hs
    have hread := d.readBody_text (docs.flatMap WrittenDocument.text ++ rest)
    rw [List.map_cons, readBodies, hs, hread]
    simp only
    rw [ih rfl]
    simp [Nat.add_assoc]

/-- The text behind the documents is all that is left, with the tokens of the first line and the
bodies before it. -/
theorem run_documents {command : String} (hcommand : IsPlainWord command)
    (docs : List WrittenDocument) (rest : String) :
    ∃ earlier : Scanner,
      (start (WrittenDocument.written command docs ++ rest)).run =
        ((start rest).after earlier (WrittenDocument.heightOf docs)).run ∧
      earlier.tokens = ⟨.newline, "\n", 1, none, none⟩ ::
        ((docs.flatMap (·.tokens "")).reverse ++ [⟨.word, command, 1, none, none⟩]) ∧
      earlier.bodies = (docs.map WrittenDocument.body).reverse := by
  let below := docs.flatMap WrittenDocument.text ++ rest.toList
  let onLine := docs.flatMap WrittenDocument.introduction ++ '\n' :: below
  let name : Token := ⟨.word, command, 1, none, none⟩
  let tokens := (docs.flatMap (·.tokens "")).reverse ++ [name]
  have hstart : start (WrittenDocument.written command docs ++ rest) =
      ⟨command.toList ++ onLine, 1, [], [], []⟩ := by
    simp [start, WrittenDocument.written, onLine, below]
  have hblank : ∀ c ∈ onLine.head?, c = ' ' ∨ c = '\n' := by
    intro c hc
    cases docs with
    | nil => exact .inr (Option.some.inj hc).symm
    | cons d docs => exact .inl (Option.some.inj hc).symm
  let lineEnd : Token := ⟨.newline, "\n", 1, none, none⟩
  refine ⟨⟨[], 1, lineEnd :: tokens, [], (docs.map WrittenDocument.body).reverse⟩, ?_, rfl, rfl⟩
  calc
    _ = run ⟨command.toList ++ onLine, 1, [], [], []⟩ := by rw [hstart]
    _ = run ⟨onLine, 1, [name], [], []⟩ := run_plainWord hcommand rfl hblank
    _ = run ⟨'\n' :: below, 1, tokens, docs.map WrittenDocument.pending, []⟩ :=
      run_introductions docs rfl rfl
    _ = run (readBodies ⟨below, 2, lineEnd :: tokens, docs.map WrittenDocument.pending, []⟩
        (docs.map WrittenDocument.pending)) := run_of_step rfl (step_newline _ _)
    _ = _ := by
      rw [readBodies_texts docs rfl]
      simp [start, after, WrittenDocument.heightOf, ← Nat.add_assoc]

end Scanner

theorem attachBodies_documents (done : List Token) (docs : List WrittenDocument) :
    attachBodies done (docs.map WrittenDocument.body) (docs.flatMap (·.tokens "")) =
      done.reverse ++ docs.flatMap fun d => d.tokens d.body := by
  induction docs generalizing done with
  | nil => simp [attachBodies]
  | cons d docs ih =>
    refine (ih ((d.tokens d.body).reverse ++ done)).trans ?_
    simp

/-- **The here-documents of a line.** The operator of each document gets the lines of this document,
each with a line feed and without tabs at its start where they are dropped. The tokens after the
line are those of the text behind the documents, as far down as that text is; and if the text cannot
be read, neither can the whole, for the same reason. -/
theorem TokenStream.ofText_documents {command : String} (hcommand : IsPlainWord command)
    (docs : List WrittenDocument) (rest : String) :
    ofText (WrittenDocument.written command docs ++ rest) =
      ((ofText rest).mapError (·.mapLine (· + WrittenDocument.heightOf docs))).map fun stream =>
        ⟨WrittenDocument.firstLine command docs ++
          stream.tokens.map (Token.mapLine (· + WrittenDocument.heightOf docs)),
          stream.lastLine + WrittenDocument.heightOf docs⟩ := by
  have hofText (text : String) : ofText text = (Scanner.start text).run.map fun s =>
      ⟨attachBodies [] s.bodies.reverse s.tokens.reverse, s.line⟩ := by
    rw [ofText, Scanner.start]
    cases Scanner.run ⟨text.toList, 1, [], [], []⟩ <;> rfl
  obtain ⟨earlier, hrun, htokens, hbodies⟩ := Scanner.run_documents hcommand docs rest
  have hearlier : Reader.StartsLine earlier.tokens := by simp [Reader.StartsLine, htokens]
  rw [hofText, hofText, hrun, Scanner.run_after hearlier]
  cases (Scanner.start rest).run with
  | error e => rfl
  | ok t =>
    let name : Token := ⟨.word, command, 1, none, none⟩
    have hcount : (name :: docs.flatMap (·.tokens "")).countP (·.hereDocument.isSome) =
        (docs.map WrittenDocument.body).length := by
      simp [name, WrittenDocument.tokens, List.countP_flatMap, Function.comp_def]
    have hfirst : attachBodies [] (docs.map WrittenDocument.body)
        (name :: docs.flatMap (·.tokens "")) =
        name :: docs.flatMap fun d => d.tokens d.body :=
      attachBodies_documents [name] docs
    have hlater : attachBodies [] t.bodies.reverse
        (t.tokens.reverse.map (Token.mapLine (· + WrittenDocument.heightOf docs))) =
        (attachBodies [] t.bodies.reverse t.tokens.reverse).map
          (Token.mapLine (· + WrittenDocument.heightOf docs)) :=
      attachBodies_mapLine _ [] _ _
    have hall := attachBodies_append hcount [] t.bodies.reverse (⟨.newline, "\n", 1, none, none⟩ ::
      t.tokens.reverse.map (Token.mapLine (· + WrittenDocument.heightOf docs)))
    rw [hfirst, attachBodies_lineEnd_cons, hlater] at hall
    simpa [Scanner.outcomeAfter, Scanner.after, hbodies, htokens, WrittenDocument.firstLine, name,
      Except.map, Except.mapError] using hall

/-- Two documents on one line: one with a line that only looks like its delimiter, and one without
its tabs. -/
theorem TokenStream.ofText_documents_two : IsPlainWord "cat" ∧
    ofText "cat <<EOF <<-B\n$x\n\tEOF\nEOF\n\t\tb\n\n\tB\necho" = .ok ⟨[
      ⟨.word, "cat", 1, none, none⟩,
      ⟨.redirect .hereDocument, "<<", 1, none, some ⟨"EOF", false, false, "$x\n\tEOF\n"⟩⟩,
      ⟨.word, "EOF", 1, none, none⟩,
      ⟨.redirect .hereDocumentTabs, "<<-", 1, none, some ⟨"B", false, true, "b\n\n"⟩⟩,
      ⟨.word, "B", 1, none, none⟩,
      ⟨.newline, "\n", 1, none, none⟩,
      ⟨.word, "echo", 8, none, none⟩], 8⟩ := by
  have hcat : IsPlainWord "cat" := isPlainWord_of_isName (by decide)
  let plain : WrittenDocument := ⟨false, "EOF", ["$x", "\tEOF"], 0, isPlainWord_of_isName (by decide),
    by decide, by decide, by decide, fun _ => rfl⟩
  let stripped : WrittenDocument := ⟨true, "B", ["\t\tb", ""], 1, isPlainWord_of_isName (by decide),
    by decide, by decide, by decide, by decide⟩
  have htext : WrittenDocument.written "cat" [plain, stripped] ++ "echo" =
      "cat <<EOF <<-B\n$x\n\tEOF\nEOF\n\t\tb\n\n\tB\necho" := by cbv
  have hrest : ofText "echo" = .ok ⟨[⟨.word, "echo", 1, none, none⟩], 1⟩ := by cbv
  have hdocuments := ofText_documents hcat [plain, stripped] "echo"
  rw [htext, hrest] at hdocuments
  refine ⟨hcat, hdocuments.trans ?_⟩
  cbv

end VirtualShell
