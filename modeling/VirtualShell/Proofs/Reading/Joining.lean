import VirtualShell.Proofs.Quoting.HereDocument
import VirtualShell.Proofs.Reading.CommandLayout
import VirtualShell.Proofs.Reading.Following
import VirtualShell.Proofs.Reading.Numeral

/-!
# Scripts that a line end joins

Two scripts with a line end between them are one script with the statements of both. The lexer comes
to the line end as it comes to the end of the first text, if no backslash escapes the line end and no
here-document takes the second text for its lines. From there it takes the second text as it would
take it by itself, some lines further down.

A here-document at the end of the first text takes the line end with its last line. Then no token
stands for it, but the tokens of the first text end with a line end already.

* `Scanner.closesDocuments` — each here-document has its last line.
* `Scanner.run_followedBy` — the run over the first text.
* `Scanner.run_after` — the run over the second text, after the tokens of the first.
* `TokenStream.ofText_join` — the tokens of both.
* **`Script.parse_join`** — the statements of both.
-/

namespace VirtualShell

/-! ## The first text -/

namespace Scanner

/-- **Each here-document has its last line**: the lines that are due after a line end are there, and
no lines are due at the end of the text. -/
def closesDocuments (s : Scanner) : Bool :=
  match hs : s.rest with
  | [] => s.pending.isEmpty
  | c :: rest =>
    (c != '\n' || (openDocument? s.pending rest).isNone) &&
      match h : s.step c rest with
      | .error _ => true
      | .ok next =>
        have : next.rest.length < s.rest.length := hs ▸ step_length_lt h
        next.closesDocuments
termination_by s.rest.length

theorem closesDocuments_of_nil {s : Scanner} (hs : s.rest = []) :
    s.closesDocuments = s.pending.isEmpty := by
  rw [closesDocuments]
  split
  · rfl
  · next h =>
    rw [hs] at h
    cases h

theorem closesDocuments_of_step {s next : Scanner} {c : Char} {rest : List Char}
    (hs : s.rest = c :: rest) (hstep : s.step c rest = .ok next) :
    s.closesDocuments =
      ((c != '\n' || (openDocument? s.pending rest).isNone) && next.closesDocuments) := by
  rw [closesDocuments]
  split
  · next h =>
    rw [hs] at h
    cases h
  · next h =>
    rw [hs] at h
    cases h
    split
    · next h => rw [hstep] at h; cases h
    · next h => rw [hstep] at h; cases h; rfl

@[simp] theorem readBodies_pending (s : Scanner) (docs : List PendingDocument) :
    (s.readBodies docs).pending = [] := by
  induction docs generalizing s with
  | nil => rfl
  | cons doc docs ih => exact ih _

/-- **Here-documents that have their last lines** have the same lines, and the last of them takes the
line end with it where its last line is the last of the text. -/
theorem readBodies_followedBy (more : List Char) {s : Scanner} {docs : List PendingDocument}
    (h : openDocument? docs s.rest = none) :
    (s.followedBy more).readBodies docs = (s.readBodies docs).followedBy more ∨
      (s.readBodies docs).rest = [] ∧
        (s.followedBy more).readBodies docs = { s.readBodies docs with rest := more } := by
  induction docs generalizing s with
  | nil => exact .inl rfl
  | cons doc docs ih =>
    simp only [readBodies, followedBy]
    rw [openDocument?] at h
    split at h
    · next rest hafter =>
      obtain ⟨body, count, hread, ⟨hread', -⟩ | ⟨hread', rfl⟩⟩ :=
        doc.readBody_followedBy more hafter "" 0 <;> rw [hread, hread']
      · exact ih (s := ⟨rest, _, _, _, _⟩) h
      · cases docs with
        | nil => exact .inr ⟨rfl, rfl⟩
        | cons doc' docs =>
          rw [openDocument?, PendingDocument.after?] at h
          cases h
    · cases h

/-- **What a run over the first text leads to**: the second text is left, after a line end, and there
is a token for the line end that was not there before, unless it went with a here-document. -/
structure Joins (t : Scanner) (more : List Char) (u : Scanner) : Prop where
  done : t.pending = []
  rest : u.rest = more
  pending : u.pending = []
  bodies : u.bodies = t.bodies
  tokens : ∃ line earlier, u.tokens = ⟨.newline, "\n", line, none, none⟩ :: earlier ∧
    (t.tokens = earlier ∨ t.tokens = u.tokens)

/-- Bodies that are read do not go back to an earlier line. -/
theorem readBodies_line_le (s : Scanner) (docs : List PendingDocument) :
    s.line ≤ (s.readBodies docs).line := by
  induction docs generalizing s with
  | nil => exact Nat.le_refl _
  | cons doc docs ih => exact Nat.le_trans (Nat.le_add_right _ _) (ih ⟨_, _, _, _, _⟩)

theorem step_line_le {s next : Scanner} {c : Char} {rest : List Char} (hs : s.rest = c :: rest)
    (h : s.step c rest = .ok next) : s.line ≤ next.line := by
  obtain ⟨text, -, htakes⟩ := step_takes hs h
  cases htakes with
  | blank | comment | operator => exact Nat.le_refl _
  | joint => exact Nat.le_succ _
  | lineEnd hnext =>
    subst hnext
    exact Nat.le_trans (Nat.le_succ _) (readBodies_line_le ⟨_, _, _, _, _⟩ _)
  | arithmetic | word => exact Nat.le_add_right _ _

/-- **A run over the first text** leads to the second one. -/
theorem run_followedBy (more : List Char) {s t : Scanner} (h : s.run = .ok t) (hplain : EndsPlain s.rest)
    (hdocs : s.closesDocuments = true) :
    ∃ u, (s.followedBy more).run = u.run ∧ s.line ≤ u.line ∧ t.Joins more u := by
  fun_induction run s with
  | case1 s hs =>
    obtain rfl : s = t := Except.ok.inj h
    have hrest : (s.followedBy more).rest = '\n' :: more := by rw [followedBy, hs, List.nil_append]
    have hpending : s.pending = [] := by simpa [closesDocuments_of_nil hs] using hdocs
    refine ⟨_, run_of_step hrest (step_newline _ _), ?_⟩
    rw [show (s.followedBy more).pending = [] from hpending]
    exact ⟨Nat.le_succ _, hpending, rfl, rfl, rfl, s.line, s.tokens, rfl, .inl rfl⟩
  | case2 => cases h
  | case3 s c rest hs next hstep _ ih =>
    have hline := step_line_le hs hstep
    obtain ⟨text, happend, -⟩ := step_takes hs hstep
    rw [closesDocuments_of_step hs hstep, Bool.and_eq_true] at hdocs
    obtain ⟨hnow, hlater⟩ := hdocs
    have hrest : (s.followedBy more).rest = c :: (rest ++ '\n' :: more) := by
      rw [followedBy, hs, List.cons_append]
    have hnext : (s.followedBy more).step c (rest ++ '\n' :: more) = .ok (next.followedBy more) →
        ∃ u, (s.followedBy more).run = u.run ∧ s.line ≤ u.line ∧ t.Joins more u := fun hstep' => by
      obtain ⟨u, hrun, hle, hjoins⟩ := ih h (hplain.suffix ⟨text, happend⟩) hlater
      exact ⟨u, (run_of_step hrest hstep').trans hrun, Nat.le_trans hline hle, hjoins⟩
    by_cases hc : c = '\n'
    · subst hc
      obtain rfl := Except.ok.inj ((step_newline s rest).symm.trans hstep)
      have hstep' := step_newline (s.followedBy more) (rest ++ '\n' :: more)
      rcases readBodies_followedBy more (s := ⟨rest, _, _, _, _⟩) (by simpa using hnow) with
        hboth | ⟨hend, hboth⟩
      · exact hnext (hstep'.trans (congrArg Except.ok hboth))
      · obtain rfl := Except.ok.inj ((run_of_nil hend).symm.trans h)
        exact ⟨_, run_of_step hrest (hstep'.trans (congrArg Except.ok hboth)), hline,
          readBodies_pending _ _, rfl, readBodies_pending _ _, rfl, s.line, s.tokens,
          readBodies_tokens _ _, .inr rfl⟩
    · exact hnext (step_followedBy hc hstep (hs ▸ hplain))

/-! ## The second text -/

end Scanner

/-- The line of an error is moved. -/
def SyntaxError.mapLine (f : Nat → Nat) : SyntaxError → SyntaxError
  | .lexical cause line => .lexical cause (f line)
  | .grammar cause line => .grammar cause (line.map f)
  | .integer cause => .integer cause

namespace Scanner

/-- The scanner on lines further down, after the tokens and bodies of an earlier text. -/
def after (s earlier : Scanner) (lines : Nat) : Scanner :=
  { s with
    line := s.line + lines
    tokens := s.tokens.map (Token.mapLine (· + lines)) ++ earlier.tokens
    bodies := s.bodies ++ earlier.bodies }

/-- What a reader comes to further down, after an earlier text. -/
def outcomeAfter (earlier : Scanner) (lines : Nat) :
    Except SyntaxError Scanner → Except SyntaxError Scanner
  | .ok s => .ok (s.after earlier lines)
  | .error e => .error (e.mapLine (· + lines))

section

variable {s earlier : Scanner} {lines : Nat}

theorem emit_after (s earlier : Scanner) (lines : Nat) (kind : TokenKind) (text : String)
    (descriptor : Option Nat) : (s.after earlier lines).emit kind text descriptor =
      (s.emit kind text descriptor).after earlier lines :=
  rfl

theorem readBodies_after (s earlier : Scanner) (lines : Nat) (docs : List PendingDocument) :
    (s.after earlier lines).readBodies docs = (s.readBodies docs).after earlier lines := by
  induction docs generalizing s with
  | nil => rfl
  | cons doc docs ih =>
    simp only [readBodies]
    refine Eq.trans (congrArg (readBodies · docs) ?_) (ih ⟨_, _, _, _, _⟩)
    simp [after, Nat.add_right_comm]

/-- A word after a line end is no delimiter. -/
theorem noteDelimiter_after (hearlier : Reader.StartsLine earlier.tokens) (s : Scanner)
    (word : List Char) :
    (s.after earlier lines).noteDelimiter word = (s.noteDelimiter word).after earlier lines := by
  obtain ⟨rest, line, tokens, pending, bodies⟩ := s
  rcases tokens with - | ⟨⟨kind, text, line', descriptor, document⟩, tokens⟩
  · rcases hlast : earlier.tokens with - | ⟨⟨kind, text, line', descriptor, document⟩, tokens⟩
    · simp [noteDelimiter, after, hlast]
    · obtain rfl : kind = .newline := hearlier _ (by rw [hlast]; rfl)
      simp [noteDelimiter, after, hlast]
  · cases kind with
    | redirect op =>
      simp only [noteDelimiter, after, List.map_cons, List.cons_append, Token.mapLine]
      split <;> rfl
    | _ => rfl

theorem readParens_after (s earlier : Scanner) (lines : Nat) (inner : List Char) :
    (s.after earlier lines).readParens inner = outcomeAfter earlier lines (s.readParens inner) := by
  unfold readParens
  cases Delimiter.close .paren inner with
  | error d => rfl
  | ok found =>
    dsimp only
    split
    · simp [outcomeAfter, after, emit, Token.mapLine, Nat.add_right_comm]
    · rfl

variable (hearlier : Reader.StartsLine earlier.tokens)
include hearlier

theorem readWord_after (s : Scanner) :
    (s.after earlier lines).readWord = outcomeAfter earlier lines s.readWord := by
  unfold readWord
  rw [show (s.after earlier lines).rest = s.rest from rfl]
  cases Delimiter.scan isMetacharacter [] [] s.rest with
  | error d => rfl
  | ok found =>
    simp only [noteDelimiter_after hearlier, emit_after]
    simp [outcomeAfter, after, emit, Nat.add_right_comm]

theorem readOperator_after (s : Scanner) (descriptor : Option Nat) :
    (s.after earlier lines).readOperator descriptor =
      outcomeAfter earlier lines (s.readOperator descriptor) := by
  unfold readOperator
  rw [show (s.after earlier lines).rest = s.rest from rfl]
  cases TokenKind.operator? s.rest with
  | none => exact readWord_after hearlier s
  | some found => rfl

/-- **A step** takes the same construct off the text, or fails in the same way. -/
theorem step_after (s : Scanner) (c : Char) (rest : List Char) :
    (s.after earlier lines).step c rest = outcomeAfter earlier lines (s.step c rest) := by
  unfold step
  split_ifs
  · rfl
  · simp [outcomeAfter, after, Nat.add_right_comm]
  · rfl
  · rw [outcomeAfter, ← readBodies_after]
    simp [after, emit, Token.mapLine, Nat.add_right_comm]
  · exact readParens_after { s with rest := c :: rest } earlier lines rest
  · cases descriptor? (c :: rest) with
    | none => exact readOperator_after hearlier { s with rest := c :: rest } none
    | some found =>
      dsimp only
      cases Text.readDecimal (String.ofList found.1) with
      | error cause => rfl
      | ok fd => exact readOperator_after hearlier { s with rest := found.2 } (some fd.toNat)

/-- **A run over the second text.** -/
theorem run_after (s : Scanner) :
    (s.after earlier lines).run = outcomeAfter earlier lines s.run := by
  have hrest {s : Scanner} {c : Char} {rest : List Char} (hs : s.rest = c :: rest) :
      (s.after earlier lines).rest = c :: rest := hs
  fun_induction run s with
  | case1 s hs => exact run_of_nil hs
  | case2 s c rest hs e hstep =>
    exact run_of_error (hrest hs) (by rw [step_after hearlier, hstep]; rfl)
  | case3 s c rest hs next hstep _ ih =>
    exact (run_of_step (hrest hs) (by rw [step_after hearlier, hstep]; rfl)).trans ih

end

/-! ## Bodies -/

/-- **There is a body for each here-document**, or it is still to come. The token that was read last
has none, and so the word after it may give it one. -/
structure Matched (s : Scanner) : Prop where
  count : s.tokens.countP (·.hereDocument.isSome) = s.bodies.length + s.pending.length
  fresh : ∀ t ∈ s.tokens.head?, t.hereDocument = none

theorem readBodies_bodies_length (s : Scanner) (docs : List PendingDocument) :
    (s.readBodies docs).bodies.length = s.bodies.length + docs.length := by
  induction docs generalizing s with
  | nil => rfl
  | cons doc docs ih =>
    rw [readBodies, ih ⟨_, _, _, _, _⟩, List.length_cons, List.length_cons]
    omega

theorem count_noteDelimiter {s : Scanner} (h : s.Matched) (word : List Char) :
    (s.noteDelimiter word).tokens.countP (·.hereDocument.isSome) =
      (s.noteDelimiter word).bodies.length + (s.noteDelimiter word).pending.length := by
  have hcount := h.count
  unfold noteDelimiter
  split
  · next op text line fd document earlier htokens =>
    split
    · obtain rfl : document = none := h.fresh _ (by rw [htokens]; rfl)
      rw [htokens] at hcount
      simp at hcount ⊢
      omega
    · exact hcount
  · exact hcount

theorem Takes.matched {s next : Scanner} {text : List Char} (h : s.Takes text next)
    (hs : s.Matched) : next.Matched := by
  cases h with
  | blank | joint | comment => exact ⟨hs.count, hs.fresh⟩
  | lineEnd hnext =>
    subst hnext
    refine ⟨?_, by simp [emit]⟩
    rw [readBodies_tokens, readBodies_pending, readBodies_bodies_length]
    simpa [emit] using hs.count
  | arithmetic | operator => exact ⟨by simpa [emit] using hs.count, by simp [emit]⟩
  | word => exact ⟨by simpa [emit] using count_noteDelimiter hs _, by simp [emit]⟩

theorem matched_run {s t : Scanner} (h : s.run = .ok t) (hs : s.Matched) : t.Matched := by
  fun_induction run s with
  | case1 => cases h; exact hs
  | case2 => cases h
  | case3 s c rest hrest next hstep _ ih =>
    obtain ⟨text, -, htakes⟩ := step_takes hrest hstep
    exact ih h (htakes.matched hs)

end Scanner

theorem attachBodies_done (done : List Token) (bodies : List String) (tokens : List Token) :
    attachBodies done bodies tokens = done.reverse ++ attachBodies [] bodies tokens := by
  induction tokens generalizing done bodies with
  | nil => simp [attachBodies]
  | cons t tokens ih =>
    rw [attachBodies.eq_def done, attachBodies.eq_def []]
    dsimp only
    split <;> rw [ih (_ :: _), ih [_]] <;> simp

/-- A line end takes no body. -/
theorem attachBodies_lineEnd_cons (line : Nat) (bodies : List String) (tokens : List Token) :
    attachBodies [] bodies (⟨.newline, "\n", line, none, none⟩ :: tokens) =
      ⟨.newline, "\n", line, none, none⟩ :: attachBodies [] bodies tokens := by
  rw [attachBodies.eq_def]
  exact attachBodies_done [_] bodies tokens

/-- **Bodies go to the documents before them** when there are as many of them. -/
theorem attachBodies_append {bodies : List String} {tokens : List Token}
    (h : tokens.countP (·.hereDocument.isSome) = bodies.length) (done : List Token)
    (bodies' : List String) (tokens' : List Token) :
    attachBodies done (bodies ++ bodies') (tokens ++ tokens') =
      attachBodies done bodies tokens ++ attachBodies [] bodies' tokens' := by
  induction tokens generalizing done bodies with
  | nil =>
    obtain rfl : bodies = [] := List.eq_nil_of_length_eq_zero h.symm
    rw [List.nil_append, List.nil_append, attachBodies_done, attachBodies]
  | cons t tokens ih =>
    obtain ⟨kind, text, line, descriptor, - | doc⟩ := t
    · exact ih (by simpa using h) _
    · rcases bodies with - | ⟨body, bodies⟩
      · simp at h
      · exact ih (by simpa using h) _

theorem attachBodies_mapLine (f : Nat → Nat) (done : List Token) (bodies : List String)
    (tokens : List Token) :
    attachBodies (done.map (Token.mapLine f)) bodies (tokens.map (Token.mapLine f)) =
      (attachBodies done bodies tokens).map (Token.mapLine f) := by
  induction tokens generalizing done bodies with
  | nil => exact List.map_reverse.symm
  | cons t tokens ih =>
    obtain ⟨kind, text, line, descriptor, - | doc⟩ := t
    · exact ih (_ :: done) bodies
    · rcases bodies with - | ⟨body, bodies⟩
      · exact ih (_ :: done) []
      · exact ih (⟨kind, text, line, descriptor, some { doc with body := body }⟩ :: done) bodies

/-- **The tokens of both texts**, on the lines where they stand, and a line end between them. The
line end may go with a here-document that ends the first text: then there is one before it. -/
theorem TokenStream.ofText_join {a b : String} {first second : TokenStream}
    (ha : ofText a = .ok first) (hb : ofText b = .ok second) (hplain : EndsPlain a.toList)
    (hdocs : (Scanner.start a).closesDocuments = true) :
    ∃ stream lineEnd lines, ofText (a ++ "\n" ++ b) = .ok stream ∧ lineEnd.kind = .newline ∧
      Token.condense id stream.tokens = Token.condense id
        (first.tokens ++ lineEnd :: second.tokens.map (Token.mapLine (· + lines))) := by
  obtain ⟨t, ht, rfl⟩ := ofText_eq_ok_iff.1 ha
  obtain ⟨v, hv, rfl⟩ := ofText_eq_ok_iff.1 hb
  obtain ⟨u, hrun, hle, hdone, hrest, hpending, hbodies, line, earlier, htokens, hearlier⟩ :=
    Scanner.run_followedBy b.toList ht hplain hdocs
  obtain ⟨lines, hlines⟩ : ∃ lines, u.line = 1 + lines := Nat.exists_eq_add_of_le hle
  have hboth : (Scanner.start (a ++ "\n" ++ b)).run = .ok (v.after u lines) := by
    have hfollowed : Scanner.start (a ++ "\n" ++ b) = (Scanner.start a).followedBy b.toList := by
      simp [Scanner.start, Scanner.followedBy]
    have hafter : u = (Scanner.start b).after u lines := by
      obtain ⟨rest, line, tokens, pending, bodies⟩ := u
      obtain rfl : rest = b.toList := hrest
      obtain rfl : pending = [] := hpending
      obtain rfl : line = 1 + lines := hlines
      rfl
    rw [hfollowed, hrun, hafter, Scanner.run_after (by simp [Reader.StartsLine, htokens]), hv]
    rfl
  refine ⟨_, ⟨.newline, "\n", line, none, none⟩, lines, ofText_eq_ok_iff.2 ⟨_, hboth, rfl⟩, rfl, ?_⟩
  have hcount : earlier.reverse.countP (·.hereDocument.isSome) = t.bodies.reverse.length := by
    have hmatched := (Scanner.matched_run ht ⟨rfl, by simp [Scanner.start]⟩).count
    rw [hdone] at hmatched
    rcases hearlier with rfl | hsame
    · simpa using hmatched
    · simpa [hsame, htokens] using hmatched
  have hattach (bodies : List String) (tokens : List Token) :
      attachBodies [] (t.bodies.reverse ++ bodies)
        (earlier.reverse ++ ⟨.newline, "\n", line, none, none⟩ :: tokens) =
      attachBodies [] t.bodies.reverse earlier.reverse ++
        ⟨.newline, "\n", line, none, none⟩ :: attachBodies [] bodies tokens := by
    rw [attachBodies_append hcount, attachBodies_lineEnd_cons]
  have hsecond := attachBodies_mapLine (· + lines) [] v.bodies.reverse v.tokens.reverse
  have hattached : attachBodies [] (v.after u lines).bodies.reverse
      (v.after u lines).tokens.reverse =
      attachBodies [] t.bodies.reverse earlier.reverse ++ ⟨.newline, "\n", line, none, none⟩ ::
        (attachBodies [] v.bodies.reverse v.tokens.reverse).map (Token.mapLine (· + lines)) := by
    simpa [Scanner.after, hbodies, htokens, ← hsecond] using hattach v.bodies.reverse _
  rw [hattached]
  rcases hearlier with rfl | hsame
  · rfl
  · have hfirst := hattach [] []
    rw [List.append_nil, attachBodies, List.reverse_nil] at hfirst
    rw [hsame, htokens, List.reverse_cons, hfirst, List.append_assoc]
    exact (Token.condense_append_lineEnds rfl rfl _ _).symm

/-! ## Statements -/

/-- **Scripts that a line end joins** are one script with the statements of both, those of the second
one some lines further down. -/
theorem Script.parse_join {a b : String} {first second : Script} (ha : parse a = .ok first)
    (hb : parse b = .ok second) (hplain : EndsPlain a.toList)
    (hdocs : (Scanner.start a).closesDocuments = true)
    (hlength : (a ++ "\n" ++ b).length ≤ maxScriptLength)
    (hcount : ∀ stream, TokenStream.ofText (a ++ "\n" ++ b) = .ok stream →
      stream.tokens.length + 1 ≤ maxTokenCount) :
    ∃ lines, parse (a ++ "\n" ++ b) =
      .ok ⟨first.statements ++ second.statements.map (Statement.mapLines (· + lines))⟩ := by
  have hkeeps (f : Nat → Nat) : Level.outermost.Keeps f := Level.keeps_ofDepth f maxNesting
  obtain ⟨-, streamA, hstreamA, -, hreadA⟩ := Level.Along.script_eq_ok_iff.1 ha
  obtain ⟨-, streamB, hstreamB, -, hreadB⟩ := Level.Along.script_eq_ok_iff.1 hb
  obtain ⟨stream, lineEnd, lines, hstream, hline, hsame⟩ :=
    TokenStream.ofText_join hstreamA hstreamB hplain hdocs
  -- The second text is read where it stands, and the first one in front of it.
  obtain ⟨moved, hmoved, hlines⟩ := Parser.statementList_of_condense (hkeeps (· + lines))
    (hkeeps id) _ stream.lastLine (Token.condense_map (· + lines) streamB.tokens) hreadB
  have htail : Reader.StartsLine
      (lineEnd :: streamB.tokens.map (Token.mapLine (· + lines))) := by
    simpa [Reader.StartsLine] using hline
  have hlevels : Level.Along anyText .outermost .outermost :=
    Level.along_ofDepth anyText (Nat.le_refl maxNesting)
  have halong := hlevels.statementList htail streamA.lastLine stream.lastLine
    (show anyText.tokens streamA.tokens from trivial)
  rw [hreadA] at halong
  have hboth : (Parser.statementList ⟨.outermost, stream.lastLine⟩ []).outcome
      (streamA.tokens ++ lineEnd :: streamB.tokens.map (Token.mapLine (· + lines))) =
      .ok (first.statements ++ moved, []) := by
    refine halong.2.trans ?_
    rw [if_pos rfl, Parser.Along.outcome_statements_cons hline,
      Parser.Along.outcome_statementsFrom, List.reverse_reverse]
    exact congrArg (Except.map _) hmoved
  -- Where no token stands for the line end between them, there is another one before it.
  obtain ⟨list, hread, hlist⟩ := Parser.statementList_of_condense (hkeeps id) (hkeeps id) _
    stream.lastLine hsame.symm hboth
  rw [Statement.map_mapLines_id, Statement.map_mapLines_id] at hlist
  rw [Statement.map_mapLines_id] at hlines
  refine ⟨lines, Level.Along.script_eq_ok_iff.2 ⟨hlength, stream, hstream, hcount _ hstream, ?_⟩⟩
  rw [hread, ← hlist, hlines]

/-- A here-document and a command after it. -/
theorem Script.parse_join_document :
    let a := "cat <<'EOF'\nhi\nEOF\n"
    let b := "'echo' 'on'"
    ∃ first second lines, parse a = .ok first ∧ parse b = .ok second ∧
      parse (a ++ "\n" ++ b) =
        .ok ⟨first.statements ++ second.statements.map (Statement.mapLines (· + lines))⟩ := by
  intro a b
  have hlines : ∀ line ∈ [['h', 'i']], '\n' ∉ line ∧ line ≠ ['E', 'O', 'F'] := by decide
  have ha := parse_quotedDocument hlines (by cbv)
  rw [show quotedDocument (String.ofList (linesText [['h', 'i']])) = a by cbv] at ha
  obtain ⟨name, args, number, -, hb⟩ := Quotation.parse_line [(.single, "echo"), (.single, "on")]
    (List.cons_ne_nil _ _) (by cbv) (by cbv)
  rw [show Quotation.line [(.single, "echo"), (.single, "on")] = b by cbv] at hb
  have htokens : (TokenStream.ofText (a ++ "\n" ++ b)).toOption.all
      (fun stream => stream.tokens.length + 1 ≤ maxTokenCount) = true := by decide +kernel
  have hcount (stream : TokenStream) (hstream : TokenStream.ofText (a ++ "\n" ++ b) = .ok stream) :
      stream.tokens.length + 1 ≤ maxTokenCount := by
    simpa [hstream, Except.toOption] using htokens
  obtain ⟨lines, hjoin⟩ := parse_join ha hb (by simp [a, EndsPlain]) (by decide +kernel)
    (by decide +kernel) hcount
  exact ⟨_, _, lines, ha, hb, hjoin⟩

end VirtualShell
