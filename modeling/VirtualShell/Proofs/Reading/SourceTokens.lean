import VirtualShell.Proofs.Reading.Layout
import VirtualShell.Proofs.Reading.Source

/-!
# The tokens of a source text

The lexer finds the tokens of a source text again, each on the line where it stands. A blank after
each token ends it, and none of them asks for the lines of a here-document.

* `Delimiter.Passes` — the texts that the scan of a word passes over.
* `Token.InSource` — the tokens that a source text is made of.
* `Scanner.run_token` — such a token is taken off the text.
* **`TokenStream.ofText_source`** — all of them are.
* `Script.inSource` — the tokens of a script are such tokens.
-/

namespace VirtualShell

/-! ## Words -/

namespace Delimiter

/-- **A text that the scan of a word passes over**, whatever comes after it. -/
def Passes (text : List Char) : Prop :=
  ∀ read rest, scan isMetacharacter [] read (text ++ rest) =
    scan isMetacharacter [] (text.reverse ++ read) rest

theorem Passes.append {text text' : List Char} (h : Passes text) (h' : Passes text') :
    Passes (text ++ text') := by
  intro read rest
  rw [List.append_assoc, h, h', List.reverse_append, List.append_assoc]

theorem passes_of_plain {text : List Char}
    (h : ∀ c ∈ text, isMetacharacter c = false ∧ c ∉ marks) : Passes text := by
  induction text with
  | nil => exact fun _ _ => rfl
  | cons c text ih =>
    intro read rest
    obtain ⟨⟨hstop, hmark⟩, htext⟩ := List.forall_mem_cons.1 h
    have hgo : (([] : List Delimiter).isEmpty && isMetacharacter c) = false := hstop
    have hpass := move_pass_of_not_mem (.inl rfl) hmark (text ++ rest).head?
    rw [List.cons_append, scan_pass read (text ++ rest) hgo hpass, ih htext]
    simp

theorem passes_quoted {text : String} (h : '\'' ∉ text.toList) :
    Passes (Word.inQuotes text).raw.toList := by
  have hraw : (Word.inQuotes text).raw.toList = Quotation.single.chars text.toList := by
    rw [Quotation.chars, Quotation.flatMap_single h]
    simp [Word.inQuotes, Quotation.mark]
  rw [hraw]
  exact fun read rest => Quotation.scan_quote .single text.toList read rest

end Delimiter

/-- **The text of a word** in front of a blank. -/
structure IsWordText (text : List Char) : Prop where
  starts : ∃ c ∈ text.head?, isMetacharacter c = false ∧ c ≠ '\\' ∧ c ≠ '#'
  descriptor (more : List Char) : Scanner.descriptor? (text ++ ' ' :: more) = none
  passes : Delimiter.Passes text

/-- A word that starts with no digit starts with no descriptor. -/
theorem isWordText_cons {c : Char} {rest : List Char} (hc : isMetacharacter c = false)
    (hescape : c ≠ '\\') (hcomment : c ≠ '#') (hdigit : Text.isDigit c = false)
    (hpasses : Delimiter.Passes (c :: rest)) : IsWordText (c :: rest) :=
  ⟨⟨c, rfl, hc, hescape, hcomment⟩, fun _ => Scanner.descriptor?_of_not_digit _ hdigit, hpasses⟩

theorem Word.IsQuoted.isWordText {w : Word} (h : w.IsQuoted) : IsWordText w.raw.toList := by
  obtain ⟨text, htext, rfl⟩ := h
  have hpasses := Delimiter.passes_quoted htext
  have hraw : (inQuotes text).raw.toList = '\'' :: (text.toList ++ ['\'']) := by simp [inQuotes]
  rw [hraw] at hpasses ⊢
  exact isWordText_cons rfl (by decide) (by decide) (Text.isDigit_of_ascii (by decide)) hpasses

/-- No descriptor starts where no redirection follows the digits. -/
theorem Scanner.descriptor?_of_dropWhile {text : List Char}
    (h : ∀ c ∈ (text.dropWhile Text.isDigit).head?, c ≠ '<' ∧ c ≠ '>') :
    descriptor? text = none := by
  unfold descriptor?
  dsimp only
  split
  · next c rest hrest =>
    rw [hrest] at h
    simp [h c rfl]
  · rfl

/-- None starts with ordinary characters in front of something that is no digit and redirects
nothing. -/
theorem Scanner.descriptor?_of_plain {text rest : List Char}
    (h : ∀ c ∈ text, isMetacharacter c = false)
    (hrest : ∀ c ∈ rest.head?, Text.isDigit c = false ∧ c ≠ '<' ∧ c ≠ '>') :
    descriptor? (text ++ rest) = none := by
  refine descriptor?_of_dropWhile fun c hc => ?_
  rw [List.dropWhile_append] at hc
  split at hc
  · cases rest with
    | nil => cases hc
    | cons x rest =>
      obtain ⟨hdigit, hother⟩ := hrest x rfl
      rw [List.dropWhile_cons_of_neg (by simp [hdigit])] at hc
      cases hc
      exact hother
  · rw [List.head?_append] at hc
    have hmem : c ∈ text := by
      cases hdrop : text.dropWhile Text.isDigit with
      | nil => simp_all
      | cons x rest =>
        rw [hdrop] at hc
        cases hc
        exact (List.dropWhile_sublist _).subset (hdrop ▸ List.mem_cons_self)
    have hother := h c hmem
    constructor <;> rintro rfl <;> cases hother

/-- The blank is such a character, and so is a line feed. -/
theorem not_descriptor_of_blank {c : Char} (h : c = ' ' ∨ c = '\n') :
    Text.isDigit c = false ∧ c ≠ '<' ∧ c ≠ '>' := by
  rcases h with rfl | rfl <;> exact ⟨Text.isDigit_of_ascii (by decide), by decide, by decide⟩

theorem IsPlainWord.isWordText {text : String} (h : IsPlainWord text) :
    IsWordText text.toList := by
  refine ⟨?_, fun more => Scanner.descriptor?_of_plain (fun c hc => (h.chars c hc).1) fun c hc =>
    not_descriptor_of_blank (.inl (Option.some.inj hc).symm), Delimiter.passes_of_plain h.chars⟩
  cases htext : text.toList with
  | nil => exact absurd (String.toList_eq_nil_iff.1 htext) h.nonempty
  | cons c rest =>
    have hc := h.chars c (by rw [htext]; exact List.mem_cons_self)
    refine ⟨c, rfl, hc.1, ?_, fun heq => h.start (by rw [htext, heq]; rfl)⟩
    rintro rfl
    exact hc.2 (by decide)

/-- The characters of names are ordinary. -/
theorem plain_of_isNameChar {c : Char} (h : Text.isNameChar c = true) :
    isMetacharacter c = false ∧ c ∉ Delimiter.marks := by
  have hother (x : Char) (hx : x ∈ ' ' :: '\t' :: '\n' :: (operatorStarts ++ Delimiter.marks)) :
      x ≠ c := by
    have hall : (' ' :: '\t' :: '\n' :: (operatorStarts ++ Delimiter.marks)).all
        (!Text.isNameChar ·) = true := by decide
    rintro rfl
    have hnone := List.all_eq_true.1 hall x hx
    rw [h] at hnone
    cases hnone
  constructor
  · rw [Bool.eq_false_iff]
    intro hc
    refine hother c ?_ rfl
    exact List.mem_append_left Delimiter.marks (isMetacharacter_iff.1 hc)
  · intro hc
    exact hother c (List.mem_append_right (' ' :: '\t' :: '\n' :: operatorStarts) hc) rfl

theorem isPlainWord_of_isName {name : String} (h : Arith.isName name = true) :
    IsPlainWord name := by
  obtain ⟨c, rest, hname, hstart, hrest⟩ := Arith.exists_cons_of_isName h
  refine ⟨?_, ?_, ?_⟩
  · rintro rfl
    cases hname
  · rw [hname]
    rintro ⟨⟩
    revert hstart
    decide
  · rw [hname]
    refine List.forall_mem_cons.2 ⟨plain_of_isNameChar ?_, fun x hx =>
      plain_of_isNameChar (hrest x hx)⟩
    rw [Text.isNameChar, hstart, Bool.true_or]

theorem Assignment.WellFormed.isWordText {a : Assignment} (h : a.WellFormed) :
    IsWordText a.text.toList := by
  obtain ⟨c, rest, hname, hstart, hrest⟩ := Arith.exists_cons_of_isName h.name
  have hchars := (isPlainWord_of_isName h.name).chars
  rw [hname] at hchars
  have hsign : Delimiter.Passes (if a.append then "+=" else "=").toList := by
    refine Delimiter.passes_of_plain ?_
    split <;> simp [isMetacharacter, Delimiter.marks]
  have hvalue : Delimiter.Passes ((a.value.map Word.raw).getD "").toList := by
    cases hv : a.value with
    | none => exact fun _ _ => rfl
    | some w =>
      obtain ⟨text, htext, rfl⟩ := h.value w hv
      exact Delimiter.passes_quoted htext
  have hpasses := ((Delimiter.passes_of_plain hchars).append hsign).append hvalue
  have htext : a.text.toList = c :: (rest ++ (if a.append then "+=" else "=").toList ++
      ((a.value.map Word.raw).getD "").toList) := by
    simp [Assignment.text, hname]
  rw [List.cons_append, List.cons_append, ← htext] at hpasses
  rw [htext] at hpasses ⊢
  refine isWordText_cons (hchars c List.mem_cons_self).1 ?_ ?_
    (Arith.isDigit_of_isNameStart hstart) hpasses <;> (rintro rfl; revert hstart; decide)

/-- The words of the grammar are plain words. -/
theorem isPlainWord_of_mem_keywords {text : String} (h : text ∈ keywords) : IsPlainWord text := by
  have hall : keywords.all (fun text => text != "" && text.toList.head? != some '#' &&
      text.toList.all fun c => !isMetacharacter c && !Delimiter.marks.contains c) = true := by
    decide
  have htext := List.all_eq_true.1 hall text h
  simp only [Bool.and_eq_true, bne_iff_ne, List.all_eq_true, Bool.not_eq_true'] at htext
  obtain ⟨⟨hnonempty, hstart⟩, hchars⟩ := htext
  exact ⟨hnonempty, hstart, fun c hc => by simpa using hchars c hc⟩

/-! ## Tokens -/

/-- The kinds of tokens that are spelled in one way and take no here-document. -/
def TokenKind.isSpelled : TokenKind → Bool
  | .word | .newline | .arithmetic => false
  | .redirect op => !op.takesHereDocument
  | _ => true

/-- **A token of a source text**: a word, a line end or an operator, and before some operators a
descriptor. -/
inductive Token.InSource : Token → Prop where
  | word (line : Nat) {text : String} (htext : IsWordText text.toList) :
    InSource (.ofWord line text)
  | lineEnd : InSource .lineEnd
  | operator (line : Nat) {kind : TokenKind} (hkind : kind.isSpelled = true) :
    InSource ⟨kind, kind.spelling, line, none, none⟩
  | descriptor (line n : Nat) {op : RedirectOp} (hop : op.takesHereDocument = false)
      (hstarts : ∃ c ∈ op.spelling.toList.head?, c = '<' ∨ c = '>')
      (hdigits : (toString n).length ≤ Text.maxDecimalDigits) :
    InSource ⟨.redirect op, op.spelling, line, some n, none⟩

/-- An operator in front of a blank is no longer one. -/
theorem TokenKind.operator?_spelling {kind : TokenKind} (h : kind.isSpelled = true)
    (more : List Char) :
    operator? (kind.spelling.toList ++ ' ' :: more) = some (kind, ' ' :: more) := by
  cases kind with
  | word | newline | arithmetic => cases h
  | connective op => cases op <;> rfl
  | clauseEnd how => cases how <;> rfl
  | redirect op => cases op <;> rfl
  | _ => rfl

/-- No two parentheses stand in front of a blank. -/
theorem TokenKind.exists_spelling {kind : TokenKind} (h : kind.isSpelled = true)
    (more : List Char) : ∃ c rest, kind.spelling.toList = c :: rest ∧
      (c == '(' && (rest ++ ' ' :: more).head? == some '(') = false := by
  cases kind with
  | word | newline | arithmetic => cases h
  | connective op => cases op <;> exact ⟨_, _, rfl, rfl⟩
  | clauseEnd how => cases how <;> exact ⟨_, _, rfl, rfl⟩
  | redirect op => cases op <;> exact ⟨_, _, rfl, rfl⟩
  | _ => exact ⟨_, _, rfl, rfl⟩

/-- It asks for no delimiter. -/
theorem Token.InSource.quiet {t : Token} (h : t.InSource) (op : RedirectOp)
    (hkind : t.kind = .redirect op) : op.takesHereDocument = false := by
  cases h with
  | word | lineEnd => cases hkind
  | operator line hspelled =>
    subst hkind
    simpa [TokenKind.isSpelled] using hspelled
  | descriptor line n hop =>
    cases hkind
    exact hop

namespace Scanner

/-- No here-document is due, and the last token asks for none. -/
structure Quiet (s : Scanner) : Prop where
  pending : s.pending = []
  last : ∀ t ∈ s.tokens.head?, ∀ op, t.kind = .redirect op → op.takesHereDocument = false

theorem Quiet.noteDelimiter {s : Scanner} (h : s.Quiet) (word : List Char) :
    s.noteDelimiter word = s := by
  unfold Scanner.noteDelimiter
  split
  · next op text line fd doc earlier htokens =>
    rw [if_neg]
    simp [h.last _ (by rw [htokens]; rfl) op rfl]
  · rfl

/-- A run of digits before a redirection is read first. -/
theorem step_digits (s : Scanner) {c : Char} {rest digits after : List Char}
    (hdescriptor : descriptor? (c :: rest) = some (digits, after)) :
    s.step c rest =
      match Text.readDecimal (String.ofList digits) with
      | .error cause => .error (.integer cause)
      | .ok n => { s with rest := after }.readOperator (some n.toNat) := by
  obtain ⟨happend, hne, hdigits⟩ := descriptor?_eq_some hdescriptor
  have hdigit : Text.isDigit c = true := by
    rcases digits with - | ⟨x, digits⟩
    · exact absurd rfl hne
    · rw [← (List.cons.inj happend).1]
      exact hdigits x List.mem_cons_self
  have hother : ∀ x ∈ [' ', '\t', '\\', '#', '\n', '('], c ≠ x := by
    rintro x hx rfl
    rw [Text.isDigit_of_mem (by decide) hx] at hdigit
    cases hdigit
  simp only [List.forall_mem_cons, List.not_mem_nil, false_imp_iff, implies_true,
    and_true] at hother
  unfold step
  rw [if_neg (by simp [hother]), if_neg (by simp [hother]), if_neg (by simp [hother]),
    if_neg (by simp [hother]), if_neg (by simp [hother])]
  generalize descriptor? (c :: rest) = found at hdescriptor ⊢
  subst hdescriptor
  rfl

/-- It is the descriptor of the redirection. -/
theorem step_descriptor (s : Scanner) {c : Char} {rest digits after more : List Char} {n : Int}
    {kind : TokenKind} (hdescriptor : descriptor? (c :: rest) = some (digits, after))
    (hread : Text.readDecimal (String.ofList digits) = .ok n)
    (hkind : TokenKind.operator? after = some (kind, more)) :
    s.step c rest = .ok ({ s with rest := more }.emit kind kind.spelling (some n.toNat)) := by
  rw [step_digits s hdescriptor, hread]
  simp only [readOperator, hkind]

/-- The descriptor in front of a redirection. -/
theorem descriptor?_toString (n : Nat) {c : Char} (hc : c = '<' ∨ c = '>') (rest : List Char) :
    descriptor? ((toString n).toList ++ c :: rest) = some ((toString n).toList, c :: rest) := by
  have hdigits : ∀ x ∈ (toString n).toList, Text.isDigit x = true := fun x hx => by
    rw [Text.isDigit, Text.isDecimal_of_isDigit (Text.isDigit_of_mem_toString hx), Bool.true_or]
  have hstop : Text.isDigit c = false := by
    rcases hc with rfl | rfl <;> exact Text.isDigit_of_ascii (by decide)
  have htake : ((toString n).toList ++ c :: rest).takeWhile Text.isDigit = (toString n).toList := by
    rw [List.takeWhile_append_of_pos hdigits, List.takeWhile_cons_of_neg (by simp [hstop]),
      List.append_nil]
  have hdrop : ((toString n).toList ++ c :: rest).dropWhile Text.isDigit = c :: rest := by
    rw [List.dropWhile_append_of_pos hdigits, List.dropWhile_cons_of_neg (by simp [hstop])]
  unfold descriptor?
  rw [htake, hdrop]
  simp [hc]

/-- **A token of a source text** is taken off the text, with the blank after it. -/
theorem run_token {t : Token} (h : t.InSource) {s : Scanner} (hs : s.Quiet) {more : List Char}
    (hrest : s.rest = t.source ++ more) : ∃ line, s.run = run { s with
      rest := more, line := line, tokens := { t with line := s.line } :: s.tokens } := by
  have hblank {next : Scanner} (hnext : next.rest = ' ' :: more) (hrun : s.run = next.run) :
      s.run = run { next with rest := more } := hrun.trans (run_blank hnext)
  cases h with
  | @word line text htext =>
    obtain ⟨c, hc, hword, hescape, hcomment⟩ := htext.starts
    obtain ⟨rest, hchars⟩ := List.head?_eq_some_iff.1 hc
    have hs' : s.rest = c :: (rest ++ ' ' :: more) := by
      simp [hrest, Token.source, Token.ofWord, hchars]
    have hsame : { s with rest := c :: (rest ++ ' ' :: more) } = s := by rw [← hs']
    have hdescriptor : descriptor? (c :: (rest ++ ' ' :: more)) = none := by
      rw [← htext.descriptor more, hchars, List.cons_append]
    have hscan : Delimiter.scan isMetacharacter [] [] s.rest =
        .ok (text.toList.reverse, ' ' :: more) := by
      rw [hs', ← List.cons_append, ← hchars, htext.passes, List.append_nil]
      exact Delimiter.scan_stop _ (by simp [isMetacharacter])
    have hstep := s.step_word_of_descriptor hword hdescriptor (by simp [hescape]) hcomment
    rw [hsame, readWord_of_scan _ _ hscan, List.reverse_reverse, hs.noteDelimiter,
      String.ofList_toList] at hstep
    exact ⟨_, hblank rfl (run_of_step hs' hstep)⟩
  | lineEnd =>
    have hstep := step_newline s (' ' :: more)
    rw [hs.pending] at hstep
    obtain ⟨rest, line, tokens, pending, bodies⟩ := s
    obtain rfl : pending = [] := hs.pending
    exact ⟨_, hblank rfl (run_of_step hrest hstep)⟩
  | @operator line kind hkind =>
    obtain ⟨c, rest, hspelling, hparens⟩ := TokenKind.exists_spelling hkind more
    have hfound := TokenKind.operator?_spelling hkind more
    have hs' : s.rest = c :: (rest ++ ' ' :: more) := by
      simp [hrest, Token.source, hspelling]
    rw [hspelling] at hfound
    exact ⟨_, hblank rfl (run_of_step hs' (step_operator s kind _ hfound hparens))⟩
  | @descriptor line n op hop hstarts hdigits =>
    obtain ⟨c, hc, hstarts⟩ := hstarts
    obtain ⟨rest, hspelling⟩ := List.head?_eq_some_iff.1 hc
    have hkind : (TokenKind.redirect op).isSpelled = true := by simp [TokenKind.isSpelled, hop]
    have hfound := TokenKind.operator?_spelling hkind more
    have hdescriptor := descriptor?_toString n hstarts (rest ++ ' ' :: more)
    have hs' : s.rest = (toString n).toList ++ c :: (rest ++ ' ' :: more) := by
      simp [hrest, Token.source, hspelling]
    obtain ⟨x, digits, hlist⟩ := Text.exists_cons_toString n
    rw [hlist, List.cons_append] at hdescriptor hs'
    have hread : Text.readDecimal (String.ofList (x :: digits)) = .ok (n : Int) := by
      rw [← hlist, String.ofList_toList]
      exact Text.readInteger_toString hdigits
    have hspelled : (TokenKind.redirect op).spelling.toList = c :: rest := hspelling
    rw [hspelled, List.cons_append] at hfound
    exact ⟨_, hblank rfl (run_of_step hs' (step_descriptor s hdescriptor hread hfound))⟩

/-- **The tokens of a source text** are taken off it, each from the line where it stands. -/
theorem run_tokens {tokens : List Token} (h : ∀ t ∈ tokens, t.InSource) {s : Scanner}
    (hs : s.Quiet) (hrest : s.rest = tokens.flatMap Token.source) :
    ∃ (line : Nat) (read : List Token),
      s.run = .ok { s with rest := [], line := line, tokens := read.reverse ++ s.tokens } ∧
      read.map (Token.mapLine fun _ => 0) = tokens.map (Token.mapLine fun _ => 0) := by
  induction tokens generalizing s with
  | nil =>
    refine ⟨s.line, [], ?_, rfl⟩
    rw [run_of_nil hrest]
    exact congrArg Except.ok (congrArg (fun rest => ({ s with rest := rest } : Scanner)) hrest)
  | cons t tokens ih =>
    obtain ⟨ht, htokens⟩ := List.forall_mem_cons.1 h
    obtain ⟨line, hrun⟩ := run_token ht hs (by rw [hrest, List.flatMap_cons])
    obtain ⟨line', read, hlater, hread⟩ := ih (s := { s with
      rest := tokens.flatMap Token.source, line := line
      tokens := { t with line := s.line } :: s.tokens }) htokens
      ⟨hs.pending, by simpa using ht.quiet⟩ rfl
    refine ⟨line', { t with line := s.line } :: read, ?_, ?_⟩
    · rw [hrun, hlater]
      simp
    · rw [List.map_cons, List.map_cons, hread]
      rfl

end Scanner

/-- **The tokens of a source text** are found again, but for the lines. -/
theorem TokenStream.ofText_source {tokens : List Token} (h : ∀ t ∈ tokens, t.InSource) :
    ∃ stream, ofText (String.ofList (tokens.flatMap Token.source)) = .ok stream ∧
      stream.tokens.map (Token.mapLine fun _ => 0) =
        tokens.map (Token.mapLine fun _ => 0) := by
  obtain ⟨line, read, hrun, hread⟩ := Scanner.run_tokens h
    (s := ⟨tokens.flatMap Token.source, 1, [], [], []⟩) ⟨rfl, by rintro t ⟨⟩⟩ rfl
  refine ⟨⟨read, line⟩, ?_, hread⟩
  rw [ofText, String.toList_ofList, hrun]
  simp [attachBodies_nil]

/-! ## Scripts -/

theorem Word.IsQuoted.inSource {w : Word} (h : w.IsQuoted) (line : Nat) :
    (Token.ofWord line w.raw).InSource :=
  .word line h.isWordText

theorem Token.inSource_keyword {text : String} (h : text ∈ keywords) : (keyword text).InSource :=
  .word 0 (isPlainWord_of_mem_keywords h).isWordText

theorem Token.inSource_ofKind {kind : TokenKind} (h : kind.isSpelled = true) :
    (ofKind kind).InSource :=
  .operator 0 h

theorem Redirection.WellFormed.inSource {r : Redirection} (h : r.WellFormed) (line : Nat) :
    ∀ t ∈ r.tokens line, t.InSource := by
  obtain ⟨hop, ⟨w, hw, htarget⟩, hstarts, hdigits⟩ := h
  obtain ⟨op, target, descriptor⟩ := r
  obtain rfl : target = .word w := htarget
  refine List.forall_mem_cons.2 ⟨?_, List.forall_mem_singleton.2 (hw.inSource line)⟩
  cases descriptor with
  | none => exact .operator line (by simpa [TokenKind.isSpelled] using hop)
  | some n => exact .descriptor line n hop (hstarts n rfl) (hdigits n rfl)

theorem SimpleCommand.WellFormed.inSource {c : SimpleCommand} (h : c.WellFormed) :
    ∀ t ∈ c.tokens, t.InSource := by
  refine List.forall_mem_append.2 ⟨List.forall_mem_append.2 ⟨?_, ?_⟩, ?_⟩
  · exact List.forall_mem_map.2 fun a ha => .word c.line (h.assignments a ha).isWordText
  · exact List.forall_mem_map.2 fun w hw => (h.words w hw).inSource c.line
  · exact List.forall_mem_flatMap.2 fun r hr => (h.redirections r hr).inSource c.line

section

variable {P : Command → Prop} (hP : ∀ c, P c → ∀ t ∈ c.tokens, t.InSource)
include hP

theorem Pipeline.Of.inSource {pipeline : Pipeline} (h : pipeline.Of P) :
    ∀ t ∈ pipeline.tokens, t.InSource := by
  obtain ⟨- | ⟨first, rest⟩, negated⟩ := pipeline
  · exact List.forall_mem_nil _
  · obtain ⟨hfirst, hrest⟩ := List.forall_mem_cons.1 h.commands
    simp only [tokens, Command.stageTokens_eq, List.forall_mem_append, List.forall_mem_flatMap,
      List.forall_mem_cons]
    refine ⟨?_, hP first hfirst, fun c hc => ⟨Token.inSource_ofKind rfl, hP c (hrest c hc)⟩⟩
    split
    · simpa using Token.inSource_keyword (by decide)
    · exact List.forall_mem_nil _

theorem Statement.Of.inSource {statement : Statement} (h : statement.Of P) :
    ∀ t ∈ statement.tokens, t.InSource := by
  obtain ⟨first, rest, background⟩ := statement
  simp only [tokens, linkTokens_eq, List.forall_mem_append, List.forall_mem_flatMap,
    List.forall_mem_cons]
  refine ⟨⟨h.first.inSource hP, fun link hlink => ⟨Token.inSource_ofKind rfl,
    (h.rest link hlink).inSource hP⟩⟩, ?_, .lineEnd, List.forall_mem_nil _⟩
  cases background <;> exact Token.inSource_ofKind rfl

theorem Statement.inSource_list {list : List Statement} (h : ∀ s ∈ list, s.Of P) :
    ∀ t ∈ list.flatMap tokens, t.InSource :=
  List.forall_mem_flatMap.2 fun s hs => (h s hs).inSource hP

theorem Compound.Of.inSource {body : Compound} (h : body.Of P) :
    ∀ t ∈ body.tokens, t.InSource := by
  have hkeyword {text : String} (htext : text ∈ keywords) := Token.inSource_keyword htext
  have hlist {list : List Statement} (hlist : Statement.BodyOf P list) :=
    Statement.inSource_list hP hlist.statements
  have hwords {words : List Word} (h : ∀ w ∈ words, w.IsQuoted) :
      ∀ t ∈ words.map (fun w => Token.ofWord 0 w.raw), t.InSource :=
    List.forall_mem_map.2 fun w hw => (h w hw).inSource 0
  have hclause {keyword : String} (hword : keyword ∈ keywords) {clause : Clause}
      (h : Statement.BodyOf P clause.condition ∧ Statement.BodyOf P clause.body) :
      ∀ t ∈ clause.tokens keyword, t.InSource := by
    simp only [Clause.tokens, List.forall_mem_append, List.forall_mem_cons]
    exact ⟨⟨hkeyword hword, hlist h.1⟩, hkeyword (by decide), .lineEnd, hlist h.2⟩
  have hclauses {first : Clause} {rest : List Clause} (h : ∀ clause ∈ first :: rest,
      Statement.BodyOf P clause.condition ∧ Statement.BodyOf P clause.body) :
      ∀ t ∈ first.tokens "if" ++ rest.flatMap (Clause.tokens "elif"), t.InSource :=
    List.forall_mem_append.2 ⟨hclause (by decide) (h first List.mem_cons_self),
      List.forall_mem_flatMap.2 fun clause hmem =>
        hclause (by decide) (h clause (List.mem_cons_of_mem _ hmem))⟩
  have hitem {item : CaseItem} (h : item.Of P) : ∀ t ∈ item.tokens, t.InSource := by
    obtain ⟨- | ⟨first, rest⟩, list, ending⟩ := item
    · exact absurd rfl h.nonempty
    · obtain ⟨hfirst, hrest⟩ := List.forall_mem_cons.1 h.patterns
      have hpipe : (Token.ofKind .pipe).InSource := Token.inSource_ofKind rfl
      simp only [CaseItem.tokens, patternTokens, List.forall_mem_append, List.forall_mem_cons]
      exact ⟨⟨⟨hfirst.inSource 0, List.forall_mem_flatMap.2 fun w hw => by
        simpa using ⟨hpipe, (hrest w hw).inSource 0⟩⟩,
        Token.inSource_ofKind rfl, .lineEnd, Statement.inSource_list hP h.body⟩,
        Token.inSource_ofKind rfl, .lineEnd, List.forall_mem_nil _⟩
  cases body with
  | ifElse clauses orElse =>
    obtain ⟨hne, hall, helse⟩ := h
    cases clauses with
    | nil => exact absurd rfl hne
    | cons clause rest =>
      cases orElse <;> simp only [tokens, Clause.listTokens_cons, Statement.listTokens_eq] <;>
        refine List.forall_mem_append.2 ⟨?_, by simpa using hkeyword (by decide)⟩
      · exact hclauses hall
      · refine List.forall_mem_append.2 ⟨hclauses hall, ?_⟩
        simp only [List.forall_mem_cons]
        exact ⟨hkeyword (by decide), .lineEnd, hlist (helse _ rfl)⟩
  | forEach name words list =>
    obtain ⟨hname, hquoted, hbody⟩ := h
    simp only [tokens, Statement.listTokens_eq, List.forall_mem_append, List.forall_mem_cons]
    refine ⟨⟨⟨hkeyword (by decide), .word 0 (isPlainWord_of_isName hname).isWordText, ?_⟩, .lineEnd,
      hkeyword (by decide), .lineEnd, hlist hbody⟩, hkeyword (by decide), List.forall_mem_nil _⟩
    cases words with
    | none => exact List.forall_mem_nil _
    | some words => exact List.forall_mem_cons.2 ⟨hkeyword (by decide), hwords (hquoted words rfl)⟩
  | loop kind condition list =>
    simp only [tokens, Statement.listTokens_eq, List.forall_mem_append, List.forall_mem_cons]
    refine ⟨⟨⟨?_, hlist h.1⟩, hkeyword (by decide), .lineEnd, hlist h.2⟩, hkeyword (by decide),
      List.forall_mem_nil _⟩
    cases kind <;> exact hkeyword (by decide)
  | case subject items =>
    simp only [tokens, CaseItem.listTokens_eq, List.forall_mem_append, List.forall_mem_cons]
    exact ⟨⟨hkeyword (by decide), h.1.inSource 0, hkeyword (by decide), .lineEnd,
      List.forall_mem_flatMap.2 fun item hmem => hitem (h.2 item hmem)⟩, hkeyword (by decide),
      List.forall_mem_nil _⟩
  | group list =>
    simp only [tokens, Statement.listTokens_eq, List.forall_mem_append, List.forall_mem_cons]
    exact ⟨⟨hkeyword (by decide), .lineEnd, hlist h⟩, hkeyword (by decide), List.forall_mem_nil _⟩
  | test words =>
    simp only [tokens, List.forall_mem_append, List.forall_mem_cons]
    exact ⟨⟨hkeyword (by decide), hwords h.2⟩, hkeyword (by decide), List.forall_mem_nil _⟩
  | arithmetic => exact h.elim
  | forArithmetic => exact h.elim

end

/-- **The tokens of a command of the grammar** are tokens of a source text. -/
theorem Command.WellFormed.inSource {depth : Nat} {c : Command} (h : c.WellFormed depth) :
    ∀ t ∈ c.tokens, t.InSource := by
  induction depth generalizing c with
  | zero => exact h.elim
  | succ depth ih =>
    have hcompound {body : Compound} {redirections : List Redirection}
        (hbody : ∀ t ∈ body.tokens, t.InSource) (hall : ∀ r ∈ redirections, r.WellFormed) :
        ∀ t ∈ body.tokens ++ redirections.flatMap (Redirection.tokens 0), t.InSource :=
      List.forall_mem_append.2 ⟨hbody, List.forall_mem_flatMap.2 fun r hr => (hall r hr).inSource 0⟩
    cases c with
    | simple c => exact SimpleCommand.WellFormed.inSource h
    | compound body redirections =>
      exact hcompound (h.1.inSource fun c hc => ih hc) h.2
    | function name body redirections =>
      refine List.forall_mem_append.2 ⟨?_, ih h.2⟩
      unfold functionHead
      have hname : (Token.keyword name).InSource := .word 0 h.1.isWordText
      split <;> simp only [List.forall_mem_cons]
      · exact ⟨Token.inSource_keyword (by decide), hname, List.forall_mem_nil _⟩
      · exact ⟨hname, Token.inSource_ofKind rfl, Token.inSource_ofKind rfl, List.forall_mem_nil _⟩

theorem Script.WellFormed.inSource {script : Script} (h : script.WellFormed) :
    ∀ t ∈ script.tokens, t.InSource :=
  Statement.inSource_list (fun _ hc => Command.WellFormed.inSource hc) h

end VirtualShell
