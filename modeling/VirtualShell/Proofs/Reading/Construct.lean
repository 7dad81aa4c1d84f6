import VirtualShell.Proofs.Reading.Token
import VirtualShell.Proofs.Reading.Word

/-!
# What a step of the lexer takes

Every step takes one construct off the text: blanks, a line continued on the next one, a comment, a
line end with the lines of here-documents after it, an arithmetic command, an operator or a word.

* `Scanner.Takes` — the constructs, and what comes of the scanner.
* **`Scanner.step_takes`** — a step takes one of them, and its text stands at the front.
* `Scanner.Reaches` — the scanners of a run.
-/

namespace VirtualShell

/-! ## The end of a text -/

theorem getLast?_of_suffix {text rest : List Char} {c : Char} (hrest : rest <:+ text)
    (h : rest.getLast? = some c) : text.getLast? = some c := by
  obtain ⟨before, rfl⟩ := hrest
  rw [List.getLast?_append, h]
  rfl

/-- No backslash at the end escapes what follows. -/
def EndsPlain (text : List Char) : Prop := text.getLast? ≠ some '\\'

theorem EndsPlain.suffix {text rest : List Char} (h : EndsPlain text) (hrest : rest <:+ text) :
    EndsPlain rest :=
  fun hlast => h (getLast?_of_suffix hrest hlast)

/-! ## Parentheses -/

namespace Delimiter

theorem eq_of_move_escape {context : Option Delimiter} {c : Char} {next : Option Char}
    (h : move context c next = .escape) : c = '\\' := by
  unfold move at h
  split at h <;> grind

theorem next_of_move_enterPair {context : Option Delimiter} {c : Char} {next : Option Char}
    {d : Delimiter} (h : move context c next = .enterPair d) :
    next = some '(' ∨ next = some '\x7b' := by
  unfold move at h
  split at h <;> grind

theorem eq_of_move_leave {c : Char} {next : Option Char}
    (h : move (some .paren) c next = .leave) : c = ')' := by
  unfold move at h
  split at h <;> grind

/-- Scanning from inside parentheses ends with the closing one. -/
theorem scan_paren {stack : List Delimiter} {read text read' rest : List Char}
    (h : scan (fun _ => true) stack read text = .ok (read', rest))
    (hstack : stack.getLast? = some .paren) : ∃ inner, read' = ')' :: inner := by
  fun_induction scan (fun _ => true) stack read text with
  | case1 => cases hstack
  | case2 => cases h
  | case3 stack read c text hempty => simp_all
  | case4 _ _ _ _ _ _ ih | case7 _ _ _ _ _ _ _ ih | case8 _ _ _ _ _ ih => exact ih h hstack
  | case5 stack read c text hgo d _ ih | case9 stack read c hgo d x text _ ih
  | case10 stack read c hgo d _ ih =>
    refine ih h ?_
    rw [List.getLast?_cons, hstack]
    rfl
  | case6 stack read c text hgo hleave ih =>
    rcases stack with - | ⟨d, - | ⟨d', stack⟩⟩
    · cases hstack
    · obtain rfl : d = .paren := by simpa using hstack
      obtain rfl := eq_of_move_leave hleave
      rw [List.tail_cons, scan.eq_def] at h
      cases text <;> cases h <;> exact ⟨_, rfl⟩
    · exact ih h (by simpa using hstack)

/-- **What stands in parentheses** ends before the closing one. -/
theorem scan_of_close_paren {text inner rest : List Char}
    (h : close .paren text = .ok (inner, rest)) :
    scan (fun _ => true) [.paren] [] text = .ok (')' :: inner.reverse, rest) := by
  unfold close at h
  split at h
  · next read r hscan =>
    obtain ⟨read, rfl⟩ := scan_paren hscan rfl
    cases h
    simpa using hscan
  · cases h

theorem close_paren_append {text inner rest : List Char}
    (h : close .paren text = .ok (inner, rest)) : inner ++ ')' :: rest = text := by
  simpa using scan_append (scan_of_close_paren h)

end Delimiter

/-! ## Lines of here-documents -/

theorem takeLine_suffix (text : List Char) : (takeLine text).2 <:+ text :=
  (List.tail_suffix _).trans (List.dropWhile_suffix _)

theorem PendingDocument.readBody_suffix (doc : PendingDocument) (body : String) (count : Nat)
    (text : List Char) : (doc.readBody body count text).2.2 <:+ text := by
  fun_induction doc.readBody body count text with
  | case1 => exact List.suffix_refl _
  | case2 => exact takeLine_suffix _
  | case3 _ _ c text _ _ _ ih => exact ih.trans (takeLine_suffix _)

namespace Scanner

theorem readBodies_suffix (s : Scanner) (docs : List PendingDocument) :
    (s.readBodies docs).rest <:+ s.rest := by
  induction docs generalizing s with
  | nil => exact List.suffix_refl _
  | cons doc docs ih => exact (ih _).trans (doc.readBody_suffix _ _ _)

@[simp] theorem readBodies_tokens (s : Scanner) (docs : List PendingDocument) :
    (s.readBodies docs).tokens = s.tokens := by
  induction docs generalizing s with
  | nil => rfl
  | cons doc docs ih => exact ih _

/-! ## Constructs -/

/-- **What a step may take** off the text, and the scanner after it. -/
inductive Takes (s : Scanner) : List Char → Scanner → Prop where
  | blank {c : Char} (hc : c = ' ' ∨ c = '\t') (rest : List Char) :
    Takes s [c] { s with rest := rest }
  | joint (rest : List Char) : Takes s ['\\', '\n'] { s with rest := rest, line := s.line + 1 }
  | comment (text rest : List Char) : Takes s ('#' :: text) { s with rest := rest }
  | lineEnd {lines rest : List Char} {next : Scanner}
      (hnext : next = readBodies { s.emit .newline "\n" none with
        rest := rest, line := s.line + 1 } s.pending)
      (hlines : lines ++ next.rest = rest) :
    Takes s ('\n' :: lines) next
  | arithmetic {content expression rest : List Char}
      (hclose : Delimiter.close .paren (content ++ ')' :: rest) = .ok (content, rest))
      (hinner : Delimiter.close .paren content.tail = .ok (expression, [])) :
    Takes s ('(' :: content ++ [')']) (emit { s with
      rest := rest, line := s.line + content.count '\n' } .arithmetic (String.ofList expression)
      none)
  | operator {digits rest : List Char} {kind : TokenKind} {descriptor : Option Nat}
      (hdigits : ∀ c ∈ digits, Text.isDigit c = true)
      (hkind : TokenKind.operator? (kind.spelling.toList ++ rest) = some (kind, rest)) :
    Takes s (digits ++ kind.spelling.toList)
      ({ s with rest := rest }.emit kind kind.spelling descriptor)
  | word {read rest : List Char}
      (hscan : Delimiter.scan isMetacharacter [] [] (read.reverse ++ rest) = .ok (read, rest)) :
    Takes s read.reverse { (s.noteDelimiter read.reverse).emit .word (String.ofList read.reverse)
      none with rest := rest, line := s.line + read.count '\n' }

variable {s next : Scanner}

theorem readWord_takes (h : s.readWord = .ok next) :
    ∃ text, text ++ next.rest = s.rest ∧ s.Takes text next := by
  unfold readWord at h
  split at h
  · cases h
  · next read rest hscan =>
    cases h
    have happend := Delimiter.scan_append hscan
    rw [List.reverse_nil, List.nil_append] at happend
    exact ⟨read.reverse, happend, .word (happend ▸ hscan)⟩

theorem readParens_takes {inner : List Char} (h : s.readParens inner = .ok next) :
    ∃ text, text ++ next.rest = '(' :: inner ∧ s.Takes text next := by
  unfold readParens at h
  split at h
  · cases h
  · next content rest hclose =>
    split at h
    · next expression hinner =>
      cases h
      have happend := Delimiter.close_paren_append hclose
      exact ⟨_, by simp [emit, happend], .arithmetic (happend ▸ hclose) hinner⟩
    · cases h
      exact ⟨[] ++ TokenKind.openParen.spelling.toList, rfl, .operator (by simp) rfl⟩

theorem readOperator_takes {descriptor : Option Nat} (h : s.readOperator descriptor = .ok next) :
    ∃ text, text ++ next.rest = s.rest ∧ s.Takes text next := by
  unfold readOperator at h
  split at h
  · next kind rest hkind =>
    cases h
    have happend := TokenKind.operator?_append hkind
    exact ⟨[] ++ kind.spelling.toList, happend, .operator nofun (happend ▸ hkind)⟩
  · exact readWord_takes h

/-- A redirection follows its descriptor. -/
theorem operator?_of_descriptor {text digits rest : List Char}
    (h : descriptor? text = some (digits, rest)) :
    ∃ kind after, TokenKind.operator? rest = some (kind, after) := by
  unfold descriptor? at h
  dsimp only at h
  split at h
  · next c after hafter =>
    split at h
    · next hstands =>
      cases h
      rw [hafter]
      cases hkind : TokenKind.operator? (c :: after) with
      | some found => exact ⟨_, _, rfl⟩
      | none =>
        have hc := TokenKind.operator?_eq_none_iff.1 hkind
        simp only [Bool.and_eq_true, Bool.or_eq_true, beq_iff_eq] at hstands
        rcases hstands.2 with rfl | rfl <;> exact absurd hc (by decide)
    · cases h
  · cases h

/-- **A step takes one of the constructs**, the one that stands at the front of the text. -/
theorem step_takes {c : Char} {rest : List Char} (hs : s.rest = c :: rest)
    (h : s.step c rest = .ok next) :
    ∃ text, text ++ next.rest = s.rest ∧ s.Takes text next := by
  have hback : { s with rest := c :: rest } = s := by rw [← hs]
  unfold step at h
  rw [hback] at h
  rw [hs]
  split at h
  · next hblank =>
    cases h
    exact ⟨[c], rfl, .blank (by simpa using hblank) rest⟩
  split at h
  · next hjoint =>
    cases h
    rw [Bool.and_eq_true, beq_iff_eq, beq_iff_eq] at hjoint
    obtain ⟨rfl, hnext⟩ := hjoint
    obtain ⟨rest, rfl⟩ := List.head?_eq_some_iff.1 hnext
    exact ⟨['\\', '\n'], rfl, .joint rest⟩
  split at h
  · next hcomment =>
    cases h
    obtain rfl : c = '#' := by simpa using hcomment
    refine ⟨'#' :: rest.takeWhile (· != '\n'), ?_, .comment _ _⟩
    exact congrArg _ List.takeWhile_append_dropWhile
  split at h
  · next hline =>
    cases h
    obtain rfl : c = '\n' := by simpa using hline
    obtain ⟨lines, hlines⟩ := readBodies_suffix
      { s.emit .newline "\n" none with rest := rest, line := s.line + 1 } s.pending
    exact ⟨'\n' :: lines, congrArg _ hlines, .lineEnd rfl hlines⟩
  split at h
  · next hopen =>
    rw [Bool.and_eq_true, beq_iff_eq] at hopen
    obtain ⟨rfl, -⟩ := hopen
    exact readParens_takes h
  split at h
  · next digits after hdigits =>
    obtain ⟨happend, -, hall⟩ := descriptor?_eq_some hdigits
    split at h
    · cases h
    · next fd _ =>
      obtain ⟨kind, rest, hkind⟩ := operator?_of_descriptor hdigits
      rw [readOperator, hkind] at h
      cases h
      have hspelling := TokenKind.operator?_append hkind
      refine ⟨digits ++ kind.spelling.toList, ?_, .operator hall (hspelling ▸ hkind)⟩
      rw [List.append_assoc, ← happend]
      exact congrArg _ hspelling
  · exact hs ▸ readOperator_takes h

/-! ## Runs -/

/-- The scanner at the start of a text. -/
def start (text : String) : Scanner := ⟨text.toList, 1, [], [], []⟩

/-- The scanners that a run goes through. -/
inductive Reaches : Scanner → Scanner → Prop where
  | refl (s : Scanner) : Reaches s s
  | step {s next t : Scanner} {c : Char} {rest : List Char} (hs : s.rest = c :: rest)
      (hstep : s.step c rest = .ok next) (hrest : Reaches next t) : Reaches s t

theorem Reaches.suffix {s t : Scanner} (h : s.Reaches t) : t.rest <:+ s.rest := by
  induction h with
  | refl => exact List.suffix_refl _
  | step hs hstep _ ih =>
    obtain ⟨text, happend, -⟩ := step_takes hs hstep
    exact ih.trans ⟨text, happend⟩

/-- The texts that the steps of a run take. -/
def Construct (s : Scanner) (text : List Char) : Prop :=
  ∃ t next c rest, s.Reaches t ∧ t.rest = c :: rest ∧ t.step c rest = .ok next ∧
    text ++ next.rest = t.rest

end Scanner

/-- The tokens of a text are those that a run over it leaves. -/
theorem TokenStream.ofText_eq_ok_iff {text : String} {stream : TokenStream} :
    ofText text = .ok stream ↔ ∃ t, (Scanner.start text).run = .ok t ∧
      (⟨attachBodies [] t.bodies.reverse t.tokens.reverse, t.line⟩ : TokenStream) = stream := by
  have hstart : Scanner.start text = ⟨text.toList, 1, [], [], []⟩ := rfl
  rw [ofText, hstart]
  cases Scanner.run ⟨text.toList, 1, [], [], []⟩ <;> simp

end VirtualShell
