import VirtualShell.Token.Lexer

/-!
# What the lexer does next

The character at the front of the text decides what the lexer takes off it. For each construct there
is one equation that says what a step does, and a run is followed by applying one after another.

* `Scanner.run_of_step` — a run takes a step and goes on.
* `Scanner.step_word`, `Scanner.step_operator`, `Scanner.step_newline` — the steps.
-/

namespace VirtualShell

/-! ## Characters -/

/-- The characters that operators start with. -/
def operatorStarts : List Char := [';', '&', '|', '<', '>', '(', ')']

theorem mem_operatorStarts {c : Char} {text rest : List Char} {kind : TokenKind}
    (h : TokenKind.operator? (c :: text) = some (kind, rest)) : c ∈ operatorStarts := by
  unfold TokenKind.operator? at h
  split at h
  all_goals first
    | next htext => cases htext; decide
    | cases h

theorem TokenKind.operator?_eq_none_iff {c : Char} {text : List Char} :
    operator? (c :: text) = none ↔ c ∉ operatorStarts := by
  constructor
  · intro h
    unfold operator? at h
    split at h
    case h_22 => simp_all [operatorStarts]
    all_goals cases h
  · intro hc
    cases h : operator? (c :: text) with
    | none => rfl
    | some found => exact absurd (mem_operatorStarts h) hc

/-- An operator stands at the front of the text as it is spelled. -/
theorem TokenKind.operator?_append {text rest : List Char} {kind : TokenKind}
    (h : operator? text = some (kind, rest)) : kind.spelling.toList ++ rest = text := by
  unfold operator? at h
  split at h
  all_goals cases h
  all_goals simp [spelling, Connective.spelling, RedirectOp.spelling, ClauseEnd.spelling]

theorem isMetacharacter_iff {c : Char} :
    isMetacharacter c = true ↔ c ∈ ' ' :: '\t' :: '\n' :: operatorStarts := by
  simp [isMetacharacter, operatorStarts, or_assoc]

/-- Among the first characters only the ten digits are digits. -/
theorem Text.isDigit_of_ascii {c : Char} (hc : c.toNat < 128) :
    isDigit c = (decide (48 ≤ c.toNat) && decide (c.toNat ≤ 57)) := by
  have hdecimal : ∀ r ∈ decimalRanges.tail, 128 ≤ r.1 := by decide
  have hlike : ∀ r ∈ digitLikeRanges, 128 ≤ r.1 := by decide
  have hbeyond (table : Ranges) (htable : ∀ r ∈ table, 128 ≤ r.1) :
      table.holds c.toNat = false := by
    rw [Bool.eq_false_iff, ne_eq, Ranges.holds_iff]
    rintro ⟨r, hr, hle, -⟩
    exact absurd hc (Nat.not_lt.2 (Nat.le_trans (htable r hr) hle))
  have hfirst : isDecimal c = (decide (48 ≤ c.toNat) && decide (c.toNat ≤ 57) ||
      Ranges.holds decimalRanges.tail c.toNat) := rfl
  rw [isDigit, hfirst, hbeyond _ hdecimal, hbeyond _ hlike, Bool.or_false, Bool.or_false]

/-- So a list of other ones holds no digit. -/
theorem Text.isDigit_of_mem {c : Char} {chars : List Char}
    (hchars : chars.all fun c => c.toNat < 128 && !(48 ≤ c.toNat && c.toNat ≤ 57))
    (hc : c ∈ chars) : isDigit c = false := by
  have hother := List.all_eq_true.1 hchars c hc
  rw [Bool.and_eq_true, decide_eq_true_eq, Bool.not_eq_true'] at hother
  rw [isDigit_of_ascii hother.1]
  exact hother.2

/-! ## Lines -/

theorem bne_of_not_mem {c : Char} {line : List Char} (hline : c ∉ line) :
    ∀ x ∈ line, (x != c) = true := by
  intro x hx
  rw [bne_iff_ne]
  rintro rfl
  exact hline hx

theorem takeLine_line {line : List Char} (hline : '\n' ∉ line) (rest : List Char) :
    takeLine (line ++ '\n' :: rest) = (line, rest) := by
  have hall := bne_of_not_mem hline
  rw [takeLine, List.takeWhile_append_of_pos hall, List.dropWhile_append_of_pos hall]
  simp

theorem takeLine_last {line : List Char} (hline : '\n' ∉ line) : takeLine line = (line, []) := by
  have hall := bne_of_not_mem hline
  have htake : (line ++ []).takeWhile (· != '\n') = _ := List.takeWhile_append_of_pos hall
  have hdrop : (line ++ []).dropWhile (· != '\n') = _ := List.dropWhile_append_of_pos hall
  rw [List.append_nil] at htake hdrop
  rw [takeLine, htake, hdrop]
  simp

namespace Scanner

/-! ## Runs -/

theorem run_of_nil {s : Scanner} (h : s.rest = []) : s.run = .ok s := by
  rw [run.eq_def]
  split
  · rfl
  · next hs => rw [h] at hs; cases hs

theorem run_of_step {s next : Scanner} {c : Char} {rest : List Char} (hs : s.rest = c :: rest)
    (h : s.step c rest = .ok next) : s.run = next.run := by
  rw [run.eq_def]
  split
  · next hnil => rw [hs] at hnil; cases hnil
  · next c' rest' hcons =>
    rw [hs] at hcons
    cases hcons
    split
    · next e herror => rw [h] at herror; cases herror
    · next s' hok =>
      rw [h] at hok
      cases hok
      rfl

theorem run_of_error {s : Scanner} {c : Char} {rest : List Char} {e : SyntaxError}
    (hs : s.rest = c :: rest) (h : s.step c rest = .error e) : s.run = .error e := by
  rw [run.eq_def]
  split
  · next hnil => rw [hs] at hnil; cases hnil
  · next c' rest' hcons =>
    rw [hs] at hcons
    cases hcons
    split
    · next e' herror => rw [h] at herror; exact herror.symm
    · next s' hok => rw [h] at hok; cases hok

/-! ## Steps -/

/-- What is read of a descriptor: a run of digits. -/
theorem descriptor?_eq_some {text digits rest : List Char}
    (h : descriptor? text = some (digits, rest)) :
    digits ++ rest = text ∧ digits ≠ [] ∧ ∀ c ∈ digits, Text.isDigit c = true := by
  unfold descriptor? at h
  dsimp only at h
  split at h
  · next c after hafter =>
    split at h
    · next hstands =>
      cases h
      rw [Bool.and_eq_true, Bool.not_eq_true', List.isEmpty_eq_false_iff] at hstands
      refine ⟨List.takeWhile_append_dropWhile, hstands.1, fun c hc => ?_⟩
      exact List.all_eq_true.1 List.all_takeWhile c hc
    · cases h
  · cases h

theorem descriptor?_of_not_digit {c : Char} (rest : List Char) (hc : Text.isDigit c = false) :
    descriptor? (c :: rest) = none := by
  simp [descriptor?, hc]

theorem readOperator_of_not_metacharacter (s : Scanner) (descriptor : Option Nat) {c : Char}
    {rest : List Char} (hs : s.rest = c :: rest) (hc : isMetacharacter c = false) :
    s.readOperator descriptor = s.readWord := by
  unfold readOperator
  split
  · next hkind =>
    rw [hs] at hkind
    have hmem := isMetacharacter_iff.2 (List.mem_append_right [' ', '\t', '\n']
      (mem_operatorStarts hkind))
    rw [hmem] at hc
    cases hc
  · rfl

/-- A character that ends no word, is no hash and takes no line end away starts a word if no
descriptor starts there. -/
theorem step_word_of_descriptor (s : Scanner) {c : Char} {rest : List Char}
    (hc : isMetacharacter c = false) (hdescriptor : descriptor? (c :: rest) = none)
    (hescape : (c == '\\' && rest.head? == some '\n') = false) (hcomment : c ≠ '#') :
    s.step c rest = { s with rest := c :: rest }.readWord := by
  have hoperator : readOperator { s with rest := c :: rest } none = _ :=
    readOperator_of_not_metacharacter _ none rfl hc
  unfold step
  rw [hdescriptor, hescape]
  simp only [isMetacharacter, Bool.or_eq_false_iff] at hc
  simp [hc, hcomment, hoperator]

/-- So does one that is no digit. -/
theorem step_word (s : Scanner) {c : Char} {rest : List Char} (hc : isMetacharacter c = false)
    (hdigit : Text.isDigit c = false) (hescape : c ≠ '\\') (hcomment : c ≠ '#') :
    s.step c rest = { s with rest := c :: rest }.readWord :=
  s.step_word_of_descriptor hc (descriptor?_of_not_digit rest hdigit) (by simp [hescape]) hcomment

/-- An operator is taken off the text, unless it is one of two parentheses. -/
theorem step_operator (s : Scanner) {c : Char} {rest : List Char} (kind : TokenKind)
    (after : List Char) (hkind : TokenKind.operator? (c :: rest) = some (kind, after))
    (hparens : (c == '(' && rest.head? == some '(') = false) :
    s.step c rest = .ok ({ s with rest := after }.emit kind kind.spelling none) := by
  have hc := mem_operatorStarts hkind
  have hdigit : Text.isDigit c = false := Text.isDigit_of_mem (by decide) hc
  have hne {x : Char} (hx : x ∉ operatorStarts) : c ≠ x := fun heq => hx (heq ▸ hc)
  have hspace : c ≠ ' ' := hne (by decide)
  have htab : c ≠ '\t' := hne (by decide)
  have hescape : c ≠ '\\' := hne (by decide)
  have hcomment : c ≠ '#' := hne (by decide)
  have hnewline : c ≠ '\n' := hne (by decide)
  unfold step
  rw [descriptor?_of_not_digit rest hdigit]
  simp [hspace, htab, hescape, hcomment, hnewline, hparens, readOperator, hkind]

/-- A line end is a token, and the here-documents that are due come after it. -/
theorem step_newline (s : Scanner) (rest : List Char) :
    s.step '\n' rest = .ok (readBodies { s with
      rest := rest
      line := s.line + 1
      tokens := ⟨.newline, "\n", s.line, none, none⟩ :: s.tokens } s.pending) :=
  rfl

/-- A blank is passed over. -/
theorem run_blank {s : Scanner} {rest : List Char} (hs : s.rest = ' ' :: rest) :
    s.run = run { s with rest := rest } :=
  run_of_step hs rfl

/-- **A word** reaches as far as the scan of it. -/
theorem readWord_of_scan {s : Scanner} (read rest : List Char)
    (h : Delimiter.scan isMetacharacter [] [] s.rest = .ok (read, rest)) :
    s.readWord = .ok { (s.noteDelimiter read.reverse).emit .word (String.ofList read.reverse) none
      with rest := rest, line := s.line + read.count '\n' } := by
  simp only [readWord, h]

end Scanner

/-- **One word.** A text that the scan of words takes to its end is one word of a script. -/
theorem TokenStream.ofText_of_scan {text : String} {c : Char} (hstart : text.toList.head? = some c)
    (hword : isMetacharacter c = false) (hdigit : Text.isDigit c = false) (hescape : c ≠ '\\')
    (hcomment : c ≠ '#')
    (hscan : Delimiter.scan isMetacharacter [] [] text.toList = .ok (text.toList.reverse, [])) :
    ofText text = .ok ⟨[⟨.word, text, 1, none, none⟩], 1 + text.toList.count '\n'⟩ := by
  obtain ⟨rest, htext⟩ := List.head?_eq_some_iff.1 hstart
  have hread := Scanner.readWord_of_scan (s := ⟨text.toList, 1, [], [], []⟩) _ _ hscan
  rw [List.reverse_reverse, String.ofList_toList, List.count_reverse, htext] at hread
  have hstep := (Scanner.step_word ⟨c :: rest, 1, [], [], []⟩ hword hdigit hescape hcomment).trans
    hread
  rw [ofText, htext, Scanner.run_of_step rfl hstep, Scanner.run_of_nil rfl]
  rfl

/-! ## Bodies of here-documents -/

/-- The tokens stay what they are when bodies are attached. -/
theorem attachBodies_kinds (done : List Token) (bodies : List String) (tokens : List Token) :
    (attachBodies done bodies tokens).map (·.kind) = (done.reverse ++ tokens).map (·.kind) := by
  fun_induction attachBodies done bodies tokens with
  | case1 => simp
  | case2 done t tokens doc body bodies hdoc ih => simp [ih]
  | case3 done bodies t tokens _ ih => simp [ih]

/-- Without bodies the tokens are left alone. -/
theorem attachBodies_nil (done tokens : List Token) :
    attachBodies done [] tokens = done.reverse ++ tokens := by
  induction tokens generalizing done with
  | nil => simp [attachBodies]
  | cons t tokens ih => simp [attachBodies, ih]

end VirtualShell
