import Mathlib
import VirtualShell.Proofs.Reading.Following

/-!
# The lines of tokens

The lexer counts lines while it takes one construct after another off the text. The line it is on
and the line feeds that are still ahead make the line on which the text ends, and hardly a step
changes that sum. So a token that is read behind some text is on the line after as many line feeds
as that text holds.

There are two exceptions. The token of an arithmetic command is made when the line feeds inside the
parentheses are counted already, so it is on the line of its end. And the lines of here-documents
are counted one by one, the last of them also when the text ends without a line feed.

* `Scanner.lastLine` — the line on which the text ends, as the lexer counts on.
* `Scanner.step_lastLine` — a step keeps that line, except where a here-document takes an unended one.
* `Scanner.Adds`, `Scanner.step_adds` — the token that a step adds.
* `TokenStream.ReadBehind` — where a token is read.
* **`TokenStream.ofText_lines`** — the lines of all tokens, and of the end of the text.
* `TokenStream.ofText_lines_late` — two texts with a line that is too late.
-/

namespace VirtualShell

/-! ## Lines without line feeds -/

/-- **The line that no line feed ends:** one when what is taken off a text goes on to its end and
something is left behind its last line feed. -/
def unendedLine (text rest : List Char) : Nat :=
  if rest = [] ∧ text ≠ [] ∧ text.getLast? ≠ some '\n' then 1 else 0

theorem unendedLine_of_ne_nil {text rest : List Char} (h : rest ≠ []) : unendedLine text rest = 0 :=
  if_neg fun hall => h hall.1

@[simp] theorem unendedLine_self (text : List Char) : unendedLine text text = 0 :=
  if_neg fun ⟨hnil, hne, _⟩ => hne hnil

/-- Only the last of several pieces of a text goes on to its end. -/
theorem unendedLine_add {text middle rest : List Char} (hmiddle : middle <:+ text)
    (hrest : rest <:+ middle) :
    unendedLine text middle + unendedLine middle rest = unendedLine text rest := by
  by_cases hnil : middle = []
  · subst hnil
    obtain rfl := List.suffix_nil.1 hrest
    simp
  · have htext : text ≠ [] := by
      rintro rfl
      exact hnil (List.suffix_nil.1 hmiddle)
    have hlast : text.getLast? = middle.getLast? := by
      obtain ⟨c, hc⟩ := Option.ne_none_iff_exists'.1 (mt List.getLast?_eq_none_iff.1 hnil)
      rw [hc, getLast?_of_suffix hmiddle hc]
    rw [unendedLine_of_ne_nil hnil, Nat.zero_add, unendedLine, unendedLine, hlast]
    simp only [hnil, htext, ne_eq, not_false_eq_true, true_and]

/-- A line that is taken off a text has one line feed, unless it is the last. -/
theorem count_takeLine (c : Char) (text : List Char) :
    (takeLine (c :: text)).2.count '\n' + 1 =
      (c :: text).count '\n' + unendedLine (c :: text) (takeLine (c :: text)).2 := by
  by_cases hfeed : '\n' ∈ c :: text
  · obtain ⟨line, rest, hsplit, hline⟩ := List.eq_append_cons_of_mem hfeed
    have hended : unendedLine (line ++ '\n' :: rest) rest = 0 := by
      refine if_neg ?_
      rintro ⟨rfl, -, hlast⟩
      exact hlast List.getLast?_concat
    rw [hsplit, takeLine_line hline, hended, List.count_append, List.count_cons_self,
      List.count_eq_zero.2 hline, Nat.zero_add]
  · have hlast : unendedLine (c :: text) [] = 1 :=
      if_pos ⟨rfl, List.cons_ne_nil _ _, fun hend => hfeed (List.mem_of_getLast? hend)⟩
    rw [takeLine_last hfeed, hlast, List.count_eq_zero.2 hfeed, List.count_nil]

/-- The lines of a here-document are counted by their line feeds, and one more if the last has none. -/
theorem PendingDocument.readBody_count (doc : PendingDocument) (body : String) (count : Nat)
    (text : List Char) :
    (doc.readBody body count text).2.1 + (doc.readBody body count text).2.2.count '\n' =
      count + text.count '\n' + unendedLine text (doc.readBody body count text).2.2 := by
  fun_induction doc.readBody body count text with
  | case1 => rw [unendedLine_self]; rfl
  | case2 body count c text line line' hline =>
    have hfirst := count_takeLine c text
    dsimp only
    omega
  | case3 body count c text line line' hline ih =>
    have hfirst := count_takeLine c text
    have hboth := unendedLine_add (takeLine_suffix (c :: text))
      (doc.readBody_suffix (body ++ String.ofList line' ++ "\n") (count + 1)
        (takeLine (c :: text)).2)
    omega

namespace Scanner

/-! ## The end of the text -/

/-- **The line on which the text ends**, as the lexer counts on from where it is. -/
def lastLine (s : Scanner) : Nat := s.line + s.rest.count '\n'

theorem lastLine_of_end {s : Scanner} (h : s.rest = []) : s.lastLine = s.line := by
  rw [lastLine, h]
  rfl

/-- Here-documents keep that line if a line feed ends their last line. -/
theorem readBodies_lastLine (s : Scanner) (docs : List PendingDocument) :
    (s.readBodies docs).lastLine = s.lastLine + unendedLine s.rest (s.readBodies docs).rest := by
  induction docs generalizing s with
  | nil => rw [readBodies, unendedLine_self]; rfl
  | cons doc docs ih =>
    let later : Scanner := { s with
      rest := (doc.readBody "" 0 s.rest).2.2
      line := s.line + (doc.readBody "" 0 s.rest).2.1
      bodies := (doc.readBody "" 0 s.rest).1 :: s.bodies }
    have hstep : s.readBodies (doc :: docs) = later.readBodies docs := rfl
    have hfirst : later.lastLine = s.lastLine + unendedLine s.rest later.rest := by
      have hcount := doc.readBody_count "" 0 s.rest
      simp only [lastLine, later]
      omega
    have hboth := unendedLine_add (doc.readBody_suffix "" 0 s.rest) (later.readBodies_suffix docs)
    rw [hstep, ih later, hfirst, Nat.add_assoc]
    exact congrArg _ hboth

variable {s next : Scanner}

theorem readWord_lastLine (h : s.readWord = .ok next) : next.lastLine = s.lastLine := by
  unfold readWord at h
  split at h
  · cases h
  · next read rest hscan =>
    cases h
    have happend := Delimiter.scan_append hscan
    rw [List.reverse_nil, List.nil_append] at happend
    simp only [lastLine, ← happend, List.count_append, List.count_reverse]
    omega

theorem readParens_lastLine {inner : List Char} (h : s.readParens inner = .ok next) :
    next.lastLine = s.line + inner.count '\n' := by
  unfold readParens at h
  split at h
  · cases h
  · next content rest hclose =>
    split at h
    · cases h
      rw [← Delimiter.close_paren_append hclose, List.count_append, List.count_cons_of_ne (by decide)]
      exact Nat.add_assoc _ _ _
    · cases h
      rfl

theorem readOperator_lastLine {descriptor : Option Nat} (h : s.readOperator descriptor = .ok next) :
    next.lastLine = s.lastLine := by
  unfold readOperator at h
  split at h
  · next kind rest hkind =>
    cases h
    have hcount : rest.count '\n' = s.rest.count '\n' := by
      generalize s.rest = text at hkind
      unfold TokenKind.operator? at hkind
      split at hkind <;> cases hkind <;> simp
    simp only [lastLine, emit, hcount]
  · exact readWord_lastLine h

/-- Digits hold no line feed. -/
theorem count_descriptor {text digits rest : List Char} (h : descriptor? text = some (digits, rest)) :
    rest.count '\n' = text.count '\n' := by
  obtain ⟨happend, -, hdigits⟩ := descriptor?_eq_some h
  have hfeed : '\n' ∉ digits := fun hmem =>
    absurd (hdigits _ hmem) (by rw [Text.isDigit_of_ascii (by decide)]; decide)
  rw [← happend, List.count_append, List.count_eq_zero.2 hfeed, Nat.zero_add]

/-- **A step keeps the line on which the text ends**, except that here-documents may count a last line
without a line feed. -/
theorem step_lastLine {c : Char} {rest : List Char} (hs : s.rest = c :: rest)
    (h : s.step c rest = .ok next) :
    next.lastLine = s.lastLine + if c = '\n' then unendedLine rest next.rest else 0 := by
  have hsum : s.lastLine = s.line + (c :: rest).count '\n' := by rw [lastLine, hs]
  unfold step at h
  split at h
  · next hblank =>
    cases h
    have hc : c ≠ '\n' := by
      rintro rfl
      cases hblank
    rw [hsum, if_neg hc, List.count_cons_of_ne hc]
    rfl
  split at h
  · next hjoint =>
    cases h
    rw [Bool.and_eq_true, beq_iff_eq, beq_iff_eq] at hjoint
    obtain ⟨rfl, hfeed⟩ := hjoint
    obtain ⟨rest, rfl⟩ := List.head?_eq_some_iff.1 hfeed
    rw [hsum, if_neg (by decide), List.count_cons_of_ne (by decide), List.count_cons_self]
    simp only [lastLine, List.tail_cons]
    omega
  split at h
  · next hcomment =>
    cases h
    obtain rfl : c = '#' := by simpa using hcomment
    have hfeed : '\n' ∉ rest.takeWhile (· != '\n') := fun hmem => by
      simpa using List.all_eq_true.1 List.all_takeWhile _ hmem
    have hcount := congrArg (List.count '\n')
      (List.takeWhile_append_dropWhile (p := (· != '\n')) (l := rest))
    rw [List.count_append, List.count_eq_zero.2 hfeed, Nat.zero_add] at hcount
    rw [hsum, if_neg (by decide), List.count_cons_of_ne (by decide), lastLine, hcount]
    rfl
  split at h
  · next hline =>
    cases h
    obtain rfl : c = '\n' := by simpa using hline
    rw [readBodies_lastLine, hsum, if_pos rfl, List.count_cons_self]
    simp only [lastLine, emit]
    omega
  next hblank _ _ hnewline =>
  have hc : c ≠ '\n' := by simpa using hnewline
  rw [if_neg hc, Nat.add_zero]
  split at h
  · rw [readParens_lastLine h, hsum, List.count_cons_of_ne hc]
  split at h
  · next digits after hdigits =>
    split at h
    · cases h
    · rw [readOperator_lastLine h, hsum, ← count_descriptor hdigits]
      rfl
  · rw [readOperator_lastLine h, hsum]
    rfl

end Scanner

/-! ## Tokens -/

namespace Token

/-- A token without the here-document that it introduces. -/
def withoutDocument (t : Token) : Token := { t with hereDocument := none }

@[simp] theorem withoutDocument_text (t : Token) : t.withoutDocument.text = t.text := rfl

@[simp] theorem withoutDocument_line (t : Token) : t.withoutDocument.line = t.line := rfl

@[simp] theorem withoutDocument_mk (kind : TokenKind) (text : String) (line : Nat)
    (descriptor : Option Nat) (doc : Option HereDocument) :
    withoutDocument ⟨kind, text, line, descriptor, doc⟩ = ⟨kind, text, line, descriptor, none⟩ := rfl

/-- **How a token is written:** an arithmetic command in its parentheses, and every other token as
its text, with the digits of its descriptor before it if it has one. -/
def IsWritten (t : Token) (source : List Char) : Prop :=
  match t.kind with
  | .arithmetic => source = '(' :: '(' :: (t.text.toList ++ [')', ')'])
  | _ => ∃ digits, (∀ c ∈ digits, Text.isDigit c = true) ∧ (t.descriptor = none → digits = []) ∧
      source = digits ++ t.text.toList

/-- The line feeds inside a token that are counted before it is made. -/
def feedsInside (t : Token) : Nat :=
  match t.kind with
  | .arithmetic => t.text.toList.count '\n'
  | _ => 0

end Token

/-- Bodies change nothing else about the tokens. -/
theorem attachBodies_withoutDocument (done : List Token) (bodies : List String)
    (tokens : List Token) :
    (attachBodies done bodies tokens).map Token.withoutDocument =
      (done.reverse ++ tokens).map Token.withoutDocument := by
  fun_induction attachBodies done bodies tokens with
  | case1 => simp
  | case2 done t tokens doc body bodies hdoc ih => simp [ih, Token.withoutDocument]
  | case3 done bodies t tokens _ ih => simp [ih]

namespace Scanner

/-- **A step that adds a token** reads it where the lexer is, on its line. -/
structure Adds (s : Scanner) (t : Token) (next : Scanner) : Prop where
  source : ∃ source, source <+: s.rest ∧ t.IsWritten source
  line : t.line = s.line + t.feedsInside
  tokens : next.tokens.map Token.withoutDocument = t :: s.tokens.map Token.withoutDocument

variable {s next : Scanner}

theorem noteDelimiter_withoutDocument (s : Scanner) (word : List Char) :
    (s.noteDelimiter word).tokens.map Token.withoutDocument =
      s.tokens.map Token.withoutDocument := by
  unfold noteDelimiter
  split
  · next htokens =>
    split
    · rw [htokens]
      rfl
    · rfl
  · rfl

theorem readWord_adds (h : s.readWord = .ok next) : ∃ t, s.Adds t next := by
  unfold readWord at h
  split at h
  · cases h
  · next read rest hscan =>
    cases h
    have happend := Delimiter.scan_append hscan
    rw [List.reverse_nil, List.nil_append] at happend
    refine ⟨⟨.word, String.ofList read.reverse, s.line, none, none⟩, ?_, rfl, ?_⟩
    · exact ⟨read.reverse, ⟨rest, happend⟩, [], List.forall_mem_nil _, fun _ => rfl, by simp⟩
    · simp [emit, noteDelimiter_withoutDocument, noteDelimiter_line]

/-- An operator behind the digits of its descriptor. -/
theorem adds_operator {text rest : List Char} {kind : TokenKind} {descriptor : Option Nat}
    (digits : List Char) (htext : digits ++ text = s.rest)
    (hdigits : ∀ c ∈ digits, Text.isDigit c = true)
    (hnone : descriptor = none → digits = [])
    (hkind : TokenKind.operator? text = some (kind, rest)) :
    ∃ t, s.Adds t ({ s with rest := rest }.emit kind kind.spelling descriptor) := by
  have hplain : kind ≠ .arithmetic := by
    rintro rfl
    unfold TokenKind.operator? at hkind
    split at hkind <;> cases hkind
  have happend := TokenKind.operator?_append hkind
  refine ⟨⟨kind, kind.spelling, s.line, descriptor, none⟩, ?_, ?_, rfl⟩
  · refine ⟨digits ++ kind.spelling.toList, ⟨rest, by rw [← htext, ← happend, List.append_assoc]⟩, ?_⟩
    unfold Token.IsWritten
    split
    · next harithmetic => exact absurd harithmetic hplain
    · exact ⟨digits, hdigits, hnone, rfl⟩
  · unfold Token.feedsInside
    split
    · next harithmetic => exact absurd harithmetic hplain
    · rfl

theorem readParens_adds {inner : List Char} (hs : s.rest = '(' :: '(' :: inner)
    (h : s.readParens ('(' :: inner) = .ok next) : ∃ t, s.Adds t next := by
  unfold readParens at h
  split at h
  · cases h
  · next content rest hclose =>
    split at h
    · next expression hinner =>
      cases h
      have happend := Delimiter.close_paren_append hclose
      have hexpression := Delimiter.close_paren_append hinner
      obtain ⟨c, tail, rfl⟩ : ∃ c tail, content = c :: tail := by
        cases content with
        | nil => simp at hexpression
        | cons c tail => exact ⟨c, tail, rfl⟩
      rw [List.tail_cons] at hexpression
      obtain ⟨rfl, htail⟩ := List.cons.inj happend
      refine ⟨⟨.arithmetic, String.ofList expression, s.line + ('(' :: tail).count '\n', none, none⟩,
        ⟨'(' :: '(' :: (expression ++ [')', ')']), ⟨rest, ?_⟩, by simp [Token.IsWritten]⟩, ?_, rfl⟩
      · rw [hs, ← htail, ← hexpression]
        simp
      · simp [Token.feedsInside, ← hexpression]
    · cases h
      exact adds_operator [] hs.symm (List.forall_mem_nil _) (fun _ => rfl) rfl

/-- **What a step adds:** one token at most. -/
theorem step_adds {c : Char} {rest : List Char} (hs : s.rest = c :: rest)
    (h : s.step c rest = .ok next) : next.tokens = s.tokens ∨ ∃ t, s.Adds t next := by
  have hback : { s with rest := c :: rest } = s := by rw [← hs]
  unfold step at h
  rw [hback] at h
  split at h
  · cases h
    exact .inl rfl
  split at h
  · cases h
    exact .inl rfl
  split at h
  · cases h
    exact .inl rfl
  split at h
  · next hline =>
    cases h
    obtain rfl : c = '\n' := by simpa using hline
    refine .inr ⟨⟨.newline, "\n", s.line, none, none⟩, ⟨['\n'], ⟨rest, hs.symm⟩, ?_⟩, rfl, ?_⟩
    · exact ⟨[], List.forall_mem_nil _, fun _ => rfl, by simp⟩
    · rw [readBodies_tokens]
      rfl
  right
  split at h
  · next hopen =>
    rw [Bool.and_eq_true, beq_iff_eq, beq_iff_eq] at hopen
    obtain ⟨rfl, hnext⟩ := hopen
    obtain ⟨inner, rfl⟩ := List.head?_eq_some_iff.1 hnext
    exact readParens_adds hs h
  split at h
  · next digits after hdescriptor =>
    obtain ⟨happend, -, hdigits⟩ := descriptor?_eq_some hdescriptor
    obtain ⟨kind, rest', hkind⟩ := operator?_of_descriptor hdescriptor
    split at h
    · cases h
    · rw [readOperator, hkind] at h
      cases h
      exact adds_operator digits (happend.trans hs.symm) hdigits (fun hnone => by cases hnone) hkind
  · unfold readOperator at h
    split at h
    · next kind rest' hkind =>
      cases h
      exact adds_operator [] rfl (List.forall_mem_nil _) (fun _ => rfl) hkind
    · exact readWord_adds h

/-! ## Runs -/

theorem Reaches.run_eq {t : Scanner} (h : s.Reaches t) : s.run = t.run := by
  induction h with
  | refl => rfl
  | step hs hstep _ ih => exact (run_of_step hs hstep).trans ih

theorem reaches_of_run {t : Scanner} (h : s.run = .ok t) : s.Reaches t ∧ t.rest = [] := by
  fun_induction run s with
  | case1 s hs =>
    cases h
    exact ⟨.refl _, hs⟩
  | case2 => cases h
  | case3 s c rest hs next hstep _ ih => exact ⟨.step hs hstep (ih h).1, (ih h).2⟩

/-- Of two scanners of a run one is before the other. -/
theorem Reaches.total {t u : Scanner} (ht : s.Reaches t) (hu : s.Reaches u) :
    t.Reaches u ∨ u.Reaches t := by
  induction ht with
  | refl => exact .inl hu
  | step hs hstep hrest ih =>
    cases hu with
    | refl => exact .inr (.step hs hstep hrest)
    | step hs' hstep' hrest' =>
      obtain ⟨rfl, rfl⟩ := List.cons.inj (hs.symm.trans hs')
      obtain rfl := Except.ok.inj (hstep.symm.trans hstep')
      exact ih hrest'

/-- Tokens that are read stay, but for their here-documents. -/
theorem Reaches.tokens_suffix {t : Scanner} (h : s.Reaches t) :
    s.tokens.map Token.withoutDocument <:+ t.tokens.map Token.withoutDocument := by
  induction h with
  | refl => exact List.suffix_refl _
  | step hs hstep _ ih =>
    rcases step_adds hs hstep with hsame | ⟨t, hadds⟩
    · rwa [hsame] at ih
    · rw [hadds.tokens] at ih
      exact (List.suffix_cons _ _).trans ih

theorem Reaches.tokens_length_le {t : Scanner} (h : s.Reaches t) :
    s.tokens.length ≤ t.tokens.length := by
  simpa using h.tokens_suffix.length_le

/-- **The step that reads the token with a number**, counted from the first one of the text. -/
def ReadsAt (s : Scanner) (index : Nat) (next : Scanner) : Prop :=
  ∃ c rest, s.rest = c :: rest ∧ s.step c rest = .ok next ∧ s.tokens.length = index ∧
    next.tokens.length = index + 1

/-- Every token of a run is read by some step of it. -/
theorem Reaches.exists_readsAt {t : Scanner} (h : s.Reaches t) {index : Nat}
    (hfrom : s.tokens.length ≤ index) (hto : index < t.tokens.length) :
    ∃ u next, s.Reaches u ∧ u.ReadsAt index next ∧ next.Reaches t := by
  induction h with
  | refl => omega
  | @step s next t c rest hs hstep hrest ih =>
    have hlength : next.tokens.length = s.tokens.length ∨
        next.tokens.length = s.tokens.length + 1 := by
      rcases step_adds hs hstep with hsame | ⟨t, hadds⟩
      · exact .inl (congrArg List.length hsame)
      · exact .inr (by simpa using congrArg List.length hadds.tokens)
    by_cases hhere : next.tokens.length ≤ index
    · obtain ⟨u, after, hu, hreads, hafter⟩ := ih hhere hto
      exact ⟨u, after, .step hs hstep hu, hreads, hafter⟩
    · exact ⟨s, next, .refl _, ⟨c, rest, hs, hstep, by omega, by omega⟩, hrest⟩

theorem ReadsAt.length_eq {index : Nat} (h : s.ReadsAt index next) : s.tokens.length = index := by
  obtain ⟨-, -, -, -, hlength, -⟩ := h
  exact hlength

theorem ReadsAt.rest_ne_nil {index : Nat} (h : s.ReadsAt index next) : s.rest ≠ [] := by
  obtain ⟨c, rest, hs, -⟩ := h
  rw [hs]
  exact List.cons_ne_nil _ _

theorem ReadsAt.exists_adds {index : Nat} (h : s.ReadsAt index next) : ∃ t, s.Adds t next := by
  obtain ⟨c, rest, hs, hstep, hlength, hlength'⟩ := h
  rcases step_adds hs hstep with hsame | hadds
  · rw [hsame] at hlength'
    omega
  · exact hadds

/-- No token is read twice. -/
theorem ReadsAt.unique {start t u next next' : Scanner} {index : Nat}
    (hreads : t.ReadsAt index next) (ht : start.Reaches t) (hu : start.Reaches u)
    (hreads' : u.ReadsAt index next') : t = u := by
  have hbefore {t u next next' : Scanner} (hreads : t.ReadsAt index next)
      (hreads' : u.ReadsAt index next') (h : t.Reaches u) : t = u := by
    obtain ⟨c, rest, hs, hstep, -, hlength⟩ := hreads
    obtain ⟨-, -, -, -, hlength', -⟩ := hreads'
    cases h with
    | refl => rfl
    | step hs' hstep' hrest =>
      obtain ⟨rfl, rfl⟩ := List.cons.inj (hs.symm.trans hs')
      obtain rfl := Except.ok.inj (hstep.symm.trans hstep')
      have := hrest.tokens_length_le
      omega
  rcases ht.total hu with h | h
  · exact hbefore hreads hreads' h
  · exact (hbefore hreads' hreads h).symm

/-- **The text ends in a line of a here-document** that no line feed ends. -/
def EndsInDocument (s : Scanner) : Prop :=
  ∃ t rest next, s.Reaches t ∧ t.rest = '\n' :: rest ∧ t.step '\n' rest = .ok next ∧
    next.rest = [] ∧ rest ≠ [] ∧ rest.getLast? ≠ some '\n'

/-- **The line on which the text ends** stays the same through a run, up to the last line of a
here-document. -/
theorem Reaches.lastLine {t : Scanner} (h : s.Reaches t) :
    t.lastLine = s.lastLine ∨ t.rest = [] ∧ s.EndsInDocument ∧ t.lastLine = s.lastLine + 1 := by
  induction h with
  | refl => exact .inl rfl
  | @step s next t c rest hs hstep hrest ih =>
    have hline := step_lastLine hs hstep
    by_cases hlate : c = '\n' ∧ next.rest = [] ∧ rest ≠ [] ∧ rest.getLast? ≠ some '\n'
    · obtain ⟨rfl, hend, hlate⟩ := hlate
      have hone : unendedLine rest next.rest = 1 := if_pos ⟨hend, hlate⟩
      rw [if_pos rfl, hone] at hline
      cases hrest with
      | refl => exact .inr ⟨hend, ⟨s, rest, next, .refl _, hs, hstep, hend, hlate⟩, hline⟩
      | step hs' => rw [hend] at hs'; cases hs'
    · have hkept : next.lastLine = s.lastLine := by
        rw [hline]
        split
        · next hc => rw [unendedLine, if_neg fun hall => hlate ⟨hc, hall⟩, Nat.add_zero]
        · rfl
      rw [hkept] at ih
      refine ih.imp_right ?_
      rintro ⟨hend, ⟨u, rest', next', hu, hdocument⟩, hone⟩
      exact ⟨hend, ⟨u, rest', next', .step hs hstep hu, hdocument⟩, hone⟩

end Scanner

namespace TokenStream

/-- **Where a token is read:** behind some text the lexer has read as many tokens as come before this
one, and the next step adds it. -/
def ReadBehind (text : String) (index : Nat) (before : List Char) : Prop :=
  ∃ s next, (Scanner.start text).Reaches s ∧ s.ReadsAt index next ∧ before ++ s.rest = text.toList

/-- **The lines of tokens.** Every token of a text is read in one place, where it is written. It is on
the line after as many line feeds as stand before that place, and an arithmetic command on the line
after those that stand inside it as well. The text ends on the line after all its line feeds, unless
it ends in a line of a here-document that no line feed ends: then it ends one line later. -/
theorem ofText_lines {text : String} {stream : TokenStream} (h : ofText text = .ok stream) :
    (∀ index t, stream.tokens[index]? = some t → ∃ before source after,
      (∀ place, ReadBehind text index place ↔ place = before) ∧
      before ++ source ++ after = text.toList ∧ t.IsWritten source ∧
      t.line = 1 + before.count '\n' + t.feedsInside) ∧
    (¬ (Scanner.start text).EndsInDocument →
      stream.lastLine = 1 + text.toList.count '\n') ∧
    ((Scanner.start text).EndsInDocument →
      stream.lastLine = 1 + text.toList.count '\n' + 1) := by
  obtain ⟨final, hrun, rfl⟩ := ofText_eq_ok_iff.1 h
  obtain ⟨hfinal, hend⟩ := Scanner.reaches_of_run hrun
  have hstart : (Scanner.start text).lastLine = 1 + text.toList.count '\n' := rfl
  refine ⟨fun index t ht => ?_, fun hdocument => ?_, fun hdocument => ?_⟩
  · have hbare := congrArg (Option.map Token.withoutDocument) ht
    rw [← List.getElem?_map, attachBodies_withoutDocument, List.reverse_nil, List.nil_append,
      List.map_reverse] at hbare
    have hindex : index < final.tokens.length := by
      simpa using (List.getElem?_eq_some_iff.1 hbare).1
    obtain ⟨s, next, hs, hreads, hnext⟩ := hfinal.exists_readsAt (Nat.zero_le _) hindex
    obtain ⟨t', hadds⟩ := hreads.exists_adds
    obtain rfl : t.withoutDocument = t' := by
      have hlast : (next.tokens.map Token.withoutDocument).reverse[index]? = some t' := by
        rw [hadds.tokens, List.reverse_cons, List.getElem?_append_right] <;> simp [hreads.length_eq]
      obtain ⟨later, hlater⟩ := List.reverse_prefix.2 hnext.tokens_suffix
      rw [← hlater, List.getElem?_append_left (List.getElem?_eq_some_iff.1 hlast).1, hlast] at hbare
      exact (Option.some.inj hbare).symm
    obtain ⟨before, hbefore⟩ := hs.suffix
    obtain ⟨source, ⟨after, hafter⟩, hwritten⟩ := hadds.source
    refine ⟨before, source, after, fun place => ⟨?_, ?_⟩, ?_, hwritten, ?_⟩
    · rintro ⟨s', next', hs', hreads', hplace⟩
      obtain rfl := hreads.unique hs hs' hreads'
      exact List.append_cancel_right (hplace.trans hbefore.symm)
    · rintro rfl
      exact ⟨s, next, hs, hreads, hbefore⟩
    · rw [List.append_assoc, hafter, hbefore]
      rfl
    · have hsum : s.line + s.rest.count '\n' = 1 + text.toList.count '\n' := by
        rcases hs.lastLine with hsum | ⟨hnil, -⟩
        · exact hsum.trans hstart
        · exact absurd hnil hreads.rest_ne_nil
      have htext : text.toList = before ++ s.rest := hbefore.symm
      rw [htext, List.count_append] at hsum
      have hline : t.line = s.line + t.feedsInside := hadds.line
      omega
  · rcases hfinal.lastLine with hsum | ⟨-, hlate, -⟩
    · rw [Scanner.lastLine_of_end hend, hstart] at hsum
      exact hsum
    · exact absurd hlate hdocument
  · obtain ⟨s, rest, next, hs, hrest, hstep, hnext, hne, hlate⟩ := hdocument
    have hsum : s.lastLine = 1 + text.toList.count '\n' := by
      rcases hs.lastLine with hsum | ⟨hnil, -⟩
      · exact hsum.trans hstart
      · rw [hrest] at hnil
        cases hnil
    have hone : unendedLine rest next.rest = 1 := if_pos ⟨hnext, hne, hlate⟩
    have hline := Scanner.step_lastLine hrest hstep
    rw [if_pos rfl, hone, hsum, Scanner.lastLine_of_end hnext] at hline
    have hover : final = next := by
      rw [hs.run_eq, Scanner.run_of_step hrest hstep, Scanner.run_of_nil hnext] at hrun
      exact (Except.ok.inj hrun).symm
    rw [hover, hline]

/-- Behind a quoted line feed, a line continued on the next one and a comment, an arithmetic command
that goes over a line end. -/
theorem ofText_lines_mixed :
    let text := "a '\n' \\\nb #c\n((1+\n2))\n"
    let sum : Token := ⟨.arithmetic, "1+\n2", 5, none, none⟩
    ∃ stream, ofText text = .ok stream ∧ stream.tokens[4]? = some sum ∧ stream.lastLine = 6 ∧
      ∃ before source after, (∀ place, ReadBehind text 4 place ↔ place = before) ∧
        before ++ source ++ after = text.toList ∧ sum.IsWritten source ∧
        sum.line = 1 + before.count '\n' + sum.feedsInside := by
  intro text sum
  have hstream : ofText text = .ok ⟨[⟨.word, "a", 1, none, none⟩, ⟨.word, "'\n'", 1, none, none⟩,
      ⟨.word, "b", 3, none, none⟩, ⟨.newline, "\n", 3, none, none⟩, sum,
      ⟨.newline, "\n", 5, none, none⟩], 6⟩ := by cbv
  exact ⟨_, hstream, rfl, rfl, (ofText_lines hstream).1 4 sum rfl⟩

/-- **Two lines that are too late:** that of an arithmetic command which is the whole text and has a
line feed inside, and that of the end of a text in a here-document, behind one line feed. -/
theorem ofText_lines_late :
    (ofText "((1+\n2))" = .ok ⟨[⟨.arithmetic, "1+\n2", 2, none, none⟩], 2⟩ ∧
      ReadBehind "((1+\n2))" 0 [] ∧ 2 ≠ 1 + List.count '\n' []) ∧
    ofText "cat <<E\nx" = .ok ⟨[⟨.word, "cat", 1, none, none⟩,
        ⟨.redirect .hereDocument, "<<", 1, none, some ⟨"E", false, false, "x\n"⟩⟩,
        ⟨.word, "E", 1, none, none⟩, ⟨.newline, "\n", 1, none, none⟩], 3⟩ ∧
      3 ≠ 1 + "cat <<E\nx".toList.count '\n' := by
  refine ⟨⟨by cbv, ?_, by decide⟩, by cbv, by decide⟩
  refine ⟨.start "((1+\n2))", ⟨[], 2, [⟨.arithmetic, "1+\n2", 2, none, none⟩], [], []⟩, .refl _, ?_,
    rfl⟩
  exact ⟨'(', "(1+\n2))".toList, by cbv, by cbv, rfl, rfl⟩

end TokenStream

end VirtualShell
