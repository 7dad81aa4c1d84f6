import VirtualShell.Proofs.Quoting.OpenQuote

/-!
# Where operators are put back

The lexer reads no quotes in comments and here-documents, but those who put operators back track
them over the whole script. So an apostrophe in a comment makes them take the rest of the script for
quoted.

* `Scanner.quoted` — the quotes that the lexer reads in a script.
* `Scanner.agrees_construct_iff` — which constructs leave the tracking in step with it.
* `Scanner.agrees_run_iff` — so do whole scripts if all their constructs do.
* **`Text.restoreOperators_quotes`** — which scripts have their operators put back in the right
  places.
* `Text.restoreOperators_quotes_astray` — two in which a quote is mistaken.
-/

namespace VirtualShell

open Text (QuoteState)

namespace Scanner

/-! ## The quotes of a script -/

/-- **Whether the lexer is inside of quotes** in front of each character of a construct. It reads no
quotes in comments and in the lines of here-documents; what starts with a parenthesis and goes on is
an arithmetic command. -/
def quotedIn (construct : List Char) : List Bool :=
  match construct with
  | '#' :: _ | '\n' :: _ => construct.map fun _ => false
  | '(' :: c :: rest => false :: Delimiter.quoted [.paren] (c :: rest)
  | _ => Delimiter.quoted [] construct

/-- Whether the lexer is inside of quotes in front of each character of the text ahead. -/
def quoted (s : Scanner) : List Bool :=
  match hs : s.rest with
  | [] => []
  | c :: rest =>
    match h : s.step c rest with
    | .error _ => []
    | .ok next =>
      have : next.rest.length < s.rest.length := hs ▸ step_length_lt h
      quotedIn (s.rest.take (s.rest.length - next.rest.length)) ++ next.quoted
termination_by s.rest.length

variable {s next : Scanner} {c : Char} {rest text : List Char}

theorem quoted_of_nil (hs : s.rest = []) : s.quoted = [] := by
  rw [quoted.eq_def]
  split
  · rfl
  · next h => rw [hs] at h; cases h

theorem quoted_of_step (hs : s.rest = c :: rest) (h : s.step c rest = .ok next)
    (happend : text ++ next.rest = s.rest) : s.quoted = quotedIn text ++ next.quoted := by
  have htake : s.rest.take (s.rest.length - next.rest.length) = text := by
    rw [← happend, List.length_append, Nat.add_sub_cancel_right, List.take_left]
  rw [quoted.eq_def]
  split
  · next hnil => rw [hs] at hnil; cases hnil
  · next c' rest' hcons =>
    obtain ⟨rfl, rfl⟩ := List.cons.inj (hcons.symm.trans hs)
    split
    · next herror => rw [h] at herror; cases herror
    · next next' hok =>
      obtain rfl := Except.ok.inj (hok.symm.trans h)
      rw [htake]

@[simp] theorem length_quotedIn (construct : List Char) :
    (quotedIn construct).length = construct.length := by
  unfold quotedIn
  split <;> simp

/-- Nothing is open where a construct starts. -/
theorem head?_quotedIn (c : Char) (text : List Char) :
    (quotedIn (c :: text)).head? = some false := by
  unfold quotedIn
  split
  · rfl
  · rfl
  · rfl
  · rw [Delimiter.quoted.eq_def]
    rfl

/-- **A construct in which the quotes that are tracked are those that the lexer reads:** no quote
stands in a comment or in a line of a here-document, and in the others quotes stay apart. -/
def Aligned (construct : List Char) : Prop :=
  match construct with
  | '#' :: _ | '\n' :: _ => Hides ['\'', '"'] (construct ++ ['\n'])
  | '(' :: c :: rest => Delimiter.Aligned (some .paren) (c :: rest).dropLast
  | _ => Delimiter.Aligned none construct

/-- The quotes that are tracked in a construct are those that the lexer reads. -/
def Agrees (construct : List Char) : Prop :=
  QuoteState.start.marks construct = quotedIn construct ∧
    (QuoteState.start.after construct).quote = none

theorem agrees_unread_iff (hc : c = '#' ∨ c = '\n') (text : List Char) :
    Agrees (c :: text) ↔ Aligned (c :: text) := by
  have hkeeps : Hides ['\'', '"'] (c :: text ++ ['\n']) ↔ QuoteState.start.Keeps (c :: text) :=
    QuoteState.hides_append_iff ⟨by decide, by decide, by decide⟩
  have hquoted : quotedIn (c :: text) = (c :: text).map fun _ => false := by
    rcases hc with rfl | rfl <;> rfl
  have haligned : Aligned (c :: text) ↔ Hides ['\'', '"'] (c :: text ++ ['\n']) := by
    rcases hc with rfl | rfl <;> rfl
  rw [haligned, hkeeps, QuoteState.keeps_iff_marks, Agrees, hquoted]
  simp [QuoteState.start]

theorem agrees_arithmetic_iff {content : List Char} (h : Delimiter.Spans (some .paren) content)
    (hne : content ≠ []) :
    Agrees ('(' :: content ++ [')']) ↔ Aligned ('(' :: content ++ [')']) := by
  obtain ⟨c, rest, rfl⟩ := List.exists_cons_of_ne_nil hne
  have haligned : Aligned ('(' :: c :: rest ++ [')']) ↔
      Delimiter.Aligned (some .paren) (c :: rest ++ [')']).dropLast := Iff.rfl
  have hinner : Delimiter.Agrees [.paren] (c :: rest) ↔
      Delimiter.Aligned (some .paren) (c :: rest) :=
    Delimiter.agrees_iff_aligned h rfl (.inr (.inl rfl)) rfl
  rw [haligned, List.dropLast_concat, ← hinner]
  have hspan := @Delimiter.agrees_span_iff [] [] rfl .paren rfl _ h
  have hempty : Delimiter.Agrees [] [] := ⟨rfl, rfl⟩
  rw [and_iff_left hempty] at hspan
  refine Iff.trans ?_ hspan
  have hquoted : quotedIn ('(' :: c :: rest ++ [')']) =
      false :: Delimiter.quoted [.paren] (c :: rest ++ [')']) := rfl
  have hnext : QuoteState.start.next '(' = QuoteState.start := rfl
  rw [Agrees, hquoted, List.cons_append, QuoteState.marks, QuoteState.after_cons, hnext]
  simp [QuoteState.start, Delimiter.closer]

theorem agrees_span_iff (h : Delimiter.Spans none text) (hcomment : text.head? ≠ some '#')
    (hline : text.head? ≠ some '\n') (hparen : text.head? = some '(' → text = ['(']) :
    Agrees text ↔ Aligned text := by
  have hquoted : quotedIn text = Delimiter.quoted [] text := by
    unfold quotedIn
    split <;> simp_all
  have haligned : Aligned text ↔ Delimiter.Aligned none text := by
    unfold Aligned
    split <;> simp_all
  rw [haligned, Agrees, hquoted]
  exact Delimiter.agrees_iff_aligned h rfl (.inl rfl) rfl

/-- What no delimiter is opened by is a span. -/
theorem spans_of_marks (h : ∀ c ∈ text, c ∉ Delimiter.marks) : Delimiter.Spans none text := by
  induction text with
  | nil => exact .nil none
  | cons c text ih =>
    rw [List.forall_mem_cons] at h
    exact .pass (Delimiter.move_pass_of_not_mem (.inl rfl) h.1 _) (ih h.2)

theorem digit_not_mark {c : Char} (hc : Text.isDigit c = true) : c ∉ Delimiter.marks := by
  intro hmem
  rw [Text.isDigit_of_mem (by decide) hmem] at hc
  cases hc

theorem spelling_not_mark (kind : TokenKind) : ∀ c ∈ kind.spelling.toList, c ∉ Delimiter.marks := by
  cases kind with
  | connective op => cases op <;> simp [TokenKind.spelling, Connective.spelling, Delimiter.marks]
  | redirect op => cases op <;> simp [TokenKind.spelling, RedirectOp.spelling, Delimiter.marks]
  | clauseEnd how => cases how <;> simp [TokenKind.spelling, ClauseEnd.spelling, Delimiter.marks]
  | _ => simp [TokenKind.spelling, Delimiter.marks]

theorem spelling_of_paren {kind : TokenKind} (h : kind.spelling.toList.head? = some '(') :
    kind.spelling.toList = ['('] := by
  cases kind with
  | connective op => cases op <;> simp [TokenKind.spelling, Connective.spelling] at h
  | redirect op => cases op <;> simp [TokenKind.spelling, RedirectOp.spelling] at h
  | clauseEnd how => cases how <;> simp [TokenKind.spelling, ClauseEnd.spelling] at h
  | openParen => rfl
  | _ => simp [TokenKind.spelling] at h

theorem operator_not_mark {digits : List Char} (hdigits : ∀ c ∈ digits, Text.isDigit c = true)
    (kind : TokenKind) : ∀ c ∈ digits ++ kind.spelling.toList, c ∉ Delimiter.marks := by
  intro c hc
  rcases List.mem_append.1 hc with hc | hc
  · exact digit_not_mark (hdigits c hc)
  · exact spelling_not_mark kind c hc

/-- **The construct of a step** is one in which the tracking agrees with the lexer if and only if it
is aligned. -/
theorem agrees_construct_iff (hs : s.rest = c :: rest) (h : s.step c rest = .ok next)
    (happend : text ++ next.rest = s.rest) : Agrees text ↔ Aligned text := by
  obtain ⟨text', happend', htakes⟩ := step_takes hs h
  obtain rfl : text' = text := List.append_cancel_right (happend'.trans happend.symm)
  by_cases hunread : text'.head? = some '#' ∨ text'.head? = some '\n'
  · cases text' with
    | nil => simp at hunread
    | cons x text => exact agrees_unread_iff (by simpa using hunread) text
  · rw [not_or] at hunread
    cases htakes with
    | blank hc =>
      refine agrees_span_iff (spans_of_marks ?_) hunread.1 hunread.2 ?_
      · rcases hc with rfl | rfl <;> simp [Delimiter.marks]
      · rcases hc with rfl | rfl <;> simp
    | joint => exact agrees_span_iff (.escape (fun _ => rfl) (.nil _)) (by simp) (by simp) (by simp)
    | comment => simp at hunread
    | lineEnd => simp at hunread
    | arithmetic hclose hinner =>
      refine agrees_arithmetic_iff (Delimiter.close_eq_ok_iff.1 hclose).2 ?_
      rintro rfl
      cases hinner
    | @operator digits rest kind _ hdigits =>
      refine agrees_span_iff (spans_of_marks (operator_not_mark hdigits kind)) hunread.1 hunread.2
        fun hhead => ?_
      cases digits with
      | nil => exact spelling_of_paren hhead
      | cons d digits =>
        obtain rfl : d = '(' := by simpa using hhead
        exact absurd (hdigits '(' (by simp)) (by decide +kernel)
    | @word read rest hscan =>
      obtain ⟨span, hspan, hspans⟩ := Delimiter.spans_of_scan hscan
      rw [List.append_cancel_right hspan] at hspans
      refine agrees_span_iff hspans hunread.1 hunread.2 fun hhead => ?_
      -- a word does not start where the scan of it stops
      obtain ⟨tail, htail⟩ := List.head?_eq_some_iff.1 hhead
      rw [htail, List.cons_append, Delimiter.scan_stop _ (by simp; decide)] at hscan
      simp_all

/-! ## Runs -/

/-- A scan ends where it is told to stop, or with the text. -/
theorem stop_of_scan {stop : Char → Bool} {stack : List Delimiter}
    {read read' text rest : List Char}
    (h : Delimiter.scan stop stack read text = .ok (read', rest)) :
    ∀ c ∈ rest.head?, stop c = true := by
  fun_induction Delimiter.scan stop stack read text with
  | case1 =>
    cases h
    rintro c ⟨⟩
  | case2 => cases h
  | case3 stack read c text hstop =>
    cases h
    rw [Bool.and_eq_true] at hstop
    simpa using hstop.2
  | case4 _ _ _ _ _ _ ih | case5 _ _ _ _ _ _ _ ih | case6 _ _ _ _ _ _ ih
  | case7 _ _ _ _ _ _ _ ih | case8 _ _ _ _ _ ih | case9 _ _ _ _ _ _ _ _ ih
  | case10 _ _ _ _ _ _ ih => exact ih h

/-- **Whole lines** have been taken off a text, or all of it. -/
def TakesLines (text rest : List Char) : Prop :=
  rest = [] ∨ rest = text ∨ ∃ front, front ++ '\n' :: rest = text

theorem TakesLines.trans {first second third : List Char} (h : TakesLines first second)
    (h' : TakesLines second third) : TakesLines first third := by
  rcases h' with rfl | rfl | ⟨front, rfl⟩
  · exact .inl rfl
  · exact h
  · refine .inr (.inr ?_)
    rcases h with h | h | ⟨front', rfl⟩
    · simp at h
    · exact ⟨front, h⟩
    · exact ⟨front' ++ '\n' :: front, by simp⟩

theorem takesLines_takeLine (text : List Char) : TakesLines text (takeLine text).2 := by
  have happend := List.takeWhile_append_dropWhile (p := (· != '\n')) (l := text)
  rw [takeLine]
  cases hdrop : text.dropWhile (· != '\n') with
  | nil => exact .inl rfl
  | cons c rest =>
    have hc : c = '\n' := by
      have := List.head?_dropWhile_not (· != '\n') text
      simpa [hdrop] using this
    rw [hdrop, hc] at happend
    exact .inr (.inr ⟨_, happend⟩)

theorem takesLines_readBody (doc : PendingDocument) (body : String) (count : Nat)
    (text : List Char) : TakesLines text (doc.readBody body count text).2.2 := by
  fun_induction doc.readBody body count text with
  | case1 => exact .inl rfl
  | case2 => exact takesLines_takeLine _
  | case3 _ _ c text _ _ _ ih => exact (takesLines_takeLine _).trans ih

theorem takesLines_readBodies (s : Scanner) (docs : List PendingDocument) :
    TakesLines s.rest (s.readBodies docs).rest := by
  induction docs generalizing s with
  | nil => exact .inr (.inl rfl)
  | cons doc docs ih => exact (takesLines_readBody doc _ _ _).trans (ih _)

/-- **A backslash at the end of a construct** stands in front of a character that ends words, or of
none. -/
theorem metacharacter_of_backslash (hs : s.rest = c :: rest) (h : s.step c rest = .ok next)
    (happend : text ++ next.rest = s.rest) (hlast : text.getLast? = some '\\') :
    ∀ x ∈ next.rest.head?, isMetacharacter x = true := by
  obtain ⟨text', happend', htakes⟩ := step_takes hs h
  obtain rfl : text' = text := List.append_cancel_right (happend'.trans happend.symm)
  cases htakes with
  | blank hc => rcases hc with rfl | rfl <;> simp at hlast
  | joint => simp at hlast
  | comment after rest' =>
    obtain rfl : '#' = c := by
      rw [hs] at happend
      exact (List.cons.inj happend).1
    have hrest : rest.dropWhile (· != '\n') = rest' := congrArg Scanner.rest (Except.ok.inj h)
    rintro x hx
    have hhead := List.head?_dropWhile_not (· != '\n') rest
    rw [hrest, hx] at hhead
    obtain rfl : x = '\n' := by simpa using hhead
    rfl
  | @lineEnd lines rest' next hnext hlines =>
    have htakes : TakesLines rest' next.rest := hnext ▸ takesLines_readBodies _ s.pending
    rcases htakes with hempty | hnone | ⟨front, hfront⟩
    · rw [hempty]
      nofun
    · obtain rfl : lines = [] := by simpa [hnone] using hlines
      simp at hlast
    · obtain rfl : lines = front ++ ['\n'] := by
        refine List.append_cancel_right (hlines.trans ?_)
        simpa using hfront.symm
      rw [← List.cons_append, List.getLast?_concat] at hlast
      cases hlast
  | arithmetic =>
    rw [List.getLast?_concat] at hlast
    cases hlast
  | @operator digits rest kind _ hdigits =>
    have hmem := List.mem_of_getLast? hlast
    exact absurd (by simp [Delimiter.marks]) (operator_not_mark hdigits kind _ hmem)
  | word hscan => exact stop_of_scan hscan

/-- A state in which a construct can start: no quote is open, and a backslash protects at most a
character that is no quote. -/
def IsBetween (state : QuoteState) (text : List Char) : Prop :=
  state.quote = none ∧ (state.escaped = true → ∀ c ∈ text.head?, isMetacharacter c = true)

/-- Such a state is as good as the first. -/
theorem next_of_isBetween {state : QuoteState} (h : IsBetween state (c :: rest)) :
    state.next c = QuoteState.start.next c := by
  obtain ⟨quote, escaped⟩ := state
  obtain ⟨hquote, hescaped⟩ := h
  cases hquote
  cases escaped with
  | false => rfl
  | true =>
    have hc : isMetacharacter c = true := hescaped rfl c rfl
    have hplain : QuoteState.IsPlain c := by
      refine ⟨?_, ?_, ?_⟩ <;>
        · rintro rfl
          revert hc
          decide
    exact (QuoteState.next_of_isPlain rfl hplain).trans
      (QuoteState.next_of_isPlain rfl hplain).symm

/-- Behind an aligned construct another one can start. -/
theorem isBetween_after (hs : s.rest = c :: rest) (h : s.step c rest = .ok next)
    (happend : text ++ next.rest = s.rest) (hquote : (QuoteState.start.after text).quote = none) :
    IsBetween (QuoteState.start.after text) next.rest := by
  refine ⟨hquote, fun hescaped => metacharacter_of_backslash hs h happend ?_⟩
  rcases List.eq_nil_or_concat text with rfl | ⟨front, x, rfl⟩
  · cases hescaped
  · have hx : x = '\\' := by
      rw [List.concat_eq_append, QuoteState.after_append] at hescaped
      generalize QuoteState.start.after front = state at hescaped
      by_contra hx
      obtain ⟨quote, escaped⟩ := state
      cases escaped <;> cases quote <;> simp_all [QuoteState.next]
    rw [List.concat_eq_append, List.getLast?_concat, hx]

/-- A construct starts with the character that the step is told. -/
theorem exists_cons_of_step (hs : s.rest = c :: rest) (h : s.step c rest = .ok next)
    (happend : text ++ next.rest = s.rest) : ∃ tail, text = c :: tail := by
  rw [hs] at happend
  cases text with
  | nil =>
    have hlt := step_length_lt h
    rw [← happend, List.nil_append] at hlt
    exact absurd hlt (Nat.lt_irrefl _)
  | cons x tail =>
    obtain ⟨rfl, -⟩ := List.cons.inj happend
    exact ⟨tail, rfl⟩

theorem head?_quoted {t : Scanner} (h : s.run = .ok t) : s.quoted.head? ≠ some true := by
  cases hs : s.rest with
  | nil => simp [quoted_of_nil hs]
  | cons c rest =>
    cases hstep : s.step c rest with
    | error e =>
      rw [run_of_error hs hstep] at h
      cases h
    | ok next =>
      obtain ⟨text, happend, -⟩ := step_takes hs hstep
      obtain ⟨tail, rfl⟩ := exists_cons_of_step hs hstep happend
      rw [quoted_of_step hs hstep happend, List.head?_append, head?_quotedIn]
      simp

theorem construct_iff (hs : s.rest = c :: rest) (h : s.step c rest = .ok next)
    (happend : text ++ next.rest = s.rest) {construct : List Char} :
    s.Construct construct ↔ construct = text ∨ next.Construct construct := by
  constructor
  · rintro ⟨t, after, x, rest', hreaches, ht, hstep, hconstruct⟩
    cases hreaches with
    | refl =>
      obtain ⟨rfl, rfl⟩ := List.cons.inj (ht.symm.trans hs)
      obtain rfl := Except.ok.inj (hstep.symm.trans h)
      exact .inl (List.append_cancel_right (hconstruct.trans happend.symm))
    | step hs' hstep' hreaches =>
      obtain ⟨rfl, rfl⟩ := List.cons.inj (hs'.symm.trans hs)
      obtain rfl := Except.ok.inj (hstep'.symm.trans h)
      exact .inr ⟨t, after, x, rest', hreaches, ht, hstep, hconstruct⟩
  · rintro (rfl | ⟨t, after, x, rest', hreaches, hconstruct⟩)
    · exact ⟨s, next, c, rest, .refl s, hs, h, happend⟩
    · exact ⟨t, after, x, rest', .step hs h hreaches, hconstruct⟩

/-- **The quotes that are tracked in a text are those that the lexer reads** if and only if all its
constructs are aligned. -/
theorem agrees_run_iff {t : Scanner} (h : s.run = .ok t) {state : QuoteState}
    (hstate : IsBetween state s.rest) :
    (state.marks s.rest = s.quoted ∧ (state.after s.rest).quote = none) ↔
      ∀ construct, s.Construct construct → Aligned construct := by
  fun_induction run s generalizing state with
  | case1 s hs =>
    refine iff_of_true ?_ ?_
    · rw [quoted_of_nil hs, hs]
      exact ⟨rfl, hstate.1⟩
    · rintro construct ⟨t, after, c, rest, hreaches, ht, -⟩
      cases hreaches with
      | refl => rw [hs] at ht; cases ht
      | step hs' => rw [hs] at hs'; cases hs'
  | case2 => cases h
  | case3 s c rest hs next hstep _ ih =>
    obtain ⟨text, happend, -⟩ := step_takes hs hstep
    obtain ⟨tail, rfl⟩ := exists_cons_of_step hs hstep happend
    have hconstructs : (∀ construct, s.Construct construct → Aligned construct) ↔
        Agrees (c :: tail) ∧ ∀ construct, next.Construct construct → Aligned construct := by
      rw [agrees_construct_iff hs hstep happend]
      simp [construct_iff hs hstep happend, or_imp, forall_and]
    have hfirst : state.next c = QuoteState.start.next c := next_of_isBetween (hs ▸ hstate)
    have hmarks : state.marks s.rest = QuoteState.start.marks (c :: tail) ++
        (QuoteState.start.after (c :: tail)).marks next.rest := by
      rw [← QuoteState.marks_append, happend, hs, QuoteState.marks, QuoteState.marks, hfirst,
        hstate.1]
      rfl
    have hafter : state.after s.rest =
        (QuoteState.start.after (c :: tail)).after next.rest := by
      rw [← QuoteState.after_append, happend, hs, QuoteState.after_cons, QuoteState.after_cons,
        hfirst]
    rw [hconstructs, quoted_of_step hs hstep happend, hmarks, hafter]
    constructor
    · rintro ⟨heq, hlast⟩
      obtain ⟨htext, hrest⟩ := List.append_inj heq (by simp)
      have hnone : (QuoteState.start.after (c :: tail)).quote = none := by
        have hhead := head?_quoted h
        rw [← hrest] at hhead
        cases hnext : next.rest with
        | nil => rwa [hnext] at hlast
        | cons x rest' =>
          rw [hnext, QuoteState.marks] at hhead
          simpa using hhead
      exact ⟨⟨htext, hnone⟩, (ih h (isBetween_after hs hstep happend hnone)).1 ⟨hrest, hlast⟩⟩
    · rintro ⟨⟨htext, hnone⟩, haligned⟩
      obtain ⟨hrest, hlast⟩ := (ih h (isBetween_after hs hstep happend hnone)).2 haligned
      exact ⟨by rw [htext, hrest], hlast⟩

end Scanner

/-! ## Scripts -/

namespace Text

namespace QuoteState

/-- Only two characters are quotes. -/
def IsQuote (quote : Option Char) : Prop := quote = none ∨ quote = some '\'' ∨ quote = some '"'

theorem isQuote_next {s : QuoteState} (h : IsQuote s.quote) (c : Char) :
    IsQuote (s.next c).quote := by
  unfold next IsQuote at *
  grind

theorem isQuote_after {s : QuoteState} (h : IsQuote s.quote) (text : List Char) :
    IsQuote (s.after text).quote := by
  induction text generalizing s with
  | nil => exact h
  | cons c text ih => exact ih (isQuote_next h c)

end QuoteState

/-- The entities and what they stand for. -/
def entities : List (String × Char) := [("&lt;", '<'), ("&gt;", '>'), ("&amp;", '&')]

/-- **An entity** is put back where no quote is open, and stays where one is. -/
theorem unescapeEntities_entity {entity : String} {operator : Char}
    (hentity : (entity, operator) ∈ entities) {before : List Char}
    (hescaped : (QuoteState.start.after before).escaped = false) (after : List Char) :
    unescapeEntities none (before ++ (entity.toList ++ after)) = unescapeEntities none before ++
      ((if (QuoteState.start.after before).quote = none then [operator] else entity.toList) ++
        unescapeEntities (QuoteState.start.after before).quote after) := by
  have hcases : (entity = "&lt;" ∧ operator = '<') ∨ (entity = "&gt;" ∧ operator = '>') ∨
      (entity = "&amp;" ∧ operator = '&') := by
    simpa [entities] using hentity
  have hhead : ∀ c ∈ (entity.toList ++ after).head?, c ∉ entityLetters := by
    rcases hcases with ⟨rfl, rfl⟩ | ⟨rfl, rfl⟩ | ⟨rfl, rfl⟩ <;> simp [entityLetters]
  have hquote : QuoteState.IsQuote (QuoteState.start.after before).quote :=
    QuoteState.isQuote_after (.inl rfl) before
  rw [unescapeEntities_append none before hhead, List.append_cancel_left_eq]
  change (QuoteState.start.after before).restore _ = _
  generalize QuoteState.start.after before = state at hescaped hquote ⊢
  obtain ⟨quote, escaped⟩ := state
  cases hescaped
  rcases hquote with rfl | rfl | rfl <;>
    rcases hcases with ⟨rfl, rfl⟩ | ⟨rfl, rfl⟩ | ⟨rfl, rfl⟩ <;>
      simp [QuoteState.restore, unescapeEntities]

/-- **What follows a line** is read as a script of its own if and only if no quote is open behind
the line. -/
theorem restoreOperators_line_iff (line : String) :
    (∀ script, ∃ front,
        restoreOperators (line ++ "\n" ++ script) = front ++ "\n" ++ restoreOperators script) ↔
      (QuoteState.start.after line.toList).quote = none := by
  have hquote : QuoteState.IsQuote (QuoteState.start.after line.toList).quote :=
    QuoteState.isQuote_after (.inl rfl) _
  have hrestored (script : String) : (restoreOperators (line ++ "\n" ++ script)).toList =
      unescapeEntities none line.toList ++ '\n' ::
        unescapeEntities (QuoteState.start.after line.toList).quote script.toList := by
    have hline := unescapeEntities_line none line.toList script.toList
    have hnext : ((QuoteState.start.after line.toList).next '\n').quote =
        (QuoteState.start.after line.toList).quote := by
      generalize QuoteState.start.after line.toList = state at hquote
      obtain ⟨quote, escaped⟩ := state
      cases escaped with
      | true => rfl
      | false => rcases hquote with rfl | rfl | rfl <;> rfl
    rw [show QuoteState.after ⟨none, false⟩ _ = QuoteState.start.after line.toList from rfl,
      hnext] at hline
    simpa [restoreOperators] using hline
  constructor
  · intro h
    by_contra hopen
    obtain ⟨front, hfront⟩ := h "&lt;"
    have hlast := congrArg List.getLast? (congrArg String.toList hfront)
    rw [hrestored] at hlast
    rcases hquote with hnone | hsome | hsome
    · exact hopen hnone
    all_goals
      rw [hsome] at hlast
      simp [restoreOperators, unescapeEntities] at hlast
  · intro h script
    refine ⟨String.ofList (unescapeEntities none line.toList), ?_⟩
    apply String.toList_injective
    rw [hrestored, h]
    simp [restoreOperators]

/-- **The quotes that operators are kept in.** A script behind a comment is restored as it is on its
own if and only if the quotes in the comment are closed in it. An entity is put back exactly where
no quote is tracked. And in a text that the lexer reads, the quotes that are tracked are those that
the lexer reads if and only if no quote stands in a comment, in the lines of a here-document,
between backticks or in quotes of its kind, except behind a backslash. -/
theorem restoreOperators_quotes (comment : String) (before after : List Char)
    {text : String} {stream : TokenStream} (h : TokenStream.ofText text = .ok stream) :
    ((∀ script, ∃ front, restoreOperators ("#" ++ comment ++ "\n" ++ script) =
        front ++ "\n" ++ restoreOperators script) ↔
      (QuoteState.start.after ("#" ++ comment).toList).quote = none) ∧
    (∀ entity ∈ entities, (QuoteState.start.after before).escaped = false →
      unescapeEntities none (before ++ (entity.1.toList ++ after)) =
        unescapeEntities none before ++
          ((if (QuoteState.start.after before).quote = none then [entity.2]
            else entity.1.toList) ++
            unescapeEntities (QuoteState.start.after before).quote after)) ∧
    ((QuoteState.start.marks text.toList = (Scanner.start text).quoted ∧
        (QuoteState.start.after text.toList).quote = none) ↔
      ∀ construct, (Scanner.start text).Construct construct → Scanner.Aligned construct) := by
  refine ⟨restoreOperators_line_iff _, fun entity hentity hescaped =>
    unescapeEntities_entity hentity hescaped after, ?_⟩
  obtain ⟨t, hrun, -⟩ := TokenStream.ofText_eq_ok_iff.1 h
  exact Scanner.agrees_run_iff hrun ⟨rfl, nofun⟩

/-- Quotes side by side, a comment without a quote, and an entity between quotes. -/
theorem restoreOperators_quotes_apart :
    let text := "echo 'a' \"b\" # c"
    (∃ stream, TokenStream.ofText text = .ok stream ∧
      ∀ construct, (Scanner.start text).Construct construct → Scanner.Aligned construct) ∧
    (∀ script, ∃ front, restoreOperators ("#" ++ " c" ++ "\n" ++ script) =
      front ++ "\n" ++ restoreOperators script) ∧
    unescapeEntities none ("a'".toList ++ ("&lt;".toList ++ "'".toList)) =
      unescapeEntities none "a'".toList ++
        ("&lt;".toList ++ unescapeEntities (some '\'') ['\'']) := by
  intro text
  have hstream : TokenStream.ofText text = .ok ⟨[⟨.word, "echo", 1, none, none⟩,
      ⟨.word, "'a'", 1, none, none⟩, ⟨.word, "\"b\"", 1, none, none⟩], 1⟩ := by cbv
  have hmarks : QuoteState.start.marks text.toList = (Scanner.start text).quoted := by
    decide +kernel
  obtain ⟨hcomment, hentity, hscript⟩ :=
    restoreOperators_quotes " c" "a'".toList "'".toList hstream
  exact ⟨⟨_, hstream, hscript.1 ⟨hmarks, by decide +kernel⟩⟩, hcomment.2 (by decide +kernel),
    hentity ("&lt;", '<') (by simp [entities]) (by decide +kernel)⟩

/-- **Quotes that do not stay apart:** an apostrophe in a comment, and quotes in a substitution
between quotes. -/
theorem restoreOperators_quotes_astray :
    (¬ ∃ front, restoreOperators ("#" ++ " it's" ++ "\n" ++ "&lt;") =
      front ++ "\n" ++ restoreOperators "&lt;") ∧
    let text := "\"$(echo \"b\")\""
    TokenStream.ofText text = .ok ⟨[⟨.word, text, 1, none, none⟩], 1⟩ ∧
      QuoteState.start.marks text.toList ≠ (Scanner.start text).quoted := by
  refine ⟨?_, by cbv, fun h => ?_⟩
  · rintro ⟨front, hfront⟩
    have hscript : restoreOperators ("#" ++ " it's" ++ "\n" ++ "&lt;") = "# it's\n&lt;" := by cbv
    have hrest : restoreOperators "&lt;" = "<" := by cbv
    have hlast := congrArg List.getLast? (congrArg String.toList hfront)
    rw [hscript, hrest] at hlast
    simp at hlast
  · -- the `b` is inside of quotes twice, and taken for outside of them
    have htracked : (QuoteState.start.marks "\"$(echo \"b\")\"".toList)[9]? = some false := by cbv
    have hread : (Scanner.start "\"$(echo \"b\")\"").quoted[9]? = some true := by cbv
    rw [h, hread] at htracked
    cases htracked

end Text

end VirtualShell
