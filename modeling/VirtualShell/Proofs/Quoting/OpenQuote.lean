import VirtualShell.Proofs.Quoting.Braces
import VirtualShell.Proofs.Quoting.Entity

/-!
# The quotes that are open

Operators are put back in a script before it is read, except inside of quotes. The quote that is
open is tracked there character by character, with backslashes and nothing else; the lexer knows
what nests in quotes, too. In a text that the lexer scans the two see the same quotes if and only if
none stands inside of quotes of its own kind or between backticks.

* `QuoteState.marks` — the quotes that are tracked.
* `Delimiter.quoted` — the quotes that the scan is in.
* `Delimiter.Aligned` — texts in which quotes stay apart.
* **`Delimiter.agrees_iff_aligned`** — these are the texts in which the two agree.
-/

namespace VirtualShell

/-! ## Tracking -/

namespace Text.QuoteState

/-- Whether a quote is open in front of each character of a text. -/
def marks (s : QuoteState) : List Char → List Bool
  | [] => []
  | c :: rest => s.quote.isSome :: (s.next c).marks rest

@[simp] theorem length_marks (s : QuoteState) (text : List Char) :
    (s.marks text).length = text.length := by
  induction text generalizing s with
  | nil => rfl
  | cons c rest ih => simp [marks, ih]

theorem marks_append (s : QuoteState) (text rest : List Char) :
    s.marks (text ++ rest) = s.marks text ++ (s.after text).marks rest := by
  induction text generalizing s with
  | nil => rfl
  | cons c text ih => simp [marks, ih]

/-- **A text that leaves the quotes as they are:** the same quote is open in front of each character
and behind the last. -/
def Keeps (s : QuoteState) (text : List Char) : Prop :=
  ∀ front, front <+: text → (s.after front).quote = s.quote

theorem keeps_nil (s : QuoteState) : s.Keeps [] := by
  intro front hfront
  rw [List.prefix_nil.1 hfront]
  rfl

theorem keeps_cons_iff {s : QuoteState} {c : Char} {rest : List Char} :
    s.Keeps (c :: rest) ↔ (s.next c).quote = s.quote ∧ (s.next c).Keeps rest := by
  constructor
  · intro h
    have hfirst : (s.next c).quote = s.quote := h [c] ⟨rest, rfl⟩
    exact ⟨hfirst, fun front hfront =>
      (h (c :: front) ((List.prefix_cons_inj c).2 hfront)).trans hfirst.symm⟩
  · rintro ⟨hfirst, h⟩ front hfront
    cases front with
    | nil => rfl
    | cons x front =>
      obtain ⟨rfl, hrest⟩ := List.cons_prefix_cons.1 hfront
      exact (h front hrest).trans hfirst

/-- A character opens a quote or closes one, and does not change one for another. -/
theorem quote_next {s : QuoteState} {c : Char}
    (h : (s.next c).quote.isSome = s.quote.isSome) : (s.next c).quote = s.quote := by
  obtain ⟨quote, escaped⟩ := s
  unfold next at h ⊢
  cases escaped <;> cases quote <;> simp_all
  all_goals split <;> simp_all

/-- Marks that stay as they are tell the same. -/
theorem keeps_iff_marks {s : QuoteState} {text : List Char} : s.Keeps text ↔
    s.marks text = text.map (fun _ => s.quote.isSome) ∧
      (s.after text).quote.isSome = s.quote.isSome := by
  induction text generalizing s with
  | nil => simp [keeps_nil, marks]
  | cons c rest ih =>
    rw [keeps_cons_iff, ih]
    constructor
    · rintro ⟨hfirst, hmarks, hlast⟩
      rw [hfirst] at hmarks hlast
      exact ⟨by simp [marks, hmarks], hlast⟩
    · rintro ⟨hmarks, hlast⟩
      have hrest : (s.next c).marks rest = rest.map fun _ => s.quote.isSome := by
        simpa [marks] using hmarks
      have hfirst : (s.next c).quote = s.quote := by
        refine quote_next ?_
        cases rest with
        | nil => exact hlast
        | cons x rest => exact (List.cons.inj hrest).1
      rw [hfirst]
      exact ⟨rfl, hrest, hlast⟩

/-- The characters that change what is open. -/
def changing : Option Char → List Char
  | none => ['\'', '"']
  | some q => [q]

/-- **Where backslashes count**, a text leaves the quotes as they are if and only if it hides what
changes them. -/
theorem hides_iff_keeps {quote : Option Char} (hquote : quote = none ∨ quote = some '"')
    (escaped : Bool) (text : List Char) :
    Hides (changing quote) ((if escaped then ['\\'] else []) ++ text) ↔
      Keeps ⟨quote, escaped⟩ text ∧ (after ⟨quote, escaped⟩ text).escaped = false := by
  induction text generalizing escaped with
  | nil =>
    cases escaped with
    | false => simp [keeps_nil, Hides.nil]
    | true => simp [Hides.not_backslash]
  | cons c rest ih =>
    rw [keeps_cons_iff, after_cons]
    cases escaped with
    | true =>
      have hnext : next ⟨quote, true⟩ c = ⟨quote, false⟩ := rfl
      rw [hnext]
      simpa [Hides.escaped_iff] using ih false
    | false =>
      by_cases hc : c = '\\'
      · have hnext : next ⟨quote, false⟩ c = ⟨quote, true⟩ := by
          rcases hquote with rfl | rfl <;> simp [next, hc]
        rw [hnext, hc]
        simpa using ih true
      · rw [if_neg (by simp), List.nil_append, Hides.plain_iff hc]
        have hrest := ih false
        rw [if_neg (by simp), List.nil_append] at hrest
        rw [hrest]
        by_cases hmark : c ∈ changing quote
        · refine iff_of_false (fun h => h.1 hmark) fun h => ?_
          have hquoted := h.1.1
          rcases hquote with rfl | rfl
          · have hcases : c = '\'' ∨ c = '"' := by simpa [changing] using hmark
            simp [next, hc, hcases] at hquoted
          · obtain rfl : c = '"' := by simpa [changing] using hmark
            simp [next] at hquoted
        · have hnext : next ⟨quote, false⟩ c = ⟨quote, false⟩ := by
            rcases hquote with rfl | rfl <;> simp_all [next, changing]
          rw [hnext]
          simp [hmark]

/-- A character that is no quote and no backslash changes nothing outside of quotes. -/
def IsPlain (c : Char) : Prop := c ≠ '\'' ∧ c ≠ '"' ∧ c ≠ '\\'

theorem next_of_isPlain {s : QuoteState} (hs : s.quote = none) {c : Char} (hc : IsPlain c) :
    s.next c = start := by
  obtain ⟨quote, escaped⟩ := s
  cases hs
  obtain ⟨hsingle, hdouble, hescape⟩ := hc
  cases escaped <;> simp [next, start, hsingle, hdouble, hescape]

/-- **Outside of quotes** a text opens none if and only if it hides them from what follows. -/
theorem hides_append_iff {c : Char} (hc : IsPlain c) {text : List Char} :
    Hides ['\'', '"'] (text ++ [c]) ↔ start.Keeps text := by
  have hhides : Hides ['\'', '"'] (text ++ [c]) ↔
      start.Keeps (text ++ [c]) ∧ (start.after (text ++ [c])).escaped = false :=
    hides_iff_keeps (.inl rfl) false (text ++ [c])
  refine hhides.trans ⟨fun h front hfront => h.1 front (hfront.trans (List.prefix_append _ _)),
    fun h => ?_⟩
  have hlast : start.after (text ++ [c]) = start := by
    have hquote : (start.after text).quote = none := h text (List.prefix_refl _)
    rw [after_append]
    exact next_of_isPlain hquote hc
  refine ⟨fun front hfront => ?_, by rw [hlast]; rfl⟩
  rcases List.prefix_concat_iff.1 hfront with rfl | hfront
  · rw [hlast]
  · exact h front hfront

end Text.QuoteState

/-! ## What the lexer sees -/

namespace Delimiter

/-- Quotes, in which text is taken as it stands. -/
def isQuote : Delimiter → Bool
  | .single | .double => true
  | .backtick | .paren | .brace => false

/-- **Whether the scan is inside of quotes** in front of each character of a text, at any depth. -/
def quoted (stack : List Delimiter) : List Char → List Bool
  | [] => []
  | c :: rest =>
    stack.any isQuote ::
      match move stack.head? c rest.head? with
      | .pass => quoted stack rest
      | .enter d => quoted (d :: stack) rest
      | .leave => quoted stack.tail rest
      | .escape =>
        match rest with
        | _ :: rest => stack.any isQuote :: quoted stack rest
        | [] => []
      | .enterPair d =>
        match rest with
        | _ :: rest => stack.any isQuote :: quoted (d :: stack) rest
        | [] => []

@[simp] theorem length_quoted (stack : List Delimiter) (text : List Char) :
    (quoted stack text).length = text.length := by
  fun_induction quoted stack text with
  | case1 => rfl
  | case2 stack c rest => cases move stack.head? c rest.head? <;> cases rest <;> simp_all

variable {context : Option Delimiter} {stack : List Delimiter} {c : Char} {rest : List Char}

theorem quoted_pass (h : move stack.head? c rest.head? = .pass) :
    quoted stack (c :: rest) = stack.any isQuote :: quoted stack rest := by
  rw [quoted.eq_def]
  simp only [h]

theorem quoted_enter {d : Delimiter} (h : move stack.head? c rest.head? = .enter d) :
    quoted stack (c :: rest) = stack.any isQuote :: quoted (d :: stack) rest := by
  rw [quoted.eq_def]
  simp only [h]

theorem quoted_escape {x : Char} (h : move stack.head? c (some x) = .escape) :
    quoted stack (c :: x :: rest) =
      stack.any isQuote :: stack.any isQuote :: quoted stack rest := by
  rw [quoted.eq_def]
  simp only [List.head?_cons, h]

theorem quoted_enterPair {x : Char} {d : Delimiter}
    (h : move stack.head? c (some x) = .enterPair d) :
    quoted stack (c :: x :: rest) =
      stack.any isQuote :: stack.any isQuote :: quoted (d :: stack) rest := by
  rw [quoted.eq_def]
  simp only [List.head?_cons, h]

theorem quoted_closer (d : Delimiter) :
    quoted (d :: stack) (d.closer :: rest) = (d :: stack).any isQuote :: quoted stack rest := by
  rw [quoted.eq_def]
  simp only [List.head?_cons, move_closer, List.tail_cons]

/-- What the scan sees in a span does not depend on what closes behind it. -/
theorem quoted_append {text : List Char} (h : Spans context text) {stack : List Delimiter}
    (hcontext : context = stack.head?) (hinside : context ≠ none) (d : Delimiter)
    (rest : List Char) :
    quoted stack (text ++ d.closer :: rest) =
      quoted stack text ++ quoted stack (d.closer :: rest) := by
  induction h generalizing d stack rest with
  | nil => rfl
  | last => exact absurd rfl hinside
  | @pass context c text hmove _ ih =>
    have hnext : move context c (text ++ d.closer :: rest).head? = .pass := by
      cases text with
      | nil =>
        rw [← move_none_of_pass hmove]
        exact move_eq_move_none _ _ (by simpa using d.closer_ne.1) (by simpa using d.closer_ne.2)
      | cons y text => exact hmove
    subst hcontext
    rw [List.cons_append, quoted_pass hnext, ih rfl hinside, quoted_pass hmove, List.cons_append]
  | escape hmove _ ih =>
    subst hcontext
    rw [List.cons_append, List.cons_append, quoted_escape (hmove _), ih rfl hinside,
      quoted_escape (hmove _), List.cons_append, List.cons_append]
  | @enter context d₁ c inner after hmove _ _ text htext ihinner ih =>
    subst hcontext
    rw [← htext, List.cons_append, quoted_enter (hmove _), List.append_assoc, List.cons_append,
      ihinner rfl (by simp), quoted_closer, ih rfl hinside, quoted_enter (hmove _),
      ihinner rfl (by simp), quoted_closer]
    simp
  | @enterPair context d₁ c y inner after hmove _ _ text htext ihinner ih =>
    subst hcontext
    rw [← htext, List.cons_append, List.cons_append, quoted_enterPair hmove, List.append_assoc,
      List.cons_append, ihinner rfl (by simp), quoted_closer, ih rfl hinside,
      quoted_enterPair hmove, ihinner rfl (by simp), quoted_closer]
    simp

/-- A span and what closes behind it. -/
theorem quoted_span {d : Delimiter} {inner : List Char} (h : Spans (some d) inner) :
    quoted (d :: stack) (inner ++ d.closer :: rest) =
      quoted (d :: stack) inner ++ (d :: stack).any isQuote :: quoted stack rest := by
  rw [quoted_append h rfl (by simp), quoted_closer]

/-- Everything inside of quotes is. -/
theorem quoted_of_any {text : List Char} (h : Spans context text) {stack : List Delimiter}
    (hcontext : context = stack.head?) (hquote : stack.any isQuote = true) :
    quoted stack text = text.map fun _ => true := by
  induction h generalizing stack with
  | nil => rfl
  | last => cases stack <;> simp_all
  | pass hmove _ ih =>
    subst hcontext
    rw [quoted_pass hmove, ih rfl hquote, hquote]
    rfl
  | escape hmove _ ih =>
    subst hcontext
    rw [quoted_escape (hmove _), ih rfl hquote, hquote]
    rfl
  | @enter context d c inner after hmove hinner _ text htext ihinner ih =>
    subst hcontext
    have hinside : (d :: stack).any isQuote = true := by simp [hquote]
    rw [← htext, quoted_enter (hmove _), quoted_span hinner, ihinner rfl hinside,
      ih rfl hquote, hinside, hquote]
    simp
  | @enterPair context d c y inner after hmove hinner _ text htext ihinner ih =>
    subst hcontext
    have hinside : (d :: stack).any isQuote = true := by simp [hquote]
    rw [← htext, quoted_enterPair hmove, quoted_span hinner, ihinner rfl hinside,
      ih rfl hquote, hinside, hquote]
    simp

/-- Between backticks nothing nests, so nothing is quoted there that is not quoted around. -/
theorem quoted_backtick {text : List Char} (h : Spans (some .backtick) text)
    (hquote : stack.any isQuote = false) :
    quoted (.backtick :: stack) text = text.map fun _ => false := by
  have hinside : (Delimiter.backtick :: stack).any isQuote = false := by
    simpa [isQuote] using hquote
  have hnest (c : Char) (next : Option Char) :
      (∀ d, move (some .backtick) c next ≠ .enter d) ∧
        ∀ d, move (some .backtick) c next ≠ .enterPair d := by
    unfold move
    split <;> simp_all
  generalize hcontext : some Delimiter.backtick = context at h
  induction h with
  | nil => rfl
  | last => cases hcontext
  | pass hmove _ ih =>
    subst hcontext
    have hmove : move (Delimiter.backtick :: stack).head? _ _ = .pass := hmove
    rw [quoted_pass hmove, ih rfl, hinside]
    rfl
  | escape hmove _ ih =>
    subst hcontext
    have hmove : ∀ next, move (Delimiter.backtick :: stack).head? _ next = .escape := hmove
    rw [quoted_escape (hmove _), ih rfl, hinside]
    rfl
  | enter hmove =>
    subst hcontext
    exact absurd (hmove none) ((hnest _ _).1 _)
  | enterPair hmove =>
    subst hcontext
    exact absurd hmove ((hnest _ _).2 _)

/-! ## Where the two agree -/

open Text (QuoteState)

/-- **The quotes that are tracked are those of the scan**, in front of each character and behind the
last. -/
def Agrees (stack : List Delimiter) (text : List Char) : Prop :=
  QuoteState.start.marks text = quoted stack text ∧ (QuoteState.start.after text).quote = none

/-- In a span and behind it. -/
theorem marks_span_iff {d : Delimiter} {inner : List Char} (h : Spans (some d) inner)
    (s : QuoteState) :
    s.marks (inner ++ d.closer :: rest) = quoted (d :: stack) (inner ++ d.closer :: rest) ↔
      s.marks inner = quoted (d :: stack) inner ∧
        (s.after inner).quote.isSome = (d :: stack).any isQuote ∧
        ((s.after inner).next d.closer).marks rest = quoted stack rest := by
  rw [quoted_span h, QuoteState.marks_append, QuoteState.marks]
  constructor
  · intro heq
    obtain ⟨hinner, hrest⟩ := List.append_inj heq (by simp)
    exact ⟨hinner, List.cons.inj hrest⟩
  · rintro ⟨hinner, hcloser, hrest⟩
    rw [hinner, hcloser, hrest]

theorem eq_opener_of_enter {d : Delimiter} {next : Option Char}
    (hmove : move context c next = .enter d) : c = d.opener := by
  unfold move at hmove
  split at hmove <;> grind [opener]

theorem of_enterPair {x : Char} {d : Delimiter} (hmove : move context c (some x) = .enterPair d) :
    c = '$' ∧ x = d.opener ∧ (d = .paren ∨ d = .brace) := by
  unfold move at hmove
  split at hmove <;> grind [opener]

/-- The delimiters that are not quotes are ordinary characters for the tracking. -/
theorem isPlain_of_not_quote {d : Delimiter} (hd : d.isQuote = false) :
    QuoteState.IsPlain d.opener ∧ QuoteState.IsPlain d.closer := by
  cases d with
  | single | double => cases hd
  | backtick | paren | brace => simp [QuoteState.IsPlain, opener, closer]

section

variable (hquote : stack.any isQuote = false)
include hquote

theorem agrees_pass_iff (hc : QuoteState.IsPlain c) (h : move stack.head? c rest.head? = .pass) :
    Agrees stack (c :: rest) ↔ Agrees stack rest := by
  have hnext : QuoteState.start.next c = QuoteState.start := QuoteState.next_of_isPlain rfl hc
  rw [Agrees, Agrees, quoted_pass h, hquote, QuoteState.marks, QuoteState.after_cons, hnext]
  simp [QuoteState.start]

theorem agrees_escape_iff {x : Char} (h : move stack.head? c (some x) = .escape) :
    Agrees stack (c :: x :: rest) ↔ Agrees stack rest := by
  obtain rfl := eq_of_move_escape h
  have hnext : (QuoteState.start.next '\\').next x = QuoteState.start := rfl
  rw [Agrees, Agrees, quoted_escape h, hquote, QuoteState.marks, QuoteState.marks,
    QuoteState.after_cons, QuoteState.after_cons, hnext]
  simp [QuoteState.start, QuoteState.next]

/-- What nests without a quote is tracked on its own. -/
theorem agrees_span_iff {d : Delimiter} (hd : d.isQuote = false) {inner : List Char}
    (h : Spans (some d) inner) :
    (QuoteState.start.marks (inner ++ d.closer :: rest) =
        quoted (d :: stack) (inner ++ d.closer :: rest) ∧
      (QuoteState.start.after (inner ++ d.closer :: rest)).quote = none) ↔
      Agrees (d :: stack) inner ∧ Agrees stack rest := by
  have hinside : (d :: stack).any isQuote = false := by simpa [hd] using hquote
  have hnext (hnone : (QuoteState.start.after inner).quote = none) :
      (QuoteState.start.after inner).next d.closer = QuoteState.start :=
    QuoteState.next_of_isPlain hnone (isPlain_of_not_quote hd).2
  rw [marks_span_iff h, hinside, QuoteState.after_append, QuoteState.after_cons]
  constructor
  · rintro ⟨⟨hinner, hcloser, hrest⟩, hlast⟩
    have hnone : (QuoteState.start.after inner).quote = none := by simpa using hcloser
    rw [hnext hnone] at hrest hlast
    exact ⟨⟨hinner, hnone⟩, hrest, hlast⟩
  · rintro ⟨⟨hinner, hnone⟩, hrest, hlast⟩
    rw [hnext hnone]
    exact ⟨⟨hinner, by simp [hnone], hrest⟩, hlast⟩

/-- Between backticks the tracking sees the quotes that are not hidden, and the scan sees none. -/
theorem agrees_backtick_iff {inner : List Char} (h : Spans (some .backtick) inner) :
    Agrees (.backtick :: stack) inner ↔ Hides ['\'', '"'] (inner ++ ['\x60']) := by
  have hkeeps : Hides ['\'', '"'] (inner ++ ['\x60']) ↔ QuoteState.start.Keeps inner :=
    QuoteState.hides_append_iff ⟨by decide, by decide, by decide⟩
  rw [hkeeps, QuoteState.keeps_iff_marks, Agrees, quoted_backtick h hquote]
  simp [QuoteState.start]

omit hquote in
theorem not_mem_of_spans_single {text : List Char} (h : Spans (some .single) text) :
    '\'' ∉ text := by
  have hpass {c : Char} {next : Option Char} (h : move (some .single) c next ≠ .leave) :
      c ≠ '\'' ∧ move (some .single) c next = .pass := by
    unfold move at h ⊢
    split <;> simp_all
  generalize hcontext : some Delimiter.single = context at h
  induction h with
  | nil => simp
  | last => cases hcontext
  | pass hmove _ ih =>
    subst hcontext
    have hne := (hpass (by rw [hmove]; simp)).1
    simpa [Ne.symm hne] using ih rfl
  | escape hmove | enter hmove | enterPair hmove =>
    subst hcontext
    have := (hpass (by first | rw [hmove none]; simp | rw [hmove]; simp)).2
    simp_all

omit hquote in
/-- Single quotes are tracked as the scan sees them. -/
theorem agrees_single_iff {inner : List Char} (h : Spans (some .single) inner) :
    (QuoteState.marks ⟨some '\'', false⟩ (inner ++ '\'' :: rest) =
        quoted (.single :: stack) (inner ++ '\'' :: rest) ∧
      (QuoteState.after ⟨some '\'', false⟩ (inner ++ '\'' :: rest)).quote = none) ↔
      Agrees stack rest := by
  have hnone := not_mem_of_spans_single h
  have hstays : QuoteState.after ⟨some '\'', false⟩ inner = ⟨some '\'', false⟩ ∧
      QuoteState.Keeps ⟨some '\'', false⟩ inner := by
    clear h
    induction inner with
    | nil => exact ⟨rfl, QuoteState.keeps_nil _⟩
    | cons c inner ih =>
      simp only [List.mem_cons, not_or] at hnone
      have hnext : QuoteState.next ⟨some '\'', false⟩ c = ⟨some '\'', false⟩ := by
        simp [QuoteState.next, Ne.symm hnone.1]
      rw [QuoteState.after_cons, QuoteState.keeps_cons_iff, hnext]
      exact ⟨(ih hnone.2).1, rfl, (ih hnone.2).2⟩
  obtain ⟨hafter, hkeeps⟩ := hstays
  have hmarks := (QuoteState.keeps_iff_marks.1 hkeeps).1
  have hquoted : quoted (.single :: stack) inner = inner.map fun _ => true :=
    quoted_of_any h rfl rfl
  have hclose : QuoteState.next ⟨some '\'', false⟩ '\'' = QuoteState.start := rfl
  have hspan := @marks_span_iff stack rest .single inner h ⟨some '\'', false⟩
  rw [show Delimiter.single.closer = '\'' from rfl] at hspan
  rw [hspan, QuoteState.after_append, QuoteState.after_cons, hafter, hclose, hmarks, hquoted]
  simp [isQuote, Agrees]

/-- Outside of quotes none may be tracked. -/
theorem quote_of_marks {s : QuoteState} (hmarks : s.marks rest = quoted stack rest)
    (hlast : (s.after rest).quote = none) : s.quote = none := by
  cases rest with
  | nil => exact hlast
  | cons c rest =>
    rw [quoted.eq_def, QuoteState.marks, hquote] at hmarks
    simpa using (List.cons.inj hmarks).1

/-- **Double quotes** are tracked as the scan sees them if and only if those inside are hidden. -/
theorem agrees_double_iff {inner : List Char} (h : Spans (some .double) inner) :
    (QuoteState.marks ⟨some '"', false⟩ (inner ++ '"' :: rest) =
        quoted (.double :: stack) (inner ++ '"' :: rest) ∧
      (QuoteState.after ⟨some '"', false⟩ (inner ++ '"' :: rest)).quote = none) ↔
      Hides ['"'] inner ∧ Agrees stack rest := by
  have hquoted : quoted (.double :: stack) inner = inner.map fun _ => true :=
    quoted_of_any h rfl rfl
  have hhides : Hides ['"'] inner ↔ QuoteState.Keeps ⟨some '"', false⟩ inner ∧
      (QuoteState.after ⟨some '"', false⟩ inner).escaped = false :=
    QuoteState.hides_iff_keeps (.inr rfl) false inner
  have hspan := @marks_span_iff stack rest .double inner h ⟨some '"', false⟩
  rw [show Delimiter.double.closer = '"' from rfl] at hspan
  rw [hhides, hspan, QuoteState.after_append, QuoteState.after_cons, hquoted]
  have hclose : QuoteState.next ⟨some '"', false⟩ '"' = QuoteState.start := rfl
  constructor
  · rintro ⟨⟨hinner, hcloser, hrest⟩, hlast⟩
    have hkeeps : QuoteState.Keeps ⟨some '"', false⟩ inner :=
      QuoteState.keeps_iff_marks.2 ⟨hinner, hcloser⟩
    have hopen : (QuoteState.after ⟨some '"', false⟩ inner).quote = some '"' :=
      hkeeps inner (List.prefix_refl _)
    generalize QuoteState.after ⟨some '"', false⟩ inner = state at hopen hrest hlast ⊢
    obtain ⟨_, escaped⟩ := state
    cases hopen
    cases escaped with
    | false => exact ⟨⟨hkeeps, rfl⟩, hrest, hlast⟩
    | true =>
      -- the quote that closes would be escaped, and stay open
      have hstill : QuoteState.next ⟨some '"', true⟩ '"' = ⟨some '"', false⟩ := rfl
      exact absurd (quote_of_marks hquote hrest hlast) (by rw [hstill]; simp)
  · rintro ⟨⟨hkeeps, hescaped⟩, hrest, hlast⟩
    have hopen : QuoteState.after ⟨some '"', false⟩ inner = ⟨some '"', false⟩ := by
      have hopen := hkeeps inner (List.prefix_refl _)
      generalize QuoteState.after ⟨some '"', false⟩ inner = state at hopen hescaped ⊢
      obtain ⟨_, _⟩ := state
      cases hopen
      cases hescaped
      rfl
    have hmarks := (QuoteState.keeps_iff_marks.1 hkeeps).1
    rw [hopen, hclose]
    exact ⟨⟨hmarks, rfl, hrest⟩, hlast⟩

end

/-! ### Words -/

/-- What is in quotes or between backticks leads nobody astray: double quotes in double quotes, and
all quotes between backticks, are hidden. -/
def Conceals : Delimiter → List Char → Prop
  | .single, _ => True
  | .double, inner => Hides ['"'] inner
  | .backtick, inner => Hides ['\'', '"'] (inner ++ ['\x60'])
  | .paren, _ | .brace, _ => False

/-- **A span in which quotes stay apart:** no quote stands in quotes of its kind or between
backticks, except behind a backslash. -/
inductive Aligned : Option Delimiter → List Char → Prop where
  | nil (context : Option Delimiter) : Aligned context []
  | last : Aligned none ['\\']
  | pass {context : Option Delimiter} {c : Char} {rest : List Char}
      (hmove : move context c rest.head? = .pass) (hrest : Aligned context rest) :
      Aligned context (c :: rest)
  | escape {context : Option Delimiter} {c x : Char} {rest : List Char}
      (hmove : ∀ next, move context c next = .escape) (hrest : Aligned context rest) :
      Aligned context (c :: x :: rest)
  | enclose {context : Option Delimiter} {d : Delimiter} {c : Char} {inner rest : List Char}
      (hmove : ∀ next, move context c next = .enter d) (hinner : Spans (some d) inner)
      (hconceals : d.Conceals inner) (hrest : Aligned context rest) :
      Aligned context (c :: (inner ++ d.closer :: rest))
  | nest {context : Option Delimiter} {d : Delimiter} {c : Char} {inner rest : List Char}
      (hmove : ∀ next, move context c next = .enter d) (hd : d = .paren ∨ d = .brace)
      (hinner : Aligned (some d) inner) (hrest : Aligned context rest) :
      Aligned context (c :: (inner ++ d.closer :: rest))
  | nestPair {context : Option Delimiter} {d : Delimiter} {c x : Char} {inner rest : List Char}
      (hmove : move context c (some x) = .enterPair d) (hinner : Aligned (some d) inner)
      (hrest : Aligned context rest) :
      Aligned context (c :: x :: (inner ++ d.closer :: rest))

theorem Aligned.spans {text : List Char} (h : Aligned context text) : Spans context text := by
  induction h with
  | nil context => exact .nil context
  | last => exact .last
  | pass hmove _ ih => exact .pass hmove ih
  | escape hmove _ ih => exact .escape hmove ih
  | enclose hmove hinner _ _ ih => exact .enter hmove hinner ih rfl
  | nest hmove _ _ _ ihinner ih => exact .enter hmove ihinner ih rfl
  | nestPair hmove _ _ ihinner ih => exact .enterPair hmove ihinner ih rfl

/-- Where a quote is a quote. -/
def Outside (context : Option Delimiter) : Prop :=
  context = none ∨ context = some .paren ∨ context = some .brace

theorem isQuote_of_nests {d : Delimiter} (h : d = .paren ∨ d = .brace) : d.isQuote = false := by
  rcases h with rfl | rfl <;> rfl

theorem Outside.isPlain {next : Option Char} (h : Outside context)
    (hmove : move context c next = .pass) : QuoteState.IsPlain c := by
  refine ⟨?_, ?_, ?_⟩
  all_goals
    rintro rfl
    rcases h with rfl | rfl | rfl <;> simp [move] at hmove

section

variable (hquote : stack.any isQuote = false)
include hquote

/-- What is in quotes or between backticks. -/
theorem agrees_enclose_iff {d : Delimiter} (hmove : ∀ next, move stack.head? c next = .enter d)
    (hd : d ≠ .paren ∧ d ≠ .brace) {inner : List Char} (h : Spans (some d) inner) :
    Agrees stack (c :: (inner ++ d.closer :: rest)) ↔ d.Conceals inner ∧ Agrees stack rest := by
  obtain rfl := eq_opener_of_enter (hmove none)
  rw [Agrees, quoted_enter (hmove _), hquote, QuoteState.marks, QuoteState.after_cons]
  simp only [QuoteState.start, Option.isSome_none, List.cons.injEq, true_and]
  cases d with
  | single => exact (agrees_single_iff h).trans (by simp [Conceals])
  | double => exact agrees_double_iff hquote h
  | backtick =>
    exact (agrees_span_iff hquote rfl h).trans (and_congr_left' (agrees_backtick_iff hquote h))
  | paren => exact absurd rfl hd.1
  | brace => exact absurd rfl hd.2

/-- What is in parentheses or braces. -/
theorem agrees_nest_iff {d : Delimiter} (hmove : ∀ next, move stack.head? c next = .enter d)
    (hd : d.isQuote = false) {inner : List Char} (h : Spans (some d) inner) :
    Agrees stack (c :: (inner ++ d.closer :: rest)) ↔
      Agrees (d :: stack) inner ∧ Agrees stack rest := by
  obtain rfl := eq_opener_of_enter (hmove none)
  have hnext : QuoteState.start.next d.opener = QuoteState.start :=
    QuoteState.next_of_isPlain rfl (isPlain_of_not_quote hd).1
  rw [Agrees, quoted_enter (hmove _), hquote, QuoteState.marks, QuoteState.after_cons, hnext,
    ← agrees_span_iff hquote hd h]
  simp [QuoteState.start]

theorem agrees_nestPair_iff {x : Char} {d : Delimiter}
    (hmove : move stack.head? c (some x) = .enterPair d) {inner : List Char}
    (h : Spans (some d) inner) :
    Agrees stack (c :: x :: (inner ++ d.closer :: rest)) ↔
      Agrees (d :: stack) inner ∧ Agrees stack rest := by
  obtain ⟨rfl, rfl, hd⟩ := of_enterPair hmove
  have hquote' := isQuote_of_nests hd
  have hfirst : QuoteState.start.next '$' = QuoteState.start := rfl
  have hsecond : QuoteState.start.next d.opener = QuoteState.start :=
    QuoteState.next_of_isPlain rfl (isPlain_of_not_quote hquote').1
  rw [Agrees, quoted_enterPair hmove, hquote, QuoteState.marks, QuoteState.after_cons, hfirst,
    QuoteState.marks, QuoteState.after_cons, hsecond, ← agrees_span_iff hquote hquote' h]
  simp [QuoteState.start]

end

/-- **The quotes of a span are tracked as the scan sees them** if and only if they stay apart. -/
theorem agrees_iff_aligned {text : List Char} (h : Spans context text) {stack : List Delimiter}
    (hcontext : context = stack.head?) (houtside : Outside context)
    (hquote : stack.any isQuote = false) : Agrees stack text ↔ Aligned context text := by
  constructor
  · intro hagrees
    induction h generalizing stack with
    | nil context => exact .nil context
    | last => exact .last
    | pass hmove _ ih =>
      subst hcontext
      exact .pass hmove
        (ih rfl houtside hquote ((agrees_pass_iff hquote (houtside.isPlain hmove) hmove).1 hagrees))
    | escape hmove _ ih =>
      subst hcontext
      exact .escape hmove (ih rfl houtside hquote ((agrees_escape_iff hquote (hmove _)).1 hagrees))
    | @enter context d c inner after hmove hinner _ text htext ihinner ih =>
      subst hcontext htext
      by_cases hd : d = .paren ∨ d = .brace
      · have hd' := isQuote_of_nests hd
        obtain ⟨hin, hafter⟩ := (agrees_nest_iff hquote hmove hd' hinner).1 hagrees
        exact .nest hmove hd
          (ihinner rfl (.inr (by simpa using hd)) (by simp [hd', hquote]) hin)
          (ih rfl houtside hquote hafter)
      · obtain ⟨hconceals, hafter⟩ :=
          (agrees_enclose_iff hquote hmove (by simpa using hd) hinner).1 hagrees
        exact .enclose hmove hinner hconceals (ih rfl houtside hquote hafter)
    | @enterPair context d c x inner after hmove hinner _ text htext ihinner ih =>
      subst hcontext htext
      obtain ⟨-, -, hd⟩ := of_enterPair hmove
      obtain ⟨hin, hafter⟩ := (agrees_nestPair_iff hquote hmove hinner).1 hagrees
      exact .nestPair hmove
        (ihinner rfl (.inr (by simpa using hd)) (by simp [isQuote_of_nests hd, hquote]) hin)
        (ih rfl houtside hquote hafter)
  · intro haligned
    clear h
    induction haligned generalizing stack with
    | nil => exact ⟨rfl, rfl⟩
    | last =>
      obtain rfl : stack = [] := List.head?_eq_none_iff.1 hcontext.symm
      exact ⟨rfl, rfl⟩
    | pass hmove _ ih =>
      subst hcontext
      exact (agrees_pass_iff hquote (houtside.isPlain hmove) hmove).2 (ih rfl houtside hquote)
    | escape hmove _ ih =>
      subst hcontext
      exact (agrees_escape_iff hquote (hmove _)).2 (ih rfl houtside hquote)
    | @enclose context d c inner after hmove hinner hconceals _ ih =>
      subst hcontext
      refine (agrees_enclose_iff hquote hmove ?_ hinner).2 ⟨hconceals, ih rfl houtside hquote⟩
      constructor <;> rintro rfl <;> exact hconceals
    | @nest context d c inner after hmove hd hinner _ ihinner ih =>
      subst hcontext
      have hd' := isQuote_of_nests hd
      exact (agrees_nest_iff hquote hmove hd' hinner.spans).2
        ⟨ihinner rfl (.inr (by simpa using hd)) (by simp [hd', hquote]), ih rfl houtside hquote⟩
    | @nestPair context d c x inner after hmove hinner _ ihinner ih =>
      subst hcontext
      obtain ⟨-, -, hd⟩ := of_enterPair hmove
      exact (agrees_nestPair_iff hquote hmove hinner.spans).2
        ⟨ihinner rfl (.inr (by simpa using hd)) (by simp [isQuote_of_nests hd, hquote]),
          ih rfl houtside hquote⟩

end Delimiter

end VirtualShell
