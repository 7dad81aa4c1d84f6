import Mathlib
import VirtualShell.Proofs.Quoting.Command
import VirtualShell.Proofs.Quoting.Substitution
import VirtualShell.Proofs.Reading.Extent

/-!
# Texts in `$'...'`

In `$'...'` a backslash stands before a quote or a backslash that belongs to the text. The reading of
a word knows these escapes, and the scan of a script does not. So a text is a word of a script in
this form exactly when there is no quote in it.

* `AnsiQuotation.quote` — a text in `$'...'`.
* `AnsiQuotation.takeAnsiQuoted_chars` — it is read back whatever is in it.
* `AnsiQuotation.not_spans_of_quote` — with a quote in it the scan does not pass over it.
* **`Word.closes_and_ansiQuoted`** — what the scan and the reading agree on.
-/

namespace VirtualShell

namespace AnsiQuotation

/-- A character of the text, with a backslash before it when it is a backslash or a quote. -/
def char (c : Char) : List Char := if c = '\\' ∨ c = '\'' then ['\\', c] else [c]

/-- The characters of a text, escaped. -/
def chars (text : List Char) : List Char := text.flatMap char

/-- **A text in `$'...'`.** -/
def quote (text : String) : String := String.ofList ('$' :: '\'' :: (chars text.toList ++ ['\'']))

theorem toList_quote (text : String) :
    (quote text).toList = '$' :: '\'' :: (chars text.toList ++ ['\'']) :=
  String.toList_ofList

/-! ## Reading the text back -/

/-- **The reading finds the text**, whatever is in it. -/
theorem takeAnsiQuoted_chars (text rest read : List Char) :
    takeAnsiQuoted read (chars text ++ '\'' :: rest) = some (read.reverse ++ text, rest) := by
  induction text generalizing read with
  | nil => simp [chars, takeAnsiQuoted]
  | cons c text ih =>
    rw [chars, List.flatMap_cons, char]
    split
    · next hc =>
      have hescape : ansiEscape? c = some c := by rcases hc with rfl | rfl <;> rfl
      rw [List.append_assoc, List.cons_append, List.cons_append, List.nil_append, takeAnsiQuoted,
        hescape]
      dsimp only
      rw [show text.flatMap char = chars text from rfl, ih]
      simp
    · next hc =>
      rw [not_or] at hc
      rw [List.append_assoc, List.cons_append, List.nil_append, takeAnsiQuoted,
        show text.flatMap char = chars text from rfl, ih]
      · simp
      · simp [hc.2]
      · simp [hc.1]

/-- **The only piece** of a text in `$'...'`. -/
theorem ofText_quote (text : String) : ∃ inner,
    Piece.ofText .unquoted (quote text).toList = [.part (.ansiQuoted inner text.toList)] := by
  have htilde : takeTilde (quote text).toList = none := by rw [toList_quote]; rfl
  have hread : takeAnsiQuoted [] (chars text.toList ++ ['\'']) = some (text.toList, []) :=
    takeAnsiQuoted_chars _ _ _
  have htake : ∃ inner, Piece.take .unquoted '$' ('\'' :: (chars text.toList ++ ['\''])) =
      (.part (.ansiQuoted inner text.toList), []) := by
    rw [show Piece.take .unquoted '$' _ = Piece.takeDollar .unquoted _ from rfl,
      Piece.takeDollar_ansi rfl, hread]
    exact ⟨_, rfl⟩
  obtain ⟨inner, htake⟩ := htake
  refine ⟨inner, ?_⟩
  simp only [Piece.ofText, beq_self_eq_true, if_true, htilde]
  rw [toList_quote, Piece.cut_cons (by decide), htake]
  simp [Piece.cut]

/-- A word is read from its pieces. -/
theorem parse_eq_assemble (text : String) : Word.parse text =
    ((Level.ofDepth (maxNesting - 1)).assemble [] [] (Piece.ofText .unquoted text.toList)).map
      (⟨·, text⟩) := by
  rw [Word.parse_eq, Level.partsOf_eq_assemble]

/-- **The word is the text**, quoted. -/
theorem parse_quote (text : String) : Word.parse (quote text) = .ok ⟨[.quoted text], quote text⟩ := by
  obtain ⟨inner, hpieces⟩ := ofText_quote text
  rw [parse_eq_assemble, hpieces]
  simp [Level.assemble, RawPart.read, Level.flush, Except.map]

/-- So it expands to the text in every shell. -/
theorem spells_quoted (text raw : String) : Word.Spells ⟨[.quoted text], raw⟩ text :=
  ⟨[text], .quotedText text, by simp, by simp⟩

/-! ## The scan of the text -/

theorem chars_of_no_quote {text : List Char} (h : '\'' ∉ text) : '\'' ∉ chars text := by
  simp only [chars, List.mem_flatMap, not_exists, not_and]
  intro c hc hmem
  have hne : c ≠ '\'' := fun heq => h (heq ▸ hc)
  rw [char] at hmem
  split at hmem
  · simp [Ne.symm hne] at hmem
  · simp [Ne.symm hne] at hmem

/-- The scan of a word passes over a text without a quote. -/
theorem scan_quote {text : String} (h : '\'' ∉ text.toList) :
    Delimiter.scan isMetacharacter [] [] (quote text).toList =
      .ok ((quote text).toList.reverse, []) := by
  have hscan := Quotation.scan_quote .single (chars text.toList) ['$'] []
  rw [Quotation.chars, Quotation.flatMap_single (chars_of_no_quote h), List.append_nil] at hscan
  rw [toList_quote, Delimiter.scan_pass _ _ rfl rfl]
  exact hscan.trans (by simp [Delimiter.scan, Quotation.mark])

/-- **One word.** A text without a quote is one word of a script. -/
theorem ofText_of_no_quote {text : String} (h : '\'' ∉ text.toList) : ∃ line,
    TokenStream.ofText (quote text) = .ok ⟨[⟨.word, quote text, 1, none, none⟩], line⟩ := by
  have hstart : (quote text).toList.head? = some '$' := by rw [toList_quote]; rfl
  exact ⟨_, TokenStream.ofText_of_scan hstart rfl (Text.isDigit_of_ascii (by decide)) (by decide)
    (by decide) (scan_quote h)⟩

/-! ## Texts with a quote -/

/-- The rest of a text in `$'...'`, with the quote that ends it. -/
def IsRest (text : List Char) : Prop := ∃ rest, text = chars rest ++ ['\'']

theorem isRest_cons {c : Char} {text : List Char} (h : IsRest (c :: text)) (hc : c ≠ '\\') :
    c = '\'' ∧ text = [] ∨ c ≠ '\'' ∧ IsRest text := by
  obtain ⟨rest, hrest⟩ := h
  cases rest with
  | nil =>
    obtain ⟨rfl, rfl⟩ := List.cons.inj hrest
    exact .inl ⟨rfl, rfl⟩
  | cons x rest =>
    rw [chars, List.flatMap_cons, char] at hrest
    split at hrest
    · exact absurd (List.cons.inj hrest).1 hc
    · next hx =>
      obtain ⟨rfl, rfl⟩ := List.cons.inj hrest
      rw [not_or] at hx
      exact .inr ⟨hx.2, rest, rfl⟩

theorem isRest_of_escape {x : Char} {text : List Char} (h : IsRest ('\\' :: x :: text)) :
    IsRest text := by
  obtain ⟨rest, hrest⟩ := h
  cases rest with
  | nil => simp [chars] at hrest
  | cons y rest =>
    rw [chars, List.flatMap_cons, char] at hrest
    split at hrest
    · simp only [List.cons_append, List.cons.injEq, true_and, List.nil_append] at hrest
      exact ⟨rest, hrest.2⟩
    · next hy => exact absurd (.inl (List.cons.inj hrest).1.symm) hy

theorem not_isRest_nil : ¬ IsRest [] := by simp [IsRest]

/-! ## The scan of the rest -/

section

open Delimiter

variable {context : Option Delimiter} {c : Char} {next : Option Char}

/-- Only a quote opens single quotes. -/
theorem eq_of_move_enter_single (h : move context c next = .enter .single) : c = '\'' := by
  unfold move at h
  split at h <;> grind

theorem ne_single_of_move_enterPair {d : Delimiter} (h : move context c next = .enterPair d) :
    d ≠ .single := by
  unfold move at h
  split at h <;> grind

theorem ne_backslash_of_move (hcontext : context ≠ some .single)
    (h : move context c next ≠ .escape) : c ≠ '\\' := by
  rintro rfl
  refine h ?_
  rcases context with - | d
  · rfl
  · cases d <;> first | rfl | exact absurd rfl hcontext

theorem isRest_of_closer {d : Delimiter} (hd : d ≠ .single) {text : List Char}
    (h : IsRest (d.closer :: text)) : IsRest text := by
  have hclosers : d.closer ≠ '\\' ∧ d.closer ≠ '\'' := by
    cases d <;> first | exact absurd rfl hd | decide
  rcases isRest_cons h hclosers.1 with ⟨hquote, -⟩ | ⟨-, hrest⟩
  · exact absurd hquote hclosers.2
  · exact hrest

theorem isRest_of_pair {x : Char} {d : Delimiter} (h : move context c (some x) = .enterPair d)
    {text : List Char} (hrest : IsRest (x :: text)) : IsRest text := by
  have hx : x = '(' ∨ x = '\x7b' := by simpa using next_of_move_enterPair h
  have hne : x ≠ '\\' ∧ x ≠ '\'' := by rcases hx with rfl | rfl <;> decide
  rcases isRest_cons hrest hne.1 with ⟨hquote, -⟩ | ⟨-, hrest⟩
  · exact absurd hquote hne.2
  · exact hrest

/-- What the scan passes over inside of a delimiter does not divide an escape, and does not hold the
quote that ends the text. -/
theorem isRest_of_spans {d : Delimiter} {inner : List Char} (h : Spans (some d) inner)
    (hd : d ≠ .single) {rest : List Char} (hne : rest ≠ []) (hrest : IsRest (inner ++ rest)) :
    IsRest rest := by
  generalize hcontext : some d = context at h
  have hsingle : context ≠ some .single := fun heq => hd (Option.some.inj (hcontext.trans heq))
  induction h generalizing d rest with
  | nil => exact hrest
  | last => cases hcontext
  | pass hmove _ ih =>
    have hc := ne_backslash_of_move hsingle (by rw [hmove]; nofun)
    rcases isRest_cons hrest hc with ⟨-, hnil⟩ | ⟨-, hrest⟩
    · exact absurd (List.append_eq_nil_iff.1 hnil).2 hne
    · exact ih hd hne hrest hcontext hsingle
  | escape hmove _ ih =>
    obtain rfl := eq_of_move_escape (hmove none)
    exact ih hd hne (isRest_of_escape hrest) hcontext hsingle
  | @enter context d' c inner after hmove _ _ text htext ihinner ih =>
    have hc := ne_backslash_of_move hsingle (by rw [hmove none]; nofun)
    rcases isRest_cons hrest hc with ⟨-, hnil⟩ | ⟨hquote, hrest⟩
    · exact absurd (List.append_eq_nil_iff.1 hnil).2 hne
    · have hd' : d' ≠ .single := by
        rintro rfl
        exact hquote (eq_of_move_enter_single (hmove none))
      change IsRest (text ++ rest) at hrest
      rw [← htext, List.append_assoc, List.cons_append] at hrest
      have hinner := ihinner hd' (by simp) hrest rfl (by simpa using hd')
      exact ih hd hne (isRest_of_closer hd' hinner) hcontext hsingle
  | @enterPair context d' c x inner after hmove _ _ text htext ihinner ih =>
    have hc := ne_backslash_of_move hsingle (by rw [hmove]; nofun)
    have hd' := ne_single_of_move_enterPair hmove
    rcases isRest_cons hrest hc with ⟨-, hnil⟩ | ⟨-, hrest⟩
    · cases hnil
    · have hrest := isRest_of_pair hmove hrest
      change IsRest (text ++ rest) at hrest
      rw [← htext, List.append_assoc, List.cons_append] at hrest
      have hinner := ihinner hd' (by simp) hrest rfl (by simpa using hd')
      exact ih hd hne (isRest_of_closer hd' hinner) hcontext hsingle

/-- Outside of all delimiters the quote that ends the text opens one. -/
theorem not_isRest_of_spans {text : List Char} (h : Spans none text) : ¬ IsRest text := by
  intro hrest
  generalize hcontext : (none : Option Delimiter) = context at h
  have hsingle : context ≠ some .single := by rw [← hcontext]; nofun
  induction h with
  | nil => exact not_isRest_nil hrest
  | last =>
    obtain ⟨rest, hrest⟩ := hrest
    simpa using congrArg List.getLast? hrest
  | pass hmove _ ih =>
    have hc := ne_backslash_of_move hsingle (by rw [hmove]; nofun)
    rcases isRest_cons hrest hc with ⟨rfl, rfl⟩ | ⟨-, hrest⟩
    · subst hcontext
      cases hmove
    · exact ih hrest hcontext hsingle
  | escape hmove _ ih =>
    obtain rfl := eq_of_move_escape (hmove none)
    exact ih (isRest_of_escape hrest) hcontext hsingle
  | @enter context d' c inner after hmove hinner _ text htext _ ih =>
    have hc := ne_backslash_of_move hsingle (by rw [hmove none]; nofun)
    rcases isRest_cons hrest hc with ⟨-, hnil⟩ | ⟨hquote, hrest⟩
    · simp [hnil] at htext
    · have hd' : d' ≠ .single := by
        rintro rfl
        exact hquote (eq_of_move_enter_single (hmove none))
      have hclosed := isRest_of_spans hinner hd' (by simp) (htext ▸ hrest)
      exact ih (isRest_of_closer hd' hclosed) hcontext hsingle
  | @enterPair context d' c x inner after hmove hinner _ text htext _ ih =>
    have hc := ne_backslash_of_move hsingle (by rw [hmove]; nofun)
    have hd' := ne_single_of_move_enterPair hmove
    rcases isRest_cons hrest hc with ⟨-, hnil⟩ | ⟨-, hrest⟩
    · cases hnil
    · have hclosed := isRest_of_spans hinner hd' (by simp) (htext ▸ isRest_of_pair hmove hrest)
      exact ih (isRest_of_closer hd' hclosed) hcontext hsingle

/-- **With a quote in it** the scan does not pass over the text: it takes the first quote for the
end, and then the last one opens quotes again. -/
theorem not_spans_of_quote {text : String} (h : '\'' ∈ text.toList) :
    ¬ Spans none (quote text).toList := by
  intro hspans
  obtain ⟨front, after, htext, hfront⟩ := List.eq_append_cons_of_mem h
  have hchars : chars text.toList ++ ['\''] =
      (chars front ++ ['\\']) ++ '\'' :: (chars after ++ ['\'']) := by
    simp [htext, chars, char]
  have hquote : '\'' ∉ chars front ++ ['\\'] := by simp [chars_of_no_quote hfront]
  rw [toList_quote] at hspans
  obtain ⟨inner, rest, hclose, -, hrest⟩ := (hspans.of_pass rfl).of_enter rfl
  rw [hchars, Quotation.close_single hquote] at hclose
  cases hclose
  exact not_isRest_of_spans hrest ⟨after, rfl⟩

end

end AnsiQuotation

/-! ## What the scan and the reading agree on -/

/-- **Where quoting ends.** Let a word of a script not be mistaken by the scan. Then it is cut into
pieces that close, and so are the texts between double quotes in it; every level reads the word by
reading these pieces, so it can only be refused for what stands inside of one of them. A text
without a quote is one word of a script when it stands in `$'...'`, which expands to the text; a
text with a quote in it is no word there. -/
theorem Word.closes_and_ansiQuoted (script text : String) :
    (∀ stream, TokenStream.ofText script = .ok stream →
      ∀ t ∈ stream.tokens, t.kind = .word → Unmistaken t.text.toList →
        Closes t.text.toList ∧
        (∀ l : Level, l.partsOf .unquoted t.text.toList =
          l.assemble [] [] (Piece.ofText .unquoted t.text.toList)) ∧
        ∀ e, Word.parse t.text = .error e → ∃ raw,
          .part raw ∈ Piece.ofText .unquoted t.text.toList ∧
            raw.read (.ofDepth (maxNesting - 1)) = .error e) ∧
    ('\'' ∉ text.toList →
      (∃ line, TokenStream.ofText (AnsiQuotation.quote text) =
        .ok ⟨[⟨.word, AnsiQuotation.quote text, 1, none, none⟩], line⟩) ∧
      ∃ word, Word.parse (AnsiQuotation.quote text) = .ok word ∧
        ∀ (x : Expander) (shell : Shell), word.fields x shell = (.ok [text], shell)) ∧
    ('\'' ∈ text.toList → ∀ stream, TokenStream.ofText (AnsiQuotation.quote text) = .ok stream →
      ∀ t ∈ stream.tokens, t.kind = .word → t.text ≠ AnsiQuotation.quote text) := by
  refine ⟨?_, fun hquote => ⟨?_, ?_⟩, ?_⟩
  · intro stream hstream t ht hword hplain
    refine ⟨hplain.closes (TokenStream.spans_word hstream ht hword),
      fun l => l.partsOf_eq_assemble _ _, fun e hrefused => ?_⟩
    rw [Word.parse_eq] at hrefused
    cases hparts : (Level.ofDepth (maxNesting - 1)).partsOf .unquoted t.text.toList with
    | ok parts =>
      rw [hparts] at hrefused
      cases hrefused
    | error e' =>
      rw [hparts] at hrefused
      cases hrefused
      exact Level.exists_of_partsOf_error hparts
  · exact AnsiQuotation.ofText_of_no_quote hquote
  · exact ⟨_, AnsiQuotation.parse_quote text,
      (AnsiQuotation.spells_quoted text _).fields_apply⟩
  · intro hquote stream hstream t ht hword htext
    refine AnsiQuotation.not_spans_of_quote hquote ?_
    rw [← htext]
    exact TokenStream.spans_word hstream ht hword

/-- Quotes inside of substitutions inside of quotes, a text with a backslash, and one with a quote. -/
theorem Word.closes_and_ansiQuoted_nested :
    let word := "a'b'\"c$(d \")\")e\"$\x7bf:-'\x7d'\x7d$'g\\n'"
    (TokenStream.ofText word = .ok ⟨[⟨.word, word, 1, none, none⟩], 1⟩ ∧ Closes word.toList) ∧
    (∃ word, Word.parse (AnsiQuotation.quote "a\\b") = .ok word ∧
      ∀ (x : Expander) (shell : Shell), word.fields x shell = (.ok ["a\\b"], shell)) ∧
    ∀ stream, TokenStream.ofText (AnsiQuotation.quote "it's") = .ok stream →
      ∀ t ∈ stream.tokens, t.kind = .word → t.text ≠ AnsiQuotation.quote "it's" := by
  intro word
  have hscan : Delimiter.scan isMetacharacter [] [] word.toList = .ok (word.toList.reverse, []) := by
    decide +kernel
  have hlines : word.toList.count '\n' = 0 := by decide
  have hstream := TokenStream.ofText_of_scan (c := 'a') (by decide) rfl
    (Text.isDigit_of_ascii (by decide)) (by decide) (by decide) hscan
  rw [hlines] at hstream
  have hplain : Unmistaken word.toList := of_decide_eq_true (by cbv)
  have hword := (closes_and_ansiQuoted word "a\\b").1 _ hstream ⟨.word, word, 1, none, none⟩
    (by simp) rfl hplain
  exact ⟨⟨hstream, hword.1⟩, ((closes_and_ansiQuoted word "a\\b").2.1 (by decide)).2,
    (closes_and_ansiQuoted word "it's").2.2 (by decide)⟩

/-- **Where the two part.** The scan ends `$'...'` at an escaped quote, and does not know that `$$`
is a parameter: these texts are words of scripts which are refused when they are read, and a quote
in `$'...'` is refused by the scan. -/
theorem Word.ansiQuoted_mistaken :
    (TokenStream.ofText "$'\\'" = .ok ⟨[⟨.word, "$'\\'", 1, none, none⟩], 1⟩ ∧
      Word.parse "$'\\'" = .error (.lexical (.unclosed .single) 1)) ∧
    (TokenStream.ofText "$$($\x7b)" = .ok ⟨[⟨.word, "$$($\x7b)", 1, none, none⟩], 1⟩ ∧
      Word.parse "$$($\x7b)" = .error (.lexical (.unclosed .brace) 1)) ∧
    TokenStream.ofText (AnsiQuotation.quote "'") = .error (.lexical (.unclosed .single) 1) := by
  have hansi : Piece.ofText .unquoted "$'\\'".toList = [.part .ansiUnclosed] := by cbv
  have hdollar : Piece.ofText .unquoted "$$($\x7b)".toList =
      [.part (.parameter ['$']), .plain '(', .part (.unclosed .brace)] := by cbv
  refine ⟨⟨by cbv, ?_⟩, ⟨by cbv, ?_⟩, by cbv⟩
  · rw [AnsiQuotation.parse_eq_assemble, hansi]
    rfl
  · rw [AnsiQuotation.parse_eq_assemble, hdollar]
    rfl

end VirtualShell
