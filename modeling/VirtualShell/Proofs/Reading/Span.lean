import VirtualShell.Proofs.Quoting.Quotation
import VirtualShell.Proofs.Reading.Balance

/-!
# How far a word reaches

The end of a word is found by a scan over the whole script, and what is in the word is read from its
text alone. What the scan has seen in the word is kept here as a property of that text: it falls into
ordinary characters, escapes and constructs that close inside of it.

* `Delimiter.Spans` — the texts that a scan passes over, inside of a delimiter or of none.
* `Delimiter.spans_of_scan` — a scan leaves such a text behind.
* `Delimiter.close_eq_ok_iff` — what stands before a closing character is what a scan finds in front
  of it.
* **`Delimiter.scan_eq_close`** — a scan inside of a delimiter is a search for its end, and goes on
  behind it.
* **`TokenStream.spans_word`** — the words of a script are such texts.
* `Opening.search` — the search for the end of a construct, from one position of a text to another.
* **`Opening.search_cases`** — it ends where the construct closes, and looks at nothing behind.
-/

namespace VirtualShell

namespace Delimiter

/-! ## One character -/

theorem eq_closer_of_move_leave {d : Delimiter} {c : Char} {next : Option Char}
    (h : move (some d) c next = .leave) : c = d.closer := by
  unfold move at h
  split at h <;> cases d <;> grind [closer]

theorem move_closer (d : Delimiter) (next : Option Char) :
    move (some d) d.closer next = .leave := by
  cases d <;> rfl

theorem closer_ne (d : Delimiter) : d.closer ≠ '(' ∧ d.closer ≠ '\x7b' := by
  cases d <;> decide

/-- Before anything but an opening parenthesis or brace a character does what it does at the end of
the text. -/
theorem move_eq_move_none (context : Option Delimiter) (c : Char) {next : Option Char}
    (hparen : next ≠ some '(') (hbrace : next ≠ some '\x7b') :
    move context c next = move context c none := by
  unfold move
  split <;> simp_all

theorem move_none_of_pass {context : Option Delimiter} {c : Char} {next : Option Char}
    (h : move context c next = .pass) : move context c none = .pass := by
  unfold move at h ⊢
  split at h <;> simp_all

/-- Only a dollar sign asks for the character after it. -/
theorem move_eq_of_ne_pass {context : Option Delimiter} {c : Char} {next : Option Char}
    (hpass : move context c next ≠ .pass) (hpair : ∀ d, move context c next ≠ .enterPair d)
    (next' : Option Char) : move context c next' = move context c next := by
  unfold move at hpass hpair ⊢
  split at hpass <;> grind

/-! ## Spans -/

/-- **A text that a scan passes over** inside of a delimiter, or of none: what opens in it closes in
it, and nothing in it closes what is around it. Outside of all delimiters a backslash may be the last
character. -/
inductive Spans : Option Delimiter → List Char → Prop where
  | nil (context : Option Delimiter) : Spans context []
  | last : Spans none ['\\']
  | pass {context : Option Delimiter} {c : Char} {rest : List Char}
      (hmove : move context c rest.head? = .pass) (hrest : Spans context rest) :
      Spans context (c :: rest)
  | escape {context : Option Delimiter} {c x : Char} {rest : List Char}
      (hmove : ∀ next, move context c next = .escape) (hrest : Spans context rest) :
      Spans context (c :: x :: rest)
  | enter {context : Option Delimiter} {d : Delimiter} {c : Char} {inner rest : List Char}
      (hmove : ∀ next, move context c next = .enter d) (hinner : Spans (some d) inner)
      (hrest : Spans context rest) {text : List Char} (htext : inner ++ d.closer :: rest = text) :
      Spans context (c :: text)
  | enterPair {context : Option Delimiter} {d : Delimiter} {c x : Char} {inner rest : List Char}
      (hmove : move context c (some x) = .enterPair d) (hinner : Spans (some d) inner)
      (hrest : Spans context rest) {text : List Char} (htext : inner ++ d.closer :: rest = text) :
      Spans context (c :: x :: text)

/-- Inside of a delimiter two spans are one, unless their characters pair. -/
theorem Spans.append {context : Option Delimiter} {first second : List Char}
    (h : Spans context first) (hsecond : Spans context second) (hcontext : context ≠ none)
    (hparen : second.head? ≠ some '(') (hbrace : second.head? ≠ some '\x7b') :
    Spans context (first ++ second) := by
  induction h with
  | nil => exact hsecond
  | last => exact absurd rfl hcontext
  | @pass context c rest hmove _ ih =>
    refine .pass ?_ (ih hsecond hcontext)
    cases rest with
    | nil => exact (move_eq_move_none _ _ hparen hbrace).trans hmove
    | cons x rest => exact hmove
  | escape hmove _ ih => exact .escape hmove (ih hsecond hcontext)
  | enter hmove hinner _ htext _ ih =>
    exact .enter hmove hinner (ih hsecond hcontext) (by simp [← htext])
  | enterPair hmove hinner _ htext _ ih =>
    exact .enterPair hmove hinner (ih hsecond hcontext) (by simp [← htext])

/-- Inside of a delimiter a scan stops nowhere. -/
theorem scan_inside (stop : Char → Bool) (d : Delimiter) (stack : List Delimiter)
    (read : List Char) (c : Char) (rest : List Char) :
    scan stop (d :: stack) read (c :: rest) =
      match move (some d) c rest.head?, rest with
      | .pass, _ => scan stop (d :: stack) (c :: read) rest
      | .enter d', _ => scan stop (d' :: d :: stack) (c :: read) rest
      | .leave, _ => scan stop stack (c :: read) rest
      | .escape, x :: rest => scan stop (d :: stack) (x :: c :: read) rest
      | .escape, [] => scan stop (d :: stack) (c :: read) []
      | .enterPair d', x :: rest => scan stop (d' :: d :: stack) (x :: c :: read) rest
      | .enterPair d', [] => scan stop (d' :: d :: stack) (c :: read) [] := by
  rw [scan.eq_def]
  simp only [List.isEmpty_cons, Bool.false_and, Bool.false_eq_true, if_false, List.head?_cons]
  cases move (some d) c rest.head? <;> cases rest <;> rfl

/-- **A scan passes over a span** in front of a character that does not pair with its last one. -/
theorem scan_of_spans {context : Option Delimiter} {text : List Char} (h : Spans context text)
    {d : Delimiter} {stack : List Delimiter} (hcontext : context = some d) {x : Char}
    (hparen : x ≠ '(') (hbrace : x ≠ '\x7b') (stop : Char → Bool) (read rest : List Char) :
    scan stop (d :: stack) read (text ++ x :: rest) =
      scan stop (d :: stack) (text.reverse ++ read) (x :: rest) := by
  induction h generalizing d stack x read rest with
  | nil => rfl
  | last => cases hcontext
  | @pass context c text hmove _ ih =>
    subst hcontext
    have hnext : move (some d) c (text ++ x :: rest).head? = .pass := by
      cases text with
      | nil =>
        rw [← move_none_of_pass hmove]
        exact move_eq_move_none _ _ (by simpa using hparen) (by simpa using hbrace)
      | cons y text => exact hmove
    rw [List.cons_append, scan_inside, hnext]
    dsimp only
    rw [ih rfl hparen hbrace]
    simp
  | escape hmove _ ih =>
    subst hcontext
    rw [List.cons_append, List.cons_append, scan_inside, hmove]
    dsimp only
    rw [ih rfl hparen hbrace]
    simp
  | @enter context d' c inner after hmove _ _ text htext ihinner ih =>
    subst hcontext
    obtain ⟨hparen', hbrace'⟩ := d'.closer_ne
    rw [← htext, List.cons_append, scan_inside, hmove, List.append_assoc, List.cons_append]
    dsimp only
    rw [ihinner rfl hparen' hbrace', scan_inside, move_closer]
    dsimp only
    rw [ih rfl hparen hbrace]
    simp
  | @enterPair context d' c y inner after hmove _ _ text htext ihinner ih =>
    subst hcontext
    obtain ⟨hparen', hbrace'⟩ := d'.closer_ne
    rw [← htext, List.cons_append, List.cons_append, scan_inside, List.head?_cons, hmove,
      List.append_assoc, List.cons_append]
    dsimp only
    rw [ihinner rfl hparen' hbrace', scan_inside, move_closer]
    dsimp only
    rw [ih rfl hparen hbrace]
    simp

/-- **A span ends where the delimiter around it closes.** -/
theorem close_of_spans {d : Delimiter} {inner : List Char} (h : Spans (some d) inner)
    (rest : List Char) : close d (inner ++ d.closer :: rest) = .ok (inner, rest) := by
  obtain ⟨hparen, hbrace⟩ := d.closer_ne
  have hscan : scan (fun _ => true) [d] [] (inner ++ d.closer :: rest) =
      .ok (d.closer :: (inner.reverse ++ []), rest) := by
    rw [scan_of_spans h rfl hparen hbrace, scan_inside, move_closer]
    exact scan_stop _ fun _ _ => rfl
  simp [close, hscan]

/-! ## What a scan leaves behind -/

/-- A scan that is inside of a delimiter passes over a span to the character that closes it. -/
theorem spans_of_scan_inside {stop : Char → Bool} {d : Delimiter} {stack : List Delimiter}
    {read text read' rest : List Char} (h : scan stop (d :: stack) read text = .ok (read', rest)) :
    ∃ inner after read'', inner ++ d.closer :: after = text ∧ Spans (some d) inner ∧
      scan stop stack read'' after = .ok (read', rest) := by
  induction hn : text.length using Nat.strongRecOn generalizing d stack read text with
  | ind n ih =>
    subst hn
    cases text with
    | nil => simp [scan] at h
    | cons c text =>
      rw [scan_inside] at h
      -- A construct that opens is a span of its own, and the scan goes on behind it.
      have hopens {d' : Delimiter} {read₁ text₁ : List Char}
          (hlt : text₁.length < (c :: text).length)
          (hscan : scan stop (d' :: d :: stack) read₁ text₁ = .ok (read', rest)) :
          ∃ inner' inner after read'', inner' ++ d'.closer :: (inner ++ d.closer :: after) = text₁ ∧
            Spans (some d') inner' ∧ Spans (some d) inner ∧
            scan stop stack read'' after = .ok (read', rest) := by
        obtain ⟨inner', after', _, rfl, hinner', hafter⟩ := ih _ hlt hscan rfl
        have hlt' : after'.length < (c :: text).length := by
          simp only [List.length_append, List.length_cons] at hlt ⊢
          omega
        obtain ⟨inner, after, read'', rfl, hinner, hlast⟩ := ih _ hlt' hafter rfl
        exact ⟨inner', inner, after, read'', rfl, hinner', hinner, hlast⟩
      cases hm : move (some d) c text.head? with
      | pass =>
        rw [hm] at h
        obtain ⟨inner, after, read'', rfl, hinner, hlast⟩ := ih _ (by simp) h rfl
        refine ⟨c :: inner, after, read'', rfl, .pass ?_ hinner, hlast⟩
        cases inner with
        | nil => exact move_none_of_pass hm
        | cons x inner => exact hm
      | leave =>
        rw [hm] at h
        rw [eq_closer_of_move_leave hm]
        exact ⟨[], text, c :: read, rfl, .nil _, h⟩
      | enter d' =>
        rw [hm] at h
        obtain ⟨inner', inner, after, read'', rfl, hinner', hinner, hlast⟩ := hopens (by simp) h
        have hmove := move_eq_of_ne_pass (by rw [hm]; simp) (by rw [hm]; simp)
        exact ⟨_, after, read'', by simp,
          .enter (fun next => (hmove next).trans hm) hinner' hinner rfl, hlast⟩
      | escape =>
        rw [hm] at h
        cases text with
        | nil => simp [scan] at h
        | cons x text =>
          have hlt : text.length < (c :: x :: text).length := by
            simp only [List.length_cons]
            omega
          obtain ⟨inner, after, read'', rfl, hinner, hlast⟩ := ih _ hlt h rfl
          have hmove := move_eq_of_ne_pass (by rw [hm]; simp) (by rw [hm]; simp)
          exact ⟨c :: x :: inner, after, read'', rfl,
            .escape (fun next => (hmove next).trans hm) hinner, hlast⟩
      | enterPair d' =>
        rw [hm] at h
        cases text with
        | nil => simp [scan] at h
        | cons x text =>
          have hlt : text.length < (c :: x :: text).length := by
            simp only [List.length_cons]
            omega
          obtain ⟨inner', inner, after, read'', rfl, hinner', hinner, hlast⟩ := hopens hlt h
          exact ⟨_, after, read'', by simp, .enterPair hm hinner' hinner rfl, hlast⟩

/-- **What closes:** a span with the closing character behind it. -/
theorem close_eq_ok_iff {d : Delimiter} {text inner rest : List Char} :
    close d text = .ok (inner, rest) ↔ inner ++ d.closer :: rest = text ∧ Spans (some d) inner := by
  constructor
  · intro h
    have hclose := h
    unfold close at h
    split at h
    · next read after hscan =>
      obtain ⟨span, behind, -, rfl, hspan, -⟩ := spans_of_scan_inside hscan
      rw [close_of_spans hspan] at hclose
      cases hclose
      exact ⟨rfl, hspan⟩
    · cases h
  · rintro ⟨rfl, hspan⟩
    exact close_of_spans hspan rest

/-- **A scan outside of all delimiters leaves a span behind.** -/
theorem spans_of_scan {stop : Char → Bool} {read text read' rest : List Char}
    (h : scan stop [] read text = .ok (read', rest)) :
    ∃ span, span ++ rest = text ∧ Spans none span := by
  induction hn : text.length using Nat.strongRecOn generalizing read text with
  | ind n ih =>
    subst hn
    cases text with
    | nil =>
      cases h
      exact ⟨[], rfl, .nil none⟩
    | cons c text =>
      rw [scan.eq_def] at h
      cases hstop : stop c with
      | true =>
        simp only [List.isEmpty_nil, hstop, Bool.and_self, if_true] at h
        cases h
        exact ⟨[], rfl, .nil none⟩
      | false =>
        simp only [List.isEmpty_nil, hstop, Bool.and_false, Bool.false_eq_true, if_false,
          List.head?_nil] at h
        have hopens {d : Delimiter} {read₁ text₁ : List Char}
            (hlt : text₁.length < (c :: text).length)
            (hscan : scan stop [d] read₁ text₁ = .ok (read', rest)) :
            ∃ inner span, inner ++ d.closer :: (span ++ rest) = text₁ ∧
              Spans (some d) inner ∧ Spans none span := by
          obtain ⟨inner, after, _, rfl, hinner, hafter⟩ := spans_of_scan_inside hscan
          have hlt' : after.length < (c :: text).length := by
            simp only [List.length_append, List.length_cons] at hlt ⊢
            omega
          obtain ⟨span, rfl, hspan⟩ := ih _ hlt' hafter rfl
          exact ⟨inner, span, rfl, hinner, hspan⟩
        cases hm : move none c text.head? with
        | leave => exact absurd hm (move_none_ne_leave c _)
        | pass =>
          rw [hm] at h
          obtain ⟨span, rfl, hspan⟩ := ih _ (by simp) h rfl
          refine ⟨c :: span, rfl, .pass ?_ hspan⟩
          cases span with
          | nil => exact move_none_of_pass hm
          | cons x span => exact hm
        | enter d =>
          rw [hm] at h
          obtain ⟨inner, span, rfl, hinner, hspan⟩ := hopens (by simp) h
          have hmove := move_eq_of_ne_pass (by rw [hm]; simp) (by rw [hm]; simp)
          exact ⟨_, by simp, .enter (fun next => (hmove next).trans hm) hinner hspan rfl⟩
        | escape =>
          rw [hm] at h
          cases text with
          | nil =>
            cases h
            obtain rfl := eq_of_move_escape hm
            exact ⟨_, rfl, .last⟩
          | cons x text =>
            have hlt : text.length < (c :: x :: text).length := by
              simp only [List.length_cons]
              omega
            obtain ⟨span, rfl, hspan⟩ := ih _ hlt h rfl
            have hmove := move_eq_of_ne_pass (by rw [hm]; simp) (by rw [hm]; simp)
            exact ⟨c :: x :: span, rfl, .escape (fun next => (hmove next).trans hm) hspan⟩
        | enterPair d =>
          rw [hm] at h
          cases text with
          | nil => simp [scan] at h
          | cons x text =>
            have hlt : text.length < (c :: x :: text).length := by
              simp only [List.length_cons]
              omega
            obtain ⟨inner, span, rfl, hinner, hspan⟩ := hopens hlt h
            exact ⟨_, by simp, .enterPair hm hinner hspan rfl⟩

/-! ## Scans inside of scans -/

/-- **Scans inside of scans.** What the innermost delimiters have to do with a text is done by a scan
of its own, and the scan around it goes on where that one ends. -/
theorem scan_append_stack (stop : Char → Bool) (stack : List Delimiter) (read : List Char)
    (inner : List Delimiter) (seen text : List Char) :
    scan stop (inner ++ stack) (seen ++ read) text =
      match scan (fun _ => true) inner seen text with
      | .error d => .error d
      | .ok (seen', rest) => scan stop stack (seen' ++ read) rest := by
  induction hn : text.length using Nat.strongRecOn generalizing inner seen text with
  | ind n ih =>
    subst hn
    rcases inner with - | ⟨d, inner⟩
    · have hstop : scan (fun _ => true) [] seen text = .ok (seen, text) :=
        scan_stop _ fun _ _ => rfl
      rw [hstop]
      rfl
    cases text with
    | nil => rfl
    | cons c text =>
      rw [List.cons_append, scan_inside, scan_inside]
      have hnext (inner : List Delimiter) (seen : List Char) :=
        ih text.length (Nat.lt_succ_self _) inner seen text rfl
      cases move (some d) c text.head? with
      | pass => exact hnext (d :: inner) (c :: seen)
      | enter d' => exact hnext (d' :: d :: inner) (c :: seen)
      | leave => exact hnext inner (c :: seen)
      | escape =>
        cases text with
        | nil => exact hnext (d :: inner) (c :: seen)
        | cons x text =>
          have hlt : text.length < (c :: x :: text).length := by
            simp only [List.length_cons]
            omega
          exact ih text.length hlt (d :: inner) (x :: c :: seen) text rfl
      | enterPair d' =>
        cases text with
        | nil => exact hnext (d' :: d :: inner) (c :: seen)
        | cons x text =>
          have hlt : text.length < (c :: x :: text).length := by
            simp only [List.length_cons]
            omega
          exact ih text.length hlt (d' :: d :: inner) (x :: c :: seen) text rfl

/-- **A scan inside of a delimiter** is a search for the end of that delimiter, and goes on behind
it. -/
theorem scan_eq_close (stop : Char → Bool) (d : Delimiter) (stack : List Delimiter)
    (read text : List Char) :
    scan stop (d :: stack) read text =
      match close d text with
      | .error inner => .error inner
      | .ok (inner, rest) => scan stop stack (d.closer :: (inner.reverse ++ read)) rest := by
  have hscan := scan_append_stack stop stack read [d] [] text
  rw [List.singleton_append, List.nil_append] at hscan
  rw [hscan]
  cases hclose : close d text with
  | error inner =>
    unfold close at hclose
    split at hclose
    · cases hclose
    · next herror =>
      cases hclose
      rw [herror]
  | ok found =>
    obtain ⟨inner, rest⟩ := found
    obtain ⟨rfl, hspan⟩ := close_eq_ok_iff.1 hclose
    obtain ⟨hparen, hbrace⟩ := d.closer_ne
    rw [scan_of_spans hspan rfl hparen hbrace, scan_inside, move_closer]
    dsimp only
    rw [scan_stop _ fun _ _ => rfl]
    simp

end Delimiter

/-! ## The words of a script -/

namespace Scanner

/-- The words among some tokens are texts that a scan passes over. -/
def WordsSpan (tokens : List Token) : Prop :=
  ∀ t ∈ tokens, t.kind = .word → Delimiter.Spans none t.text.toList

theorem wordsSpan_nil : WordsSpan [] := by simp [WordsSpan]

theorem WordsSpan.cons {tokens : List Token} (h : WordsSpan tokens) {t : Token}
    (ht : t.kind = .word → Delimiter.Spans none t.text.toList) : WordsSpan (t :: tokens) := by
  rintro other hother
  rcases List.mem_cons.1 hother with rfl | hother
  · exact ht
  · exact h other hother

variable {s next : Scanner}

theorem wordsSpan_noteDelimiter (h : WordsSpan s.tokens) (word : List Char) :
    WordsSpan (s.noteDelimiter word).tokens := by
  unfold noteDelimiter
  split
  · next htokens =>
    split
    · rw [htokens] at h
      refine WordsSpan.cons (fun t ht => h t (List.mem_cons_of_mem _ ht)) ?_
      nofun
    · exact h
  · exact h

/-- A step takes a word as far as the scan of it reaches. -/
theorem wordsSpan_takes {text : List Char} (htakes : s.Takes text next)
    (h : WordsSpan s.tokens) : WordsSpan next.tokens := by
  cases htakes with
  | blank | joint | comment => exact h
  | lineEnd hnext =>
    subst hnext
    rw [readBodies_tokens]
    exact h.cons nofun
  | arithmetic => exact h.cons nofun
  | @operator digits rest kind descriptor hdigits hkind =>
    refine h.cons fun hword => ?_
    have hkind' : kind = .word := hword
    subst hkind'
    exact .nil none
  | @word read rest hscan =>
    refine (wordsSpan_noteDelimiter h _).cons fun _ => ?_
    obtain ⟨span, hspan, hspans⟩ := Delimiter.spans_of_scan hscan
    rw [String.toList_ofList, ← List.append_cancel_right hspan]
    exact hspans

theorem wordsSpan_run {t : Scanner} (hrun : s.run = .ok t) (h : WordsSpan s.tokens) :
    WordsSpan t.tokens := by
  fun_induction run s with
  | case1 s hs =>
    cases hrun
    exact h
  | case2 => cases hrun
  | case3 s c rest hs next hstep _ ih =>
    obtain ⟨text, -, htakes⟩ := step_takes hs hstep
    exact ih hrun (wordsSpan_takes htakes h)

end Scanner

/-- The bodies of here-documents change no word. -/
theorem wordsSpan_attachBodies {done tokens : List Token} {bodies : List String}
    (hdone : Scanner.WordsSpan done) (htokens : Scanner.WordsSpan tokens) :
    Scanner.WordsSpan (attachBodies done bodies tokens) := by
  fun_induction attachBodies done bodies tokens with
  | case1 => exact fun t ht => hdone t (List.mem_reverse.1 ht)
  | case2 done t tokens doc body bodies hdoc ih =>
    exact ih (hdone.cons (htokens t (by simp))) fun t ht => htokens t (List.mem_cons_of_mem _ ht)
  | case3 done t tokens bodies _ ih =>
    exact ih (hdone.cons (htokens t (by simp))) fun t ht => htokens t (List.mem_cons_of_mem _ ht)

/-- **The words of a script** are texts that a scan passes over. -/
theorem TokenStream.spans_word {text : String} {stream : TokenStream}
    (h : ofText text = .ok stream) {t : Token} (ht : t ∈ stream.tokens) (hword : t.kind = .word) :
    Delimiter.Spans none t.text.toList := by
  unfold ofText at h
  split at h
  · cases h
  · next s hrun =>
    cases h
    have hrun' := Scanner.wordsSpan_run hrun Scanner.wordsSpan_nil
    exact wordsSpan_attachBodies Scanner.wordsSpan_nil
      (fun t ht => hrun' t (List.mem_reverse.1 ht)) t ht hword

/-! ## Searches -/

namespace Delimiter

/-- The character that opens a delimiter. -/
def opener : Delimiter → Char
  | .single => '\''
  | .double => '"'
  | .backtick => '\x60'
  | .paren => '('
  | .brace => '\x7b'

end Delimiter

/-- **What a construct begins with**: the character that opens a delimiter, or a dollar sign in front
of one that opens parentheses or braces. -/
inductive Opening where
  | delimiter (d : Delimiter)
  | dollar
  deriving DecidableEq, Repr

namespace Opening

/-- The construct begins at a position of a text. -/
def BeginsAt (text : List Char) (pos : Nat) : Opening → Prop
  | delimiter d => text[pos]? = some d.opener
  | dollar => text[pos]? = some '$' ∧
    (text[pos + 1]? = some Delimiter.paren.opener ∨ text[pos + 1]? = some Delimiter.brace.opener)

instance (text : List Char) (pos : Nat) : (o : Opening) → Decidable (o.BeginsAt text pos)
  | delimiter d => inferInstanceAs (Decidable (text[pos]? = some d.opener))
  | dollar => inferInstanceAs (Decidable (text[pos]? = some '$' ∧
    (text[pos + 1]? = some Delimiter.paren.opener ∨
      text[pos + 1]? = some Delimiter.brace.opener)))

/-- The number of characters that it begins with. -/
def width : Opening → Nat
  | delimiter _ => 1
  | dollar => 2

/-- The delimiter that is open behind them. -/
def inside (text : List Char) (pos : Nat) : Opening → Delimiter
  | delimiter d => d
  | dollar => if text[pos + 1]? = some Delimiter.paren.opener then .paren else .brace

/-- **The position that is given for a construct** that closes at some position. It is that position
for parentheses and braces, and the next one for quotes and behind a dollar sign. -/
def given (closing : Nat) : Opening → Nat
  | delimiter .paren => closing
  | delimiter .brace => closing
  | _ => closing + 1

/-- **The search for the end of a construct** that begins at a position of a text. -/
def search (o : Opening) (text : List Char) (pos : Nat) : Except SyntaxError Nat :=
  match Delimiter.close (o.inside text pos) (text.drop (pos + o.width)) with
  | .error d => .error (.lexical (.unclosed d) 1)
  | .ok (inner, _) => .ok (o.given (pos + o.width + inner.length))

/-- **A construct that begins at one position closes at another one**: its closing character stands
there, and what is between them is a span. -/
structure ClosesAt (o : Opening) (text : List Char) (pos closing : Nat) : Prop where
  begins : o.BeginsAt text pos
  after : pos + o.width ≤ closing
  closer : text[closing]? = some (o.inside text pos).closer
  spans : Delimiter.Spans (some (o.inside text pos))
    ((text.drop (pos + o.width)).take (closing - (pos + o.width)))

variable {o : Opening} {text : List Char} {pos closing : Nat}

theorem one_le_width (o : Opening) : 1 ≤ o.width := by
  cases o <;> simp [width]

/-- Where a construct closes, its search ends. -/
theorem ClosesAt.search_eq (h : o.ClosesAt text pos closing) :
    o.search text pos = .ok (o.given closing) := by
  obtain ⟨-, hafter, hcloser, hspans⟩ := h
  obtain ⟨n, rfl⟩ := Nat.exists_eq_add_of_le hafter
  rw [Nat.add_sub_cancel_left] at hspans
  rw [← List.getElem?_drop] at hcloser
  obtain ⟨hn, hget⟩ := List.getElem?_eq_some_iff.1 hcloser
  have hcut : (text.drop (pos + o.width)).take n ++ (o.inside text pos).closer ::
      (text.drop (pos + o.width)).drop (n + 1) = text.drop (pos + o.width) := by
    rw [← hget, ← List.drop_eq_getElem_cons hn, List.take_append_drop]
  have hlength : ((text.drop (pos + o.width)).take n).length = n :=
    List.length_take_of_le (Nat.le_of_lt hn)
  rw [search, Delimiter.close_eq_ok_iff.2 ⟨hcut, hspans⟩]
  dsimp only
  rw [hlength]

/-- A search that ends has found where the construct closes. -/
theorem exists_closesAt_of_search (hbegins : o.BeginsAt text pos) {position : Nat}
    (h : o.search text pos = .ok position) :
    ∃ closing, o.ClosesAt text pos closing ∧ position = o.given closing := by
  unfold search at h
  split at h
  · cases h
  · next inner rest hclose =>
    cases h
    obtain ⟨hcut, hspans⟩ := Delimiter.close_eq_ok_iff.1 hclose
    refine ⟨pos + o.width + inner.length, ⟨hbegins, Nat.le_add_right _ _, ?_, ?_⟩, rfl⟩
    · rw [← List.getElem?_drop, ← hcut]
      simp
    · rw [← hcut, Nat.add_sub_cancel_left, List.take_left]
      exact hspans

/-- **A construct closes in the same way in every text that agrees** up to its closing character,
wherever it stands there. -/
theorem ClosesAt.of_agree (h : o.ClosesAt text pos closing) {text' : List Char} {pos' : Nat}
    (hagree : ∀ i ≤ closing - pos, text'[pos' + i]? = text[pos + i]?) :
    o.ClosesAt text' pos' (pos' + (closing - pos)) := by
  obtain ⟨hbegins, hafter, hcloser, hspans⟩ := h
  obtain ⟨n, rfl⟩ := Nat.exists_eq_add_of_le hafter
  have hlength : pos + o.width + n - pos = o.width + n := by omega
  rw [hlength] at hagree ⊢
  have hfirst : text'[pos']? = text[pos]? := hagree 0 (Nat.zero_le _)
  have hbegins' : o.BeginsAt text' pos' ∧ o.inside text' pos' = o.inside text pos := by
    cases o with
    | delimiter d => exact ⟨hfirst.trans hbegins, rfl⟩
    | dollar =>
      have hsecond : text'[pos' + 1]? = text[pos + 1]? := hagree 1 (by simp only [width]; omega)
      refine ⟨⟨hfirst.trans hbegins.1, ?_⟩, ?_⟩
      · rw [hsecond]
        exact hbegins.2
      · rw [inside, inside, hsecond]
  obtain ⟨hbegins', hinside⟩ := hbegins'
  refine ⟨hbegins', by omega, ?_, ?_⟩
  · rw [hagree _ (Nat.le_refl _), ← Nat.add_assoc, hcloser, hinside]
  · have hslice : (text'.drop (pos' + o.width)).take (pos' + (o.width + n) - (pos' + o.width)) =
        (text.drop (pos + o.width)).take (pos + o.width + n - (pos + o.width)) := by
      refine List.ext_getElem? fun i => ?_
      rw [← Nat.add_assoc, Nat.add_sub_cancel_left, Nat.add_sub_cancel_left, List.getElem?_take,
        List.getElem?_take]
      split
      · next hi =>
        rw [List.getElem?_drop, List.getElem?_drop, Nat.add_assoc, Nat.add_assoc]
        exact hagree (o.width + i) (by omega)
      · rfl
    rw [hslice, hinside]
    exact hspans

/-- **Searches are local.** A search from the beginning of a construct is refused, and then the
construct closes nowhere, or it ends at a later position of the text, where the construct closes.
Then it ends there in every text that agrees with this one up to the closing character, and so it
does in the text of the construct alone. -/
theorem search_cases (hbegins : o.BeginsAt text pos) :
    ((∃ d, o.search text pos = .error (.lexical (.unclosed d) 1)) ∧
      ∀ closing, ¬ o.ClosesAt text pos closing) ∨
    ∃ closing, o.search text pos = .ok (o.given closing) ∧ o.ClosesAt text pos closing ∧
      pos < closing ∧ closing < text.length ∧
      ∀ (text' : List Char) (pos' : Nat),
        (∀ i ≤ closing - pos, text'[pos' + i]? = text[pos + i]?) →
          o.search text' pos' = .ok (o.given (pos' + (closing - pos))) := by
  cases hsearch : o.search text pos with
  | error e =>
    refine .inl ⟨?_, fun closing hcloses => ?_⟩
    · unfold search at hsearch
      split at hsearch
      · next d _ =>
        cases hsearch
        exact ⟨d, rfl⟩
      · cases hsearch
    · rw [hcloses.search_eq] at hsearch
      cases hsearch
  | ok position =>
    obtain ⟨closing, hcloses, rfl⟩ := exists_closesAt_of_search hbegins hsearch
    obtain ⟨hlt, -⟩ := List.getElem?_eq_some_iff.1 hcloses.closer
    refine .inr ⟨closing, rfl, hcloses, ?_, hlt, fun text' pos' hagree => ?_⟩
    · have hwidth := o.one_le_width
      have hafter := hcloses.after
      omega
    · exact (hcloses.of_agree hagree).search_eq

/-- Parentheses that are quoted, escaped or nested do not close a substitution, also where its text
stands alone. -/
theorem search_cases_nested :
    let text := "x\"$(')' \\) (b) `)`)\"y".toList
    dollar.BeginsAt text 2 ∧ dollar.search text 2 = .ok 19 ∧
      ∀ text' : List Char, (∀ i ≤ 16, text'[i]? = text[2 + i]?) → dollar.search text' 0 = .ok 17 := by
  intro text
  have hchars : text = ['x', '"', '$', '(', '\'', ')', '\'', ' ', '\\', ')', ' ', '(', 'b', ')', ' ',
      '`', ')', '`', ')', '"', 'y'] := by simp [text]
  have hbegins : dollar.BeginsAt text 2 := by
    rw [hchars]
    decide
  have hsearch : dollar.search text 2 = .ok 19 := by
    rw [hchars]
    rfl
  refine ⟨hbegins, hsearch, fun text' hagree => ?_⟩
  rcases search_cases hbegins with ⟨⟨d, herror⟩, -⟩ | ⟨closing, hclosing, -, -, -, hlocal⟩
  · rw [hsearch] at herror
    cases herror
  · rw [hsearch] at hclosing
    obtain rfl : 18 = closing := Nat.succ.inj (Except.ok.inj hclosing)
    exact hlocal text' 0 fun i hi => by rw [Nat.zero_add, hagree i hi]

end Opening

end VirtualShell
