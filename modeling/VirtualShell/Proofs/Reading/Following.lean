import VirtualShell.Proofs.Reading.Construct
import VirtualShell.Proofs.Reading.Reader

/-!
# Constructs that a line end follows

A construct of a script ends where it ends when a line end and more text follow: no word, operator
or quoted text goes on over that line end. Only a backslash at the end would escape it.

* `Delimiter.scan_lineEnd`, `TokenKind.operator?_lineEnd` — constructs end where they ended.
* `takeLine_lineEnd` — so do lines, and the last one ends at the line end.
* **`Scanner.step_followedBy`** — a step of the lexer takes the same off the text.
-/

namespace VirtualShell

variable {more : List Char}

/-! ## Delimiters -/

namespace Delimiter

/-- Only an opening parenthesis or brace after a dollar sign matters. -/
theorem move_eq_none (context : Option Delimiter) (c : Char) {next : Char} (hparen : next ≠ '(')
    (hbrace : next ≠ '\x7b') : move context c (some next) = move context c none := by
  unfold move
  split <;> simp [hparen, hbrace]

/-- **A scan stops where it stopped** when a character follows at which it may stop. -/
theorem scan_lineEnd {stop : Char → Bool} (hstop : stop '\n' = true) {stack : List Delimiter}
    {read text read' rest : List Char} (h : scan stop stack read text = .ok (read', rest))
    (hplain : EndsPlain text) :
    scan stop stack read (text ++ '\n' :: more) = .ok (read', rest ++ '\n' :: more) := by
  have hmove (context : Option Delimiter) (c : Char) (text : List Char) :
      move context c (text ++ '\n' :: more).head? = move context c text.head? := by
    cases text with
    | nil => exact move_eq_none context c (by decide) (by decide)
    | cons x text => rfl
  fun_induction scan stop stack read text with
  | case1 read =>
    cases h
    rw [List.nil_append, scan.eq_def]
    simp [hstop]
  | case2 => cases h
  | case3 stack read c text hstop =>
    cases h
    rw [List.cons_append, scan.eq_def]
    simp [hstop]
  | case4 stack read c text hgo hpass ih =>
    rw [List.cons_append, scan.eq_def]
    simp only [hgo, hmove, hpass]
    exact ih h (hplain.suffix (List.suffix_cons _ _))
  | case5 stack read c text hgo d henter ih =>
    rw [List.cons_append, scan.eq_def]
    simp only [hgo, hmove, henter]
    exact ih h (hplain.suffix (List.suffix_cons _ _))
  | case6 stack read c text hgo hleave ih =>
    rw [List.cons_append, scan.eq_def]
    simp only [hgo, hmove, hleave]
    exact ih h (hplain.suffix (List.suffix_cons _ _))
  | case7 stack read c hgo x text hescape ih =>
    rw [List.cons_append, scan.eq_def]
    simp only [hgo, hmove, hescape]
    exact ih h (hplain.suffix ⟨[c, x], rfl⟩)
  | case8 stack read c hgo hescape ih =>
    exact absurd (congrArg some (eq_of_move_escape hescape)) hplain
  | case9 stack read c hgo d x text hpair ih =>
    rw [List.cons_append, scan.eq_def]
    simp only [hgo, hmove, hpair]
    exact ih h (hplain.suffix ⟨[c, x], rfl⟩)
  | case10 stack read c hgo d hpair ih =>
    rcases next_of_move_enterPair hpair with hnext | hnext <;> cases hnext

/-- **A construct ends where it ended.** -/
theorem close_lineEnd {d : Delimiter} {text inner rest : List Char}
    (h : close d text = .ok (inner, rest)) (hplain : EndsPlain text) :
    close d (text ++ '\n' :: more) = .ok (inner, rest ++ '\n' :: more) := by
  unfold close at h ⊢
  split at h
  · next read rest' hscan =>
    cases h
    rw [scan_lineEnd rfl hscan hplain]
  · cases h

end Delimiter

/-! ## Operators and descriptors -/

/-- A character after a text does not make it start in another way, unless it is looked for. -/
theorem not_cons_ended {c x : Char} {text : List Char} (h : ∀ rest, text = c :: rest → False)
    (hc : c ≠ x) : ∀ rest, text ++ x :: more = c :: rest → False := by
  intro rest heq
  cases text with
  | nil => exact hc (List.cons.inj heq).1.symm
  | cons y text => exact h text (by rw [(List.cons.inj heq).1])

theorem not_cons_cons_ended {c d x : Char} {text : List Char}
    (h : ∀ rest, text = c :: d :: rest → False) (hc : c ≠ x) (hd : d ≠ x) :
    ∀ rest, text ++ x :: more = c :: d :: rest → False := by
  intro rest heq
  cases text with
  | nil => exact hc (List.cons.inj heq).1.symm
  | cons y text =>
    obtain ⟨rfl, htail⟩ := List.cons.inj heq
    exact not_cons_ended (fun rest htext => h rest (by rw [htext])) hd rest htail

theorem head?_lineEnd (more : List Char) {c : Char} (hc : c ≠ '\n') (text : List Char) :
    ((text ++ '\n' :: more).head? == some c) = (text.head? == some c) := by
  cases text with
  | nil => simpa using hc.symm
  | cons x text => rfl

theorem dropWhile_ended {p : Char → Bool} {x : Char} (hp : p x = false) (text : List Char) :
    (text ++ x :: more).dropWhile p = text.dropWhile p ++ x :: more := by
  rw [List.dropWhile_append]
  split
  · next hnone => simp [hp, List.isEmpty_iff.1 hnone]
  · rfl

/-- **An operator is as long as it was** when a character follows that is in no operator. -/
theorem TokenKind.operator?_ended {x : Char} (hx : x ∉ '-' :: operatorStarts) (text : List Char) :
    operator? (text ++ x :: more) =
      (operator? text).map fun found => (found.1, found.2 ++ x :: more) := by
  have hne {c : Char} (hc : c ∈ '-' :: operatorStarts) : c ≠ x := fun heq => hx (heq ▸ hc)
  cases h : operator? text with
  | none =>
    cases text with
    | nil => exact operator?_eq_none_iff.2 fun hmem => hx (List.mem_cons_of_mem _ hmem)
    | cons c text => exact operator?_eq_none_iff.2 (operator?_eq_none_iff.1 h)
  | some found =>
    revert h
    fun_cases operator? text
    case case22 => rintro ⟨⟩
    all_goals
      rintro ⟨⟩
      simp only [List.cons_append, Option.map_some]
      rw [operator?]
    -- What is left says that no longer operator stands there.
    all_goals first
      | exact not_cons_ended ‹_› (hne (by decide))
      | exact not_cons_cons_ended ‹_› (hne (by decide)) (hne (by decide))

theorem TokenKind.operator?_lineEnd (text : List Char) : operator? (text ++ '\n' :: more) =
    (operator? text).map fun found => (found.1, found.2 ++ '\n' :: more) :=
  operator?_ended (by decide) text

/-- So is a descriptor when what follows is neither a digit nor the operator that it wants. -/
theorem Scanner.descriptor?_ended {x : Char} (hx : Text.isDigit x = false) (hin : x ≠ '<')
    (hout : x ≠ '>') (text : List Char) : descriptor? (text ++ x :: more) =
      (descriptor? text).map fun found => (found.1, found.2 ++ x :: more) := by
  have htake : (text ++ x :: more).takeWhile Text.isDigit = text.takeWhile Text.isDigit := by
    rw [List.takeWhile_append]
    split
    · next hall =>
      have hwhole := List.IsPrefix.eq_of_length (List.takeWhile_prefix Text.isDigit) hall
      simp [hx, hwhole]
    · rfl
  unfold descriptor?
  rw [htake, dropWhile_ended hx]
  cases text.dropWhile Text.isDigit with
  | nil => simp [hin, hout]
  | cons c rest =>
    dsimp only [List.cons_append]
    split <;> rfl

theorem Scanner.descriptor?_lineEnd (text : List Char) : descriptor? (text ++ '\n' :: more) =
    (descriptor? text).map fun found => (found.1, found.2 ++ '\n' :: more) :=
  descriptor?_ended (Text.isDigit_of_ascii (by decide)) (by decide) (by decide) text

/-! ## Here-documents -/

/-- A line is as long as it was; a line end after the last one is taken off with it. -/
theorem takeLine_lineEnd (more text : List Char) :
    takeLine (text ++ '\n' :: more) = ((takeLine text).1, (takeLine text).2 ++ '\n' :: more) ∧
        '\n' :: (takeLine text).2 <:+ text ∨
      takeLine (text ++ '\n' :: more) = ((takeLine text).1, more) ∧ (takeLine text).2 = [] := by
  by_cases hline : '\n' ∈ text
  · obtain ⟨line, rest, rfl, hfirst⟩ := List.eq_append_cons_of_mem hline
    rw [List.append_assoc, List.cons_append, takeLine_line hfirst, takeLine_line hfirst]
    exact .inl ⟨rfl, line, rfl⟩
  · rw [takeLine_line hline, takeLine_last hline]
    exact .inr ⟨rfl, rfl⟩

/-- What follows the last line of a here-document; nothing when that line does not come. -/
def PendingDocument.after? (doc : PendingDocument) : List Char → Option (List Char)
  | [] => none
  | c :: text =>
    let line := (takeLine (c :: text)).1
    let line := if doc.stripTabs then line.dropWhile (· == '\t') else line
    if line == doc.delimiter then some (takeLine (c :: text)).2
    else doc.after? (takeLine (c :: text)).2
termination_by text => text.length
decreasing_by exact takeLine_length_lt c text

/-- **The here-document that is being read** when the text ends. -/
def openDocument? : List PendingDocument → List Char → Option PendingDocument
  | [], _ => none
  | doc :: docs, text =>
    match doc.after? text with
    | some rest => openDocument? docs rest
    | none => some doc

/-- **A here-document ends where it ended** when it has its last line; this line ends at the line end
where it was the last of the text. -/
theorem PendingDocument.readBody_followedBy (doc : PendingDocument) (more : List Char) {text rest : List Char}
    (h : doc.after? text = some rest) (body : String) (count : Nat) :
    ∃ body' count', doc.readBody body count text = (body', count', rest) ∧
      (doc.readBody body count (text ++ '\n' :: more) = (body', count', rest ++ '\n' :: more) ∧
          '\n' :: rest <:+ '\n' :: text ∨
        doc.readBody body count (text ++ '\n' :: more) = (body', count', more) ∧ rest = []) := by
  fun_induction doc.readBody body count text with
  | case1 body count =>
    rw [after?] at h
    cases h
  | case2 body count c text line' line hline =>
    have hafter : some (takeLine (c :: text)).2 = some rest := by
      rw [after?] at h
      exact (if_pos hline).symm.trans h
    obtain rfl := Option.some.inj hafter
    refine ⟨_, _, rfl, ?_⟩
    rcases takeLine_lineEnd more (c :: text) with ⟨hnext, hsuffix⟩ | ⟨hnext, hlast⟩ <;>
      rw [List.cons_append, readBody, ← List.cons_append, hnext]
    · exact .inl ⟨if_pos hline, hsuffix.trans (List.suffix_cons _ _)⟩
    · exact .inr ⟨if_pos hline, hlast⟩
  | case3 body count c text line' line hline ih =>
    have hafter : doc.after? (takeLine (c :: text)).2 = some rest := by
      rw [after?] at h
      exact (if_neg hline).symm.trans h
    obtain ⟨body', count', hread, hread'⟩ := ih hafter
    refine ⟨body', count', hread, ?_⟩
    rcases takeLine_lineEnd more (c :: text) with ⟨hnext, hsuffix⟩ | ⟨hnext, hlast⟩ <;>
      rw [List.cons_append, readBody, ← List.cons_append, hnext]
    · refine hread'.imp (fun hboth => ⟨(if_neg hline).trans hboth.1, ?_⟩) fun hboth =>
        ⟨(if_neg hline).trans hboth.1, hboth.2⟩
      exact hboth.2.trans (hsuffix.trans (List.suffix_cons _ _))
    · rw [hlast, after?] at hafter
      cases hafter

/-! ## The scanner -/

namespace Scanner

/-- The scanner with a line end and more text after its text. -/
def followedBy (s : Scanner) (more : List Char) : Scanner := { s with rest := s.rest ++ '\n' :: more }

variable {s next : Scanner}

theorem noteDelimiter_line (s : Scanner) (word : List Char) :
    (s.noteDelimiter word).line = s.line := by
  unfold noteDelimiter
  split
  · split <;> rfl
  · rfl

theorem noteDelimiter_followedBy (s : Scanner) (word : List Char) :
    (s.followedBy more).noteDelimiter word = (s.noteDelimiter word).followedBy more := by
  unfold noteDelimiter
  dsimp only [followedBy]
  split
  · split <;> rfl
  · rfl

theorem readWord_lineEnd (h : s.readWord = .ok next) (hplain : EndsPlain s.rest) :
    (s.followedBy more).readWord = .ok (next.followedBy more) := by
  unfold readWord at h ⊢
  split at h
  · cases h
  · next read rest hscan =>
    cases h
    have hscan' : Delimiter.scan isMetacharacter [] [] (s.followedBy more).rest = _ :=
      Delimiter.scan_lineEnd rfl hscan hplain
    rw [hscan']
    simp only [noteDelimiter_followedBy]
    rfl

theorem readParens_lineEnd {inner : List Char} (h : s.readParens inner = .ok next)
    (hplain : EndsPlain inner) :
    (s.followedBy more).readParens (inner ++ '\n' :: more) = .ok (next.followedBy more) := by
  unfold readParens at h ⊢
  split at h
  · cases h
  · next content rest hclose =>
    rw [Delimiter.close_lineEnd hclose hplain]
    dsimp only
    split at h
    · next expression hinner =>
      cases h
      rfl
    · next hinner =>
      cases h
      rfl

theorem readOperator_lineEnd {descriptor : Option Nat}
    (h : s.readOperator descriptor = .ok next) (hplain : EndsPlain s.rest) :
    (s.followedBy more).readOperator descriptor = .ok (next.followedBy more) := by
  have hkind : TokenKind.operator? (s.followedBy more).rest = _ := TokenKind.operator?_lineEnd s.rest
  unfold readOperator at h ⊢
  rw [hkind]
  split at h
  · next kind rest hfound =>
    cases h
    rw [hfound]
    rfl
  · next hnone =>
    rw [hnone]
    exact readWord_lineEnd h hplain

/-- **A step** takes the same construct off the text, unless it is the end of a line. -/
theorem step_followedBy {c : Char} {rest : List Char} (hc : c ≠ '\n')
    (h : s.step c rest = .ok next) (hplain : EndsPlain (c :: rest)) :
    (s.followedBy more).step c (rest ++ '\n' :: more) = .ok (next.followedBy more) := by
  have hescape : (c == '\\' && (rest ++ '\n' :: more).head? == some '\n') =
      (c == '\\' && rest.head? == some '\n') := by
    cases rest with
    | nil =>
      have hc : c ≠ '\\' := fun hc => hplain (congrArg some hc)
      simp [hc]
    | cons x rest => rfl
  have hparens := head?_lineEnd more (c := '(') (by decide) rest
  unfold step at h ⊢
  rw [hescape, hparens]
  split at h
  · next hblank =>
    cases h
    rw [if_pos hblank]
    rfl
  rw [if_neg ‹_›]
  split at h
  · next hcontinued =>
    cases h
    rw [if_pos hcontinued]
    cases rest with
    | nil => simp at hcontinued
    | cons x rest => rfl
  rw [if_neg ‹_›]
  split at h
  · next hcomment =>
    cases h
    rw [if_pos hcomment]
    have hend : (rest ++ '\n' :: more).dropWhile (· != '\n') = _ :=
      dropWhile_ended (by decide) rest
    rw [followedBy, hend]
    rfl
  rw [if_neg ‹_›]
  split at h
  · next hline => exact absurd (by simpa using hline) hc
  rw [if_neg ‹_›]
  split at h
  · next hopen =>
    rw [if_pos hopen]
    exact readParens_lineEnd h (hplain.suffix (List.suffix_cons _ _))
  rw [if_neg ‹_›, ← List.cons_append, descriptor?_lineEnd]
  split at h
  · next digits after hdigits =>
    rw [hdigits]
    dsimp only [Option.map_some]
    split at h
    · cases h
    · have hafter : after <:+ c :: rest := ⟨digits, (descriptor?_eq_some hdigits).1⟩
      exact readOperator_lineEnd h (hplain.suffix hafter)
  · next hnone =>
    rw [hnone]
    exact readOperator_lineEnd h hplain

end Scanner

end VirtualShell
