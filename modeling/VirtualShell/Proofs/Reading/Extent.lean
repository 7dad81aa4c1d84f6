import VirtualShell.Proofs.Reading.Piece

/-!
# Where quoting ends

The scan of a script and the reading of a word look for the ends of the same quotes, substitutions
and expansions. They differ in two places: the scan knows neither the escapes of `$'...'` nor that
`$$` is a parameter. A word without such a place is cut into pieces that all close.

* `Piece.misleading` — pieces with a place where the two differ.
* **`Piece.closes_of_spans`** — a text that the scan passes over is cut into pieces that close.
* **`Word.Unmistaken.closes`** — so is a word, and so are the texts between double quotes in it.
-/

namespace VirtualShell

/-! ## Characters -/

namespace Delimiter

/-- The characters that can mean something outside of all delimiters or between double quotes. -/
def marks : List Char := ['\\', '\'', '"', '\x60', '$']

/-- A test that fails at each mark. -/
theorem forall_marks {test : Char → Bool} (h : marks.all (!test ·) = true) :
    ∀ c ∈ marks, test c = false := by
  simpa using h

variable {context : Option Delimiter}

theorem move_pass_of_not_mem (hcontext : context = none ∨ context = some .double) {c : Char}
    (hc : c ∉ marks) (next : Option Char) : move context c next = .pass := by
  simp only [marks, List.mem_cons, List.not_mem_nil, or_false, not_or] at hc
  rcases hcontext with rfl | rfl
  · unfold move
    split <;> simp_all
  · unfold move
    split <;> simp_all

theorem move_backslash (hcontext : context = none ∨ context = some .double) (next : Option Char) :
    move context '\\' next = .escape := by
  rcases hcontext with rfl | rfl <;> rfl

theorem move_backtick (hcontext : context = none ∨ context = some .double) (next : Option Char) :
    move context '\x60' next = .enter .backtick := by
  rcases hcontext with rfl | rfl <;> rfl

theorem move_dollar (hcontext : context = none ∨ context = some .double) (next : Option Char) :
    move context '$' next =
      if next = some '(' then .enterPair .paren
      else if next = some '\x7b' then .enterPair .brace else .pass := by
  rcases hcontext with rfl | rfl <;> simp [move]

namespace Spans

/-- An ordinary character is passed over. -/
theorem of_pass {c : Char} {rest : List Char} (h : Spans context (c :: rest))
    (hmove : move context c rest.head? = .pass) : Spans context rest := by
  cases h with
  | last => cases hmove
  | pass _ hrest => exact hrest
  | escape hmove' => rw [hmove'] at hmove; cases hmove
  | enter hmove' => rw [hmove'] at hmove; cases hmove
  | enterPair hmove' => rw [List.head?_cons, hmove'] at hmove; cases hmove

/-- Nothing closes what is around. -/
theorem not_closer {d : Delimiter} {rest : List Char} : ¬ Spans (some d) (d.closer :: rest) := by
  intro h
  have hmove := move_closer d
  cases h with
  | pass hmove' => rw [hmove] at hmove'; cases hmove'
  | escape hmove' => have := hmove' none; rw [hmove] at this; cases this
  | enter hmove' => have := hmove' none; rw [hmove] at this; cases this
  | enterPair hmove' => rw [hmove] at hmove'; cases hmove'

/-- What opens closes. -/
theorem of_enter {d : Delimiter} {c : Char} {rest : List Char} (h : Spans context (c :: rest))
    (hmove : move context c rest.head? = .enter d) :
    ∃ inner after, close d rest = .ok (inner, after) ∧ Spans (some d) inner ∧
      Spans context after := by
  cases h with
  | last => cases hmove
  | pass hmove' => rw [hmove'] at hmove; cases hmove
  | escape hmove' => rw [hmove'] at hmove; cases hmove
  | enter hmove' hinner hrest htext =>
    rw [hmove'] at hmove
    cases hmove
    exact ⟨_, _, htext ▸ close_of_spans hinner _, hinner, hrest⟩
  | enterPair hmove' => rw [List.head?_cons, hmove'] at hmove; cases hmove

theorem of_enterPair {d : Delimiter} {c x : Char} {rest : List Char}
    (h : Spans context (c :: x :: rest)) (hmove : move context c (some x) = .enterPair d) :
    ∃ inner after, close d rest = .ok (inner, after) ∧ Spans (some d) inner ∧
      Spans context after := by
  cases h with
  | pass hmove' => rw [List.head?_cons, hmove] at hmove'; cases hmove'
  | escape hmove' => rw [hmove'] at hmove; cases hmove
  | enter hmove' => rw [hmove'] at hmove; cases hmove
  | enterPair hmove' hinner hrest htext =>
    rw [hmove'] at hmove
    cases hmove
    exact ⟨_, _, htext ▸ close_of_spans hinner _, hinner, hrest⟩

theorem of_escape {c x : Char} {rest : List Char} (h : Spans context (c :: x :: rest))
    (hmove : move context c (some x) = .escape) : Spans context rest := by
  cases h with
  | pass hmove' => rw [List.head?_cons, hmove] at hmove'; cases hmove'
  | escape _ hrest => exact hrest
  | enter hmove' => rw [hmove'] at hmove; cases hmove
  | enterPair hmove' => rw [hmove'] at hmove; cases hmove

variable (hcontext : context = none ∨ context = some .double)
include hcontext

theorem dropWhile {test : Char → Bool} (htest : ∀ c ∈ marks, test c = false) {text : List Char}
    (h : Spans context text) : Spans context (text.dropWhile test) := by
  induction text with
  | nil => exact h
  | cons c rest ih =>
    rw [List.dropWhile_cons]
    split
    · next hc =>
      have hmarks : c ∉ marks := fun hmem => by simp [htest c hmem] at hc
      exact ih (h.of_pass (move_pass_of_not_mem hcontext hmarks _))
    · exact h

theorem takeName {text name rest : List Char} (h : Spans context text)
    (hname : takeName text = some (name, rest)) : Spans context rest := by
  unfold VirtualShell.takeName at hname
  split at hname
  · next c tail =>
    split at hname
    · next hc =>
      cases hname
      have hmarks : c ∉ marks := fun hmem => by
        have hstart : ∀ c ∈ marks, Text.isNameStart c = false := forall_marks (by decide)
        simp [hstart c hmem] at hc
      exact (h.of_pass (move_pass_of_not_mem hcontext hmarks _)).dropWhile hcontext
        (forall_marks (by decide))
    · cases hname
  · cases hname

/-- The name of a parameter is passed over, unless it is a dollar sign that the scan takes together
with what follows. -/
theorem takeParameter {text name rest : List Char} (h : Spans context text)
    (hname : takeParameter text = some (name, rest))
    (hdollar : name = ['$'] → rest.head? ≠ some '(' ∧ rest.head? ≠ some '\x7b') :
    Spans context rest := by
  unfold VirtualShell.takeParameter at hname
  split at hname
  · next found hfound =>
    cases hname
    exact h.takeName hcontext hfound
  · split at hname
    · next c tail _ =>
      split at hname
      · next hc =>
        cases hname
        refine h.of_pass ?_
        by_cases heq : c = '$'
        · subst heq
          obtain ⟨hparen, hbrace⟩ := hdollar rfl
          rw [move_dollar hcontext, if_neg hparen, if_neg hbrace]
        · refine move_pass_of_not_mem hcontext (fun hmem => ?_) _
          have hspecial : ∀ c ∈ marks,
              (c != '$' && (Text.isAsciiDigit c || isSpecialParameter c)) = false :=
            forall_marks (by decide)
          simpa [heq, hc] using hspecial c hmem
      · cases hname
    · cases hname

end Spans

/-- A tilde and a user name are passed over. -/
theorem Spans.takeTilde {text rest : List Char} {user : Option String} (h : Spans none text)
    (htilde : takeTilde text = some (user, rest)) : Spans none rest := by
  unfold VirtualShell.takeTilde at htilde
  split at htilde
  · dsimp only at htilde
    split at htilde
    · cases htilde
      exact (h.of_pass rfl).dropWhile (.inl rfl) (forall_marks (by decide))
    · cases htilde
  · cases htilde

end Delimiter

/-- A text of `$'...'` ends before a quote. -/
theorem takeAnsiQuoted_append {read text value after : List Char}
    (h : takeAnsiQuoted read text = some (value, after)) :
    ∃ raw, raw ++ '\'' :: after = text := by
  fun_induction takeAnsiQuoted read text with
  | case1 => cases h
  | case2 read rest =>
    cases h
    exact ⟨[], rfl⟩
  | case3 read c rest d hescape ih =>
    obtain ⟨raw, rfl⟩ := ih h
    exact ⟨'\\' :: c :: raw, rfl⟩
  | case4 read c rest hescape ih =>
    obtain ⟨raw, hraw⟩ := ih h
    exact ⟨'\\' :: raw, congrArg _ hraw⟩
  | case5 read c rest _ _ ih =>
    obtain ⟨raw, rfl⟩ := ih h
    exact ⟨c :: raw, rfl⟩

/-! ## Pieces that close -/

namespace Piece

/-- What the piece opens is closed in it. -/
def closes : Piece → Bool
  | part (.unclosed _) | part .ansiUnclosed => false
  | _ => true

/-- **A piece that the scan takes for something else**: a text of `$'...'` with a quote in it, and
`$$` in front of a parenthesis or a brace. -/
def misleads (next : Option Piece) : Piece → Bool
  | part .ansiUnclosed => true
  | part (.ansiQuoted inner _) => inner.contains '\''
  | part (.parameter ['$']) => next == some (plain '(') || next == some (plain '\x7b')
  | _ => false

/-- One of the pieces misleads the scan. -/
def misleading : List Piece → Bool
  | [] => false
  | piece :: rest => piece.misleads rest.head? || misleading rest

/-- The texts that are read in a quoting are those inside of its delimiter. -/
inductive Within : Quoting → Option Delimiter → Prop where
  | unquoted : Within .unquoted none
  | double : Within .double (some .double)

theorem Within.context {quoting : Quoting} {context : Option Delimiter}
    (h : Within quoting context) : context = none ∨ context = some .double := by
  cases h with
  | unquoted => exact .inl rfl
  | double => exact .inr rfl

/-- **A piece that fits the scan**: it closes, what stands between its double quotes is passed over
there, and so is the text after it. -/
structure Fits (context : Option Delimiter) (piece : Piece) (after : List Char) : Prop where
  closes : piece.closes = true
  inner {inner : List Char} : piece = part (.doubleQuoted inner) →
    Delimiter.Spans (some .double) inner
  after : Delimiter.Spans context after

variable {quoting : Quoting} {context : Option Delimiter}

theorem fits_ofClosed {make : List Char → RawPart} {d : Delimiter} {text : List Char}
    (hmake : ∀ inner, (part (make inner)).closes = true)
    (hquoted : ∀ inner inner', make inner = .doubleQuoted inner' → d = .double ∧ inner = inner')
    (h : ∃ inner after, Delimiter.close d text = .ok (inner, after) ∧
      Delimiter.Spans (some d) inner ∧ Delimiter.Spans context after) :
    Fits context (ofClosed make (Delimiter.close d text)).1
      (ofClosed make (Delimiter.close d text)).2 := by
  obtain ⟨inner, after, hclose, hinner, hafter⟩ := h
  rw [hclose]
  refine ⟨hmake inner, fun {inner'} hdouble => ?_, hafter⟩
  obtain ⟨rfl, rfl⟩ := hquoted inner inner' (Piece.part.inj hdouble)
  exact hinner

theorem head?_cut_mark {c : Char} (hc : c = '(' ∨ c = '\x7b') (quoting : Quoting)
    (rest : List Char) : (cut quoting (c :: rest)).head? = some (plain c) := by
  rcases hc with rfl | rfl <;> simp [cut_cons, take]

theorem fits_takeDollar (hwithin : Within quoting context) {rest : List Char}
    (h : Delimiter.Spans context ('$' :: rest))
    (hplain : (takeDollar quoting rest).1.misleads
      (cut quoting (takeDollar quoting rest).2).head? = false) :
    Fits context (takeDollar quoting rest).1 (takeDollar quoting rest).2 := by
  have hmove := Delimiter.move_dollar hwithin.context
  rcases rest with - | ⟨c, text⟩
  · exact ⟨rfl, nofun, .nil _⟩
  by_cases hparen : c = '('
  · subst hparen
    exact fits_ofClosed (fun _ => rfl) nofun (h.of_enterPair (by rw [hmove]; rfl))
  by_cases hbrace : c = '\x7b'
  · subst hbrace
    exact fits_ofClosed (fun _ => rfl) nofun (h.of_enterPair (by rw [hmove]; rfl))
  have hpass : Delimiter.Spans context (c :: text) := by
    refine h.of_pass ?_
    rw [hmove, List.head?_cons, if_neg (by simpa using hparen), if_neg (by simpa using hbrace)]
  by_cases hquote : (c == '\'' && quoting == .unquoted) = true
  · obtain ⟨rfl, rfl⟩ : c = '\'' ∧ quoting = .unquoted := by simpa using hquote
    rw [takeDollar_ansi hquote] at hplain ⊢
    cases hansi : takeAnsiQuoted [] text with
    | none => simp [hansi, misleads] at hplain
    | some found =>
      obtain ⟨value, after⟩ := found
      obtain ⟨raw, rfl⟩ := takeAnsiQuoted_append hansi
      have htake : (raw ++ '\'' :: after).take
          ((raw ++ '\'' :: after).length - after.length - 1) = raw := by
        have hlength : (raw ++ '\'' :: after).length - after.length - 1 = raw.length := by
          simp only [List.length_append, List.length_cons]
          omega
        rw [hlength, List.take_left]
      have hraw : '\'' ∉ raw := by
        rw [hansi] at hplain
        dsimp only at hplain
        rw [htake] at hplain
        simpa [misleads] using hplain
      cases hwithin
      obtain ⟨inner, after', hclose, -, hafter⟩ := hpass.of_enter rfl
      rw [Quotation.close_single hraw] at hclose
      cases hclose
      exact ⟨rfl, nofun, hafter⟩
  · rw [takeDollar_parameter hparen hbrace hquote] at hplain ⊢
    cases hname : takeParameter (c :: text) with
    | none => exact ⟨rfl, nofun, hpass⟩
    | some found =>
      obtain ⟨name, after⟩ := found
      refine ⟨rfl, nofun, hpass.takeParameter hwithin.context hname ?_⟩
      rintro rfl
      have hmark (x : Char) (hx : x = '(' ∨ x = '\x7b') : after.head? ≠ some x := by
        intro hhead
        obtain ⟨tail, rfl⟩ := List.head?_eq_some_iff.1 hhead
        rcases hx with rfl | rfl <;> simp [hname, misleads, head?_cut_mark] at hplain
      exact ⟨hmark _ (.inl rfl), hmark _ (.inr rfl)⟩

/-- **One piece.** Where the scan is not misled, the piece fits it. -/
theorem fits_take (hwithin : Within quoting context) {c : Char} (hc : c ≠ '\\')
    {rest : List Char} (h : Delimiter.Spans context (c :: rest))
    (hplain : (take quoting c rest).1.misleads
      (cut quoting (take quoting c rest).2).head? = false) :
    Fits context (take quoting c rest).1 (take quoting c rest).2 := by
  unfold take at hplain ⊢
  split at hplain
  · next hquote =>
    obtain ⟨rfl, rfl⟩ : c = '\'' ∧ quoting = .unquoted := by simpa using hquote
    cases hwithin
    rw [if_pos hquote]
    exact fits_ofClosed (fun _ => rfl) nofun (h.of_enter rfl)
  next hsingle =>
  rw [if_neg hsingle]
  split at hplain
  · next hquote =>
    obtain ⟨rfl, rfl⟩ : c = '"' ∧ quoting = .unquoted := by simpa using hquote
    cases hwithin
    rw [if_pos hquote]
    exact fits_ofClosed (fun _ => rfl) (fun _ _ heq => ⟨rfl, RawPart.doubleQuoted.inj heq⟩)
      (h.of_enter rfl)
  next hdouble =>
  rw [if_neg hdouble]
  split at hplain
  · next htick =>
    obtain rfl : c = '\x60' := by simpa using htick
    rw [if_pos htick]
    exact fits_ofClosed (fun _ => rfl) nofun
      (h.of_enter (Delimiter.move_backtick hwithin.context _))
  next htick =>
  rw [if_neg htick]
  split at hplain
  · next hdollar =>
    obtain rfl : c = '$' := by simpa using hdollar
    rw [if_pos hdollar]
    exact fits_takeDollar hwithin h hplain
  next hdollar =>
  rw [if_neg hdollar]
  refine ⟨rfl, nofun, h.of_pass ?_⟩
  have htick' : c ≠ '\x60' := by simpa using htick
  have hdollar' : c ≠ '$' := by simpa using hdollar
  cases hwithin with
  | unquoted =>
    have hsingle' : c ≠ '\'' := by simpa using hsingle
    have hdouble' : c ≠ '"' := by simpa using hdouble
    exact Delimiter.move_pass_of_not_mem (.inl rfl) (by simp [Delimiter.marks, *]) _
  | double =>
    by_cases hapostrophe : c = '\''
    · subst hapostrophe
      rfl
    · have hdouble' : c ≠ '"' := by
        rintro rfl
        exact Delimiter.Spans.not_closer h
      exact Delimiter.move_pass_of_not_mem (.inr rfl) (by simp [Delimiter.marks, *]) _

/-- **Pieces that close.** Where the scan is not misled, a text that it passes over is cut into
pieces that close, and it passes over the texts between double quotes as well. -/
theorem closes_of_spans (hwithin : Within quoting context) {text : List Char}
    (h : Delimiter.Spans context text) (hplain : misleading (cut quoting text) = false) :
    ∀ piece ∈ cut quoting text, piece.closes = true ∧
      ∀ inner, piece = part (.doubleQuoted inner) → Delimiter.Spans (some .double) inner := by
  have hescape := Delimiter.move_backslash hwithin.context
  fun_induction cut quoting text with
  | case1 => simp
  | case2 =>
    intro piece hpiece
    obtain rfl : piece = plain '\\' := by simpa using hpiece
    exact ⟨rfl, nofun⟩
  | case3 rest ih =>
    rintro piece (_ | ⟨_, hpiece⟩)
    · exact ⟨rfl, nofun⟩
    · exact ih (h.of_escape (hescape _)) (by simpa [misleading, misleads] using hplain) piece hpiece
  | case4 c rest _ _ ih =>
    rintro piece (_ | ⟨_, hpiece⟩)
    · exact ⟨rfl, nofun⟩
    · exact ih (h.of_escape (hescape _)) (by simpa [misleading, misleads] using hplain) piece hpiece
  | case5 c rest _ hordinary ih =>
    rintro piece (_ | ⟨_, hpiece⟩)
    · exact ⟨rfl, nofun⟩
    · -- Between double quotes a backslash is plain before an ordinary character.
      have hpass : Delimiter.move context c rest.head? = .pass := by
        cases hwithin with
        | unquoted => simp [Quoting.escapes] at hordinary
        | double =>
          simp only [Quoting.escapes, Bool.or_eq_true, beq_iff_eq, not_or] at hordinary
          unfold Delimiter.move
          split <;> simp_all
      exact ih (.pass hpass (h.of_escape (hescape _)))
        (by simpa [misleading, misleads] using hplain) piece hpiece
  | case6 c rest hlast _ hnext ih =>
    have hc : c ≠ '\\' := by cases rest <;> simp_all
    rw [misleading, Bool.or_eq_false_iff] at hplain
    obtain ⟨hcloses, hinner, hafter⟩ := fits_take hwithin hc h hplain.1
    rintro piece (_ | ⟨_, hpiece⟩)
    · exact ⟨hcloses, fun _ => hinner⟩
    · exact ih hafter hplain.2 piece hpiece

end Piece

/-! ## Words -/

/-- **A word whose quoting cannot be mistaken**: neither the scan of the word nor that of a text
between double quotes in it is misled. -/
structure Word.Unmistaken (text : List Char) : Prop where
  outer : Piece.misleading (Piece.ofText .unquoted text) = false
  inner (inner : List Char) : .part (.doubleQuoted inner) ∈ Piece.ofText .unquoted text →
    Piece.misleading (Piece.ofText .double inner) = false

/-- The scan is misled between the double quotes of a piece. -/
def Piece.misleadsInside : Piece → Bool
  | part (.doubleQuoted inner) => misleading (ofText .double inner)
  | _ => false

instance (text : List Char) : Decidable (Word.Unmistaken text) :=
  decidable_of_iff ((!Piece.misleading (Piece.ofText .unquoted text) &&
      (Piece.ofText .unquoted text).all fun piece => !piece.misleadsInside) = true) <| by
    rw [Bool.and_eq_true, Bool.not_eq_true', List.all_eq_true]
    constructor
    · rintro ⟨houter, hinner⟩
      exact ⟨houter, fun inner hmem => by simpa [Piece.misleadsInside] using hinner _ hmem⟩
    · rintro ⟨houter, hinner⟩
      refine ⟨houter, fun piece hpiece => ?_⟩
      unfold Piece.misleadsInside
      split
      · simpa using hinner _ hpiece
      · rfl

/-- **A word whose pieces close**, and those of the texts between double quotes in it. -/
structure Word.Closes (text : List Char) : Prop where
  outer : ∀ piece ∈ Piece.ofText .unquoted text, piece.closes = true
  inner (inner : List Char) : .part (.doubleQuoted inner) ∈ Piece.ofText .unquoted text →
    ∀ piece ∈ Piece.ofText .double inner, piece.closes = true

theorem Word.Unmistaken.closes {text : List Char} (h : Unmistaken text)
    (hspans : Delimiter.Spans none text) : Closes text := by
  obtain ⟨houter, hinner⟩ := h
  have hpieces : ∀ piece ∈ Piece.ofText .unquoted text, piece.closes = true ∧
      ∀ inner, piece = .part (.doubleQuoted inner) → Delimiter.Spans (some .double) inner := by
    unfold Piece.ofText at houter ⊢
    split
    · next user rest htilde =>
      rw [htilde] at houter
      rintro piece (_ | ⟨_, hpiece⟩)
      · exact ⟨rfl, nofun⟩
      · refine Piece.closes_of_spans .unquoted (hspans.takeTilde htilde) ?_ piece hpiece
        simpa [Piece.misleading, Piece.misleads] using houter
    · next htilde =>
      rw [htilde] at houter
      exact Piece.closes_of_spans .unquoted hspans houter
  refine ⟨fun piece hpiece => (hpieces piece hpiece).1, fun inner hpiece piece hpiece' => ?_⟩
  exact (Piece.closes_of_spans .double ((hpieces _ hpiece).2 inner rfl) (hinner inner hpiece)
    piece hpiece').1

end VirtualShell
