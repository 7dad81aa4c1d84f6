import VirtualShell.Proofs.Reading.Construct

/-!
# Where parentheses close

The end of a substitution is found by a scan that knows quotes, backslashes and parentheses, but no
tokens. It goes over a word, an operator or an arithmetic command as the lexer does, and over a
comment or the lines of a here-document as over any text.

* `Delimiter.scan_inParens` — what ends on its own ends in the same place inside parentheses.
* `Delimiter.Shifts` — a text that leaves the scan in parentheses nested deeper or less deep.
* `Scanner.shifts_takes` — one construct shifts the scan as its token says.
* **`Scanner.shifts_run`** — so do all constructs of a text.
-/

namespace VirtualShell

namespace Delimiter

/-! ## One character -/

/-- Which character closes a delimiter does not depend on what follows. -/
theorem move_leave {context : Option Delimiter} {c : Char} {next : Option Char}
    (h : move context c next = .leave) (next' : Option Char) : move context c next' = .leave := by
  unfold move at h ⊢
  split at h <;> grind

theorem move_none_ne_leave (c : Char) (next : Option Char) : move none c next ≠ .leave := by
  unfold move
  split <;> grind

/-- Inside parentheses a dollar sign is ordinary, and the parentheses themselves count. -/
theorem move_paren {c : Char} {next : Option Char} (hopen : c ≠ '(') (hclose : c ≠ ')')
    (hpair : ∀ d, move none c next ≠ .enterPair d) (next' : Option Char) :
    move (some .paren) c next' = move none c next := by
  unfold move at hpair ⊢
  split at hpair <;> grind

theorem of_move_none_enterPair {c : Char} {next : Option Char} {d : Delimiter}
    (h : move none c next = .enterPair d) :
    c = '$' ∧ (next = some '(' ∧ d = .paren ∨ next = some '\x7b' ∧ d = .brace) := by
  unfold move at h
  split at h <;> grind

/-! ## A scan inside parentheses -/

/-- A scan that is inside of a delimiter goes on. -/
theorem scan_ne_self {stop : Char → Bool} {d : Delimiter} {stack : List Delimiter}
    {read read' text : List Char} : scan stop (d :: stack) read text ≠ .ok (read', text) := by
  intro h
  cases text with
  | nil => simp [scan] at h
  | cons c text => exact absurd (scan_length_lt h rfl) (Nat.lt_irrefl _)

theorem scan_ne_longer {stop : Char → Bool} {stack : List Delimiter} {read read' text : List Char}
    {x : Char} : scan stop stack read text ≠ .ok (read', x :: text) := by
  intro h
  have hle := scan_length_le h
  rw [List.length_cons] at hle
  omega

/-- The last character that a scan inside of a delimiter takes closes it. -/
theorem leave_of_scan_last {stop : Char → Bool} {d : Delimiter} {stack : List Delimiter}
    {read read' rest : List Char} {c : Char}
    (h : scan stop (d :: stack) read (c :: rest) = .ok (read', rest)) :
    move (some d) c rest.head? = .leave := by
  rw [scan.eq_def] at h
  simp only [List.isEmpty_cons, Bool.false_and, Bool.false_eq_true, if_false,
    List.head?_cons] at h
  cases hm : move (some d) c rest.head? <;> simp only [hm] at h
  case leave => rfl
  case pass | enter => exact absurd h scan_ne_self
  case escape | enterPair =>
    cases rest with
    | nil => exact absurd h scan_ne_self
    | cons x rest => exact absurd h scan_ne_longer

/-- **What ends on its own ends in the same place inside parentheses.** Only a brace expansion does
not nest there. -/
theorem scan_inParens {stop₀ : Char → Bool} (hopen : stop₀ '(' = true) (hclose : stop₀ ')' = true)
    {stack₀ : List Delimiter} {read₀ text rest₀ : List Char}
    (h : scan stop₀ stack₀ read₀ (text ++ rest₀) = .ok (text.reverse ++ read₀, rest₀))
    (hplain : EndsPlain (text ++ rest₀))
    (hbrace : ['$', '\x7b'] <:+: text → stop₀ '$' = true)
    (stop : Char → Bool) (stack : List Delimiter) (read rest : List Char) :
    scan stop (stack₀ ++ .paren :: stack) read (text ++ rest) =
      scan stop (.paren :: stack) (text.reverse ++ read) rest := by
  induction hn : text.length using Nat.strongRecOn generalizing stack₀ read₀ read text with
  | ind n ih =>
    subst hn
    rcases text with - | ⟨c, text⟩
    · cases stack₀ with
      | nil => rfl
      | cons d stack₀ => exact absurd h scan_ne_self
    have hnext (before : List Char) (stack₀ : List Delimiter) {read₀ after : List Char}
        (happend : before ++ after = c :: text) (hbefore : before ≠ [])
        (hscan : scan stop₀ stack₀ read₀ (after ++ rest₀) =
          .ok (after.reverse ++ read₀, rest₀)) (read : List Char) :
        scan stop (stack₀ ++ .paren :: stack) read (after ++ rest) =
          scan stop (.paren :: stack) (after.reverse ++ read) rest := by
      have hsuffix : after <:+ c :: text := ⟨before, happend⟩
      refine ih after.length ?_ hscan (hplain.suffix ⟨before, ?_⟩)
        (fun hstands => hbrace (hstands.trans hsuffix.isInfix)) read rfl
      · rw [← happend, List.length_append]
        have := List.length_pos_iff.2 hbefore
        omega
      · rw [← List.append_assoc, happend]
    cases stack₀ with
    | nil =>
      have hgo : stop₀ c = false := by
        cases hstop : stop₀ c with
        | false => rfl
        | true =>
          rw [List.cons_append, scan.eq_def] at h
          simp only [List.isEmpty_nil, hstop, Bool.and_true, if_true, Except.ok.injEq] at h
          have hlonger := congrArg List.length (congrArg Prod.snd h)
          simp at hlonger
          omega
      have hc {x : Char} (hx : stop₀ x = true) : c ≠ x := by
        rintro rfl
        rw [hx] at hgo
        cases hgo
      rw [List.cons_append, scan.eq_def] at h ⊢
      rw [List.reverse_cons, List.append_assoc, List.singleton_append] at h ⊢
      simp only [List.isEmpty_nil, hgo, Bool.and_false, Bool.false_eq_true, if_false,
        List.head?_nil, List.nil_append, List.isEmpty_cons, Bool.false_and, List.head?_cons] at h ⊢
      have hmove (hpair : ∀ d, move none c (text ++ rest₀).head? ≠ .enterPair d) :=
        move_paren (hc hopen) (hc hclose) hpair (text ++ rest).head?
      cases hm : move none c (text ++ rest₀).head? <;> simp only [hm] at h hmove
      case pass =>
        rw [hmove (by simp)]
        exact hnext [c] _ rfl (by simp) h (c :: read)
      case enter =>
        rw [hmove (by simp)]
        exact hnext [c] _ rfl (by simp) h (c :: read)
      case leave => exact absurd hm (move_none_ne_leave _ _)
      case escape =>
        rw [hmove (by simp)]
        rcases text with - | ⟨x, text⟩
        · obtain rfl := eq_of_move_escape hm
          cases rest₀ with
          | nil => exact absurd rfl hplain
          | cons x rest₀ => exact absurd h scan_ne_longer
        · simpa using hnext [c, x] [] rfl (by simp) (by simpa using h) (x :: c :: read)
      case enterPair =>
        obtain ⟨rfl, hx⟩ := of_move_none_enterPair hm
        have hparen (next : Option Char) : move (some .paren) '$' next = .pass := rfl
        rcases text with - | ⟨x, text⟩
        · rw [List.nil_append] at hx h
          cases rest₀ with
          | nil => simp at hx
          | cons x rest₀ => exact absurd h scan_ne_longer
        · simp only [List.cons_append, List.head?_cons, Option.some.injEq] at hx
          rcases hx with ⟨rfl, rfl⟩ | ⟨rfl, rfl⟩
          · have hinner := hnext ['$', '('] [.paren] rfl (by simp) (by simpa using h)
              ('(' :: '$' :: read)
            rw [hparen, scan.eq_def]
            simpa [move] using hinner
          · rw [hbrace ⟨[], text, rfl⟩] at hgo
            cases hgo
    | cons d stack₀ =>
      have hlast (htext : text = []) : move (some d) c (text ++ rest₀).head? = .leave := by
        subst htext
        exact leave_of_scan_last h
      have hmove : move (some d) c (text ++ rest).head? =
          move (some d) c (text ++ rest₀).head? := by
        cases text with
        | nil => rw [hlast rfl, move_leave (hlast rfl)]
        | cons x text => rfl
      rw [List.cons_append, scan.eq_def] at h ⊢
      rw [List.reverse_cons, List.append_assoc, List.singleton_append] at h ⊢
      simp only [List.isEmpty_cons, Bool.false_and, Bool.false_eq_true, if_false,
        List.head?_cons, List.cons_append, hmove] at h ⊢
      cases hm : move (some d) c (text ++ rest₀).head? <;> simp only [hm] at h hlast ⊢
      case pass | enter | leave => exact hnext [c] _ rfl (by simp) h (c :: read)
      case escape | enterPair =>
        rcases text with - | ⟨x, text⟩
        · cases hlast rfl
        · rw [List.reverse_cons, List.append_assoc, List.singleton_append] at h ⊢
          exact hnext [c, x] _ rfl (by simp) h (x :: c :: read)

/-! ## Balanced texts -/

theorem move_dollar_or (context : Option Delimiter) {c : Char} (hc : context = some .paren ∨ c ≠ '$')
    (next next' : Option Char) : move context c next = move context c next' := by
  unfold move
  split <;> grind

/-- **What ends a scan**: a closing parenthesis, or one on the next line when no backslash takes the
line end along. -/
def Closes (text closer : List Char) : Prop :=
  closer = [')'] ∨ closer = ['\n', ')'] ∧ EndsPlain text

theorem Closes.suffix {text rest closer : List Char} (h : Closes text closer)
    (hrest : rest <:+ text) : Closes rest closer :=
  h.imp_right fun ⟨hcloser, hplain⟩ => ⟨hcloser, hplain.suffix hrest⟩

/-- What ends a scan does not matter for the character before it. -/
theorem move_of_scan_closed {d : Delimiter} {stack : List Delimiter} {read read' : List Char}
    {c : Char} {closer : List Char} (hcloser : Closes [c] closer)
    (h : scan (fun _ => true) (d :: stack) read (c :: closer) = .ok (read', []))
    (next : Option Char) : move (some d) c next = move (some d) c closer.head? := by
  refine move_dollar_or _ ?_ _ _
  by_cases hc : c = '$'
  · subst hc
    left
    rcases hcloser with rfl | ⟨rfl, -⟩ <;> cases d <;> simp [scan, move] at h ⊢
  · exact .inr hc

/-- **A scan passes over what a closing parenthesis ends**, whatever follows. -/
theorem scan_of_closed {stack₀ : List Delimiter} {read₀ text closer : List Char}
    (hcloser : Closes text closer)
    (h : scan (fun _ => true) stack₀ read₀ (text ++ closer) =
      .ok (closer.reverse ++ (text.reverse ++ read₀), []))
    (stop : Char → Bool) (stack : List Delimiter) (read rest : List Char) :
    scan stop (stack₀ ++ stack) read (text ++ rest) =
      scan stop (.paren :: stack) (text.reverse ++ read) rest := by
  induction hn : text.length using Nat.strongRecOn generalizing stack₀ read₀ read text with
  | ind n ih =>
    subst hn
    rcases stack₀ with - | ⟨d, stack₀⟩
    · have hne : text ++ closer ≠ [] := by rcases hcloser with rfl | ⟨rfl, -⟩ <;> simp
      obtain ⟨c, after, htext⟩ := List.exists_cons_of_ne_nil hne
      rw [htext, scan.eq_def] at h
      simp at h
    rcases text with - | ⟨c, text⟩
    · rcases hcloser with rfl | ⟨rfl, -⟩ <;> cases d <;> simp [scan, move] at h
      all_goals
        cases stack₀ with
        | nil => rfl
        | cons d stack₀ => simp [scan] at h
    have hmove : move (some d) c (text ++ rest).head? =
        move (some d) c (text ++ closer).head? := by
      cases text with
      | nil => exact move_of_scan_closed hcloser h _
      | cons x text => rfl
    rw [List.cons_append, scan.eq_def] at h ⊢
    rw [List.reverse_cons, List.append_assoc, List.singleton_append] at h ⊢
    simp only [List.isEmpty_cons, Bool.false_and, Bool.false_eq_true, if_false,
      List.head?_cons, List.cons_append, hmove] at h ⊢
    cases hm : move (some d) c (text ++ closer).head? <;> simp only [hm] at h ⊢
    case pass | enter | leave =>
      exact ih text.length (by simp) (hcloser.suffix (List.suffix_cons _ _)) h (c :: read) rfl
    case escape | enterPair =>
      rcases text with - | ⟨x, text⟩
      · rcases hcloser with rfl | ⟨rfl, hplain⟩
        · simp [scan] at h
        · first
            | exact absurd (congrArg some (eq_of_move_escape hm)) hplain
            | exact absurd (next_of_move_enterPair hm) (by simp)
      · rw [List.reverse_cons, List.append_assoc, List.singleton_append] at h ⊢
        exact ih text.length (by simp only [List.length_cons]; omega) (hcloser.suffix ⟨[c, x], rfl⟩) h (x :: c :: read) rfl

end Delimiter

/-- **Quotes and parentheses balance** when they are counted character by character: a closing
parenthesis after the text closes one before it. -/
def Balanced (text : List Char) : Prop :=
  Delimiter.close .paren (text ++ [')']) = .ok (text, [])

theorem Balanced.scan {text : List Char} (h : Balanced text) (stop : Char → Bool)
    (stack : List Delimiter) (read rest : List Char) :
    Delimiter.scan stop (.paren :: stack) read (text ++ rest) =
      Delimiter.scan stop (.paren :: stack) (text.reverse ++ read) rest := by
  have hclosed := Delimiter.scan_of_close_paren h
  rw [← List.append_nil text.reverse] at hclosed
  exact Delimiter.scan_of_closed (.inl rfl) hclosed stop stack read rest

theorem balanced_of_scan {text : List Char}
    (h : ∀ read rest, Delimiter.scan (fun _ => true) [.paren] read (text ++ rest) =
      Delimiter.scan (fun _ => true) [.paren] (text.reverse ++ read) rest) : Balanced text := by
  rw [Balanced, Delimiter.close, h]
  simp [Delimiter.scan, Delimiter.move]

/-- **A line end changes nothing** in the balance of a text. -/
theorem balanced_lineEnd {text : List Char} (hplain : EndsPlain text) :
    Balanced (text ++ ['\n']) ↔ Balanced text := by
  constructor
  · intro h
    have hclosed := Delimiter.scan_of_close_paren h
    rw [List.append_assoc] at hclosed
    refine balanced_of_scan fun read rest => ?_
    refine Delimiter.scan_of_closed (.inr ⟨rfl, hplain⟩) (hclosed.trans ?_) _ [] read rest
    simp
  · intro h
    refine balanced_of_scan fun read rest => ?_
    rw [List.append_assoc, h.scan, List.singleton_append, Delimiter.scan.eq_def]
    simp [Delimiter.move]

/-! ## Depth of parentheses -/

/-- **A text shifts the scan** from one depth of parentheses to another, inside of those that are
open around it. -/
def Shifts (text : List Char) (depth depth' : Nat) : Prop :=
  ∀ read rest, Delimiter.scan (fun _ => true) (List.replicate (depth + 1) .paren) read
      (text ++ rest) =
    Delimiter.scan (fun _ => true) (List.replicate (depth' + 1) .paren) (text.reverse ++ read) rest

/-- The characters that count for the scan inside parentheses. -/
def countedChars : List Char := ['\\', '\'', '"', '`', '(', ')']

theorem Balanced.shifts {text : List Char} (h : Balanced text) (depth : Nat) :
    Shifts text depth depth :=
  fun read rest => h.scan _ (List.replicate depth .paren) read rest

theorem Shifts.balanced {text : List Char} (h : Shifts text 0 0) : Balanced text :=
  balanced_of_scan h

namespace Shifts

theorem nil (depth : Nat) : Shifts [] depth depth := fun _ _ => rfl

theorem append {text text' : List Char} {depth depth' depth'' : Nat}
    (h : Shifts text depth depth') (h' : Shifts text' depth' depth'') :
    Shifts (text ++ text') depth depth'' := by
  intro read rest
  rw [List.append_assoc, h, h', List.reverse_append, List.append_assoc]

theorem cons {c : Char} {text : List Char} {depth depth' depth'' : Nat}
    (h : Shifts [c] depth depth') (h' : Shifts text depth' depth'') :
    Shifts (c :: text) depth depth'' :=
  h.append h'

theorem singleton {c : Char} (hc : c ∉ countedChars) (depth : Nat) : Shifts [c] depth depth := by
  intro read rest
  have hmove : Delimiter.move (some .paren) c rest.head? = .pass := by
    unfold Delimiter.move
    split <;> simp_all [countedChars]
  rw [List.singleton_append, List.replicate_succ, Delimiter.scan.eq_def]
  simp [hmove]

/-- Ordinary characters change nothing. -/
theorem of_uncounted {text : List Char} (h : ∀ c ∈ text, c ∉ countedChars) (depth : Nat) :
    Shifts text depth depth := by
  induction text with
  | nil => exact .nil depth
  | cons c text ih =>
    obtain ⟨hc, htext⟩ := List.forall_mem_cons.1 h
    exact (singleton hc depth).cons (ih htext)

theorem openParen (depth : Nat) : Shifts ['('] depth (depth + 1) := by
  intro read rest
  rw [List.singleton_append, Delimiter.scan.eq_def]
  rfl

theorem closeParen (depth : Nat) : Shifts [')'] (depth + 1) depth := by
  intro read rest
  rw [List.singleton_append, Delimiter.scan.eq_def]
  rfl

end Shifts

/-- The depth of the parentheses that are open after some tokens; nothing when one of them closes a
parenthesis that is not open. -/
def parenDepth? (depth : Nat) : List TokenKind → Option Nat
  | [] => some depth
  | .openParen :: kinds => parenDepth? (depth + 1) kinds
  | .closeParen :: kinds =>
    match depth with
    | 0 => none
    | depth + 1 => parenDepth? depth kinds
  | _ :: kinds => parenDepth? depth kinds

theorem parenDepth?_append (depth : Nat) (kinds kinds' : List TokenKind) :
    parenDepth? depth (kinds ++ kinds') =
      (parenDepth? depth kinds).bind (parenDepth? · kinds') := by
  fun_induction parenDepth? depth kinds with
  | case1 => rfl
  | case2 depth kinds ih => exact ih
  | case3 => rfl
  | case4 kinds depth ih => exact ih
  | case5 depth kind kinds hopen hclose ih => 
    cases kind <;> first | exact ih | exact absurd rfl hopen | exact absurd rfl hclose

/-! ## Constructs -/

namespace Scanner

/-- **A construct that the scan does not see as such**: a comment, a line end with the lines of
here-documents, or a word with a brace expansion. -/
def Overlooked (text : List Char) : Prop :=
  text.head? = some '#' ∨ text.head? = some '\n' ∨ ['$', '\x7b'] <:+: text

variable {s next : Scanner}

theorem noteDelimiter_kinds (s : Scanner) (word : List Char) :
    (s.noteDelimiter word).tokens.map (·.kind) = s.tokens.map (·.kind) := by
  unfold noteDelimiter
  split
  · next htokens =>
    split
    · rw [htokens]
      rfl
    · rfl
  · rfl

theorem spelling_uncounted (kind : TokenKind) (hopen : kind ≠ .openParen)
    (hclose : kind ≠ .closeParen) : ∀ c ∈ kind.spelling.toList, c ∉ countedChars := by
  cases kind with
  | openParen => exact absurd rfl hopen
  | closeParen => exact absurd rfl hclose
  | connective op => cases op <;> simp [TokenKind.spelling, Connective.spelling, countedChars]
  | redirect op => cases op <;> simp [TokenKind.spelling, RedirectOp.spelling, countedChars]
  | clauseEnd how => cases how <;> simp [TokenKind.spelling, ClauseEnd.spelling, countedChars]
  | _ => simp [TokenKind.spelling, countedChars]

theorem digit_uncounted {c : Char} (hc : Text.isDigit c = true) : c ∉ countedChars := by
  intro hmem
  rw [Text.isDigit_of_mem (by decide) hmem] at hc
  cases hc

theorem shifts_operator {digits : List Char} {kind : TokenKind}
    (hdigits : ∀ c ∈ digits, Text.isDigit c = true) {depth depth' : Nat}
    (hdepth : parenDepth? depth [kind] = some depth') :
    Shifts (digits ++ kind.spelling.toList) depth depth' := by
  refine (Shifts.of_uncounted (fun c hc => digit_uncounted (hdigits c hc)) depth).append ?_
  cases kind with
  | openParen =>
    cases hdepth
    exact .openParen depth
  | closeParen =>
    cases depth with
    | zero => cases hdepth
    | succ depth =>
      exact Option.some.inj hdepth ▸ .closeParen depth
  | _ =>
    cases hdepth
    refine .of_uncounted ?_ depth
    exact spelling_uncounted _ nofun nofun

/-- **A construct shifts the scan** as its token says. -/
theorem shifts_takes {text : List Char} (h : s.Takes text next)
    (happend : text ++ next.rest = s.rest) (hplain : EndsPlain s.rest)
    (hoverlooked : Overlooked text → Balanced text) :
    ∃ kinds, next.tokens.map (·.kind) = kinds.reverse ++ s.tokens.map (·.kind) ∧
      ∀ depth depth', parenDepth? depth kinds = some depth' → Shifts text depth depth' := by
  cases h with
  | blank hc =>
    refine ⟨[], rfl, ?_⟩
    rintro depth _ ⟨⟩
    refine .singleton ?_ depth
    rcases hc with rfl | rfl <;> decide
  | joint =>
    refine ⟨[], rfl, ?_⟩
    rintro depth _ ⟨⟩ read rest
    rw [List.cons_append, Delimiter.scan.eq_def]
    rfl
  | comment =>
    refine ⟨[], rfl, ?_⟩
    rintro depth _ ⟨⟩
    exact (hoverlooked (.inl rfl)).shifts depth
  | lineEnd hnext =>
    subst hnext
    refine ⟨[.newline], by rw [readBodies_tokens]; rfl, ?_⟩
    rintro depth _ ⟨⟩
    exact (hoverlooked (.inr (.inl rfl))).shifts depth
  | @arithmetic content expression after hclose =>
    refine ⟨[.arithmetic], rfl, ?_⟩
    rintro depth _ ⟨⟩
    refine (Shifts.openParen depth).cons fun read rest => ?_
    have hscan : Delimiter.scan (fun _ => true) [.paren] [] ((content ++ [')']) ++ after) =
        .ok ((content ++ [')']).reverse ++ [], after) := by
      simpa using Delimiter.scan_of_close_paren hclose
    have hsuffix : (content ++ [')']) ++ after <:+ s.rest := ⟨['('], by simpa [emit] using happend⟩
    exact Delimiter.scan_inParens rfl rfl hscan (hplain.suffix hsuffix) (fun _ => rfl) _
      (List.replicate depth .paren) read rest
  | operator hdigits => exact ⟨[_], rfl, fun _ _ hdepth => shifts_operator hdigits hdepth⟩
  | @word word after hscan =>
    refine ⟨[.word], by simp [emit, noteDelimiter_kinds], ?_⟩
    rintro depth _ ⟨⟩
    by_cases hbrace : ['$', '\x7b'] <:+: word.reverse
    · exact (hoverlooked (.inr (.inr hbrace))).shifts depth
    · intro read rest
      have hword : Delimiter.scan isMetacharacter [] [] (word.reverse ++ after) =
        .ok (word.reverse.reverse ++ [], after) := by simpa using hscan
      refine Delimiter.scan_inParens rfl rfl hword ?_ (absurd · hbrace) _ _ read rest
      rw [show word.reverse ++ after = s.rest from happend]
      exact hplain

/-- **All constructs of a text shift the scan** as the tokens say, when those that it overlooks are
balanced. -/
theorem shifts_run {t : Scanner} (h : s.run = .ok t) (hplain : EndsPlain s.rest)
    (hoverlooked : ∀ text, s.Construct text → Overlooked text → Balanced text) :
    ∃ kinds, t.tokens.map (·.kind) = kinds.reverse ++ s.tokens.map (·.kind) ∧
      ∀ depth depth', parenDepth? depth kinds = some depth' → Shifts s.rest depth depth' := by
  fun_induction run s with
  | case1 s hs =>
    obtain rfl : s = t := Except.ok.inj h
    refine ⟨[], rfl, ?_⟩
    rintro depth _ ⟨⟩
    exact hs ▸ .nil depth
  | case2 => cases h
  | case3 s c rest hs next hstep _ ih =>
    obtain ⟨text, happend, htakes⟩ := step_takes hs hstep
    obtain ⟨kinds, hkinds, hshifts⟩ := shifts_takes htakes happend hplain
      (hoverlooked text ⟨s, next, c, rest, .refl s, hs, hstep, happend⟩)
    obtain ⟨kinds', hkinds', hshifts'⟩ := ih h (hplain.suffix ⟨text, happend⟩)
      fun text ⟨t, after, c', rest', hreaches, hconstruct⟩ =>
        hoverlooked text ⟨t, after, c', rest', .step hs hstep hreaches, hconstruct⟩
    refine ⟨kinds ++ kinds', by simp [hkinds', hkinds], fun depth depth' hdepth => ?_⟩
    rw [parenDepth?_append, Option.bind_eq_some_iff] at hdepth
    obtain ⟨between, hbetween, hdepth⟩ := hdepth
    rw [← happend]
    exact (hshifts depth between hbetween).append (hshifts' between depth' hdepth)

end Scanner

/-! ## All tokens -/

/-- **The scan sees a text as the lexer does**: the parentheses that are tokens are paired, and
each construct in which the scan does not see what the lexer sees is balanced on its own. -/
structure ConstructsBalance (text : String) : Prop where
  parens {stream : TokenStream} : TokenStream.ofText text = .ok stream →
    parenDepth? 0 (stream.tokens.map (·.kind)) = some 0
  overlooked {construct : List Char} : (Scanner.start text).Construct construct →
    Scanner.Overlooked construct → Balanced construct

/-- **Then the text is balanced.** -/
theorem ConstructsBalance.balanced {text : String} (h : ConstructsBalance text)
    {stream : TokenStream} (hstream : TokenStream.ofText text = .ok stream)
    (hplain : EndsPlain text.toList) : Balanced text.toList := by
  have hparens := h.parens hstream
  unfold TokenStream.ofText at hstream
  split at hstream
  · cases hstream
  · next t hrun =>
    cases hstream
    obtain ⟨kinds, hkinds, hshifts⟩ :=
      Scanner.shifts_run hrun hplain fun _ hconstruct => h.overlooked hconstruct
    refine (hshifts 0 0 ?_).balanced
    rw [attachBodies_kinds] at hparens
    simpa [hkinds] using hparens

end VirtualShell
