import VirtualShell.Glob.Text
import VirtualShell.Proofs.Condition.Literal
import VirtualShell.Proofs.Glob.Match

/-!
# Patterns as regular expressions

A pattern is written as a regular expression, and this is read and matched as any other one. It is
written piece by piece, so it is read piece by piece, too: a piece becomes one item, and a set is
read member by member. What can go wrong is a range whose ends are in the wrong order; it stands
where the reader of the pattern says it does, since both count the same characters.

Matching goes back where the pattern keeps all rests of the text at once. They agree as an item can
take a part of the text, and let the others take what follows, exactly when its atom takes the part.

* `Glob.Member.IsReadable` — what a regular expression reads as a character between brackets.
* `Regex.Pattern.outcome_loop_members` — the set that members are read as.
* `Regex.Pattern.outcome_loop_pieces` — the items that pieces are read as.
* `Regex.isSome_runAll_iff` — what these items match.
* **`Glob.compile_translation`** — the regular expression of a pattern is refused as the pattern is,
  and matches the same texts.
-/

namespace VirtualShell

namespace Regex

open Reader

/-! ## Tokens -/

/-- A character, or a backslash with the character after it. -/
def IsToken (text : List Char) : Prop :=
  (∃ c, c ≠ '\\' ∧ text = [c]) ∨ ∃ c, text = ['\\', c]

theorem tokensFrom_token {token : List Char} (h : IsToken token) (position : Nat)
    (text : List Char) : tokensFrom position (token ++ text) =
      ⟨token, position⟩ :: tokensFrom (position + token.length) text := by
  obtain ⟨c, hc, rfl⟩ | ⟨c, rfl⟩ := h
  · exact tokensFrom_cons hc position text
  · rfl

theorem head?_tokensFrom_token {token : List Char} (h : IsToken token) (position : Nat)
    (text : List Char) :
    (tokensFrom position (token ++ text)).head?.map (·.text) ≠ some ['\\'] := by
  rw [tokensFrom_token h]
  obtain ⟨c, hc, rfl⟩ | ⟨c, rfl⟩ := h
  · simpa using hc
  · simp

/-- No backslash is alone in front of a bracket. -/
theorem append_bracket_ne (front text : List Char) : front ++ ']' :: text ≠ ['\\'] := by
  intro heq
  have hmem : ']' ∈ front ++ ']' :: text := by simp
  rw [heq] at hmem
  simp at hmem

/-- A character that is a token is the first one of the text. -/
theorem head?_of_head?_tokensFrom {text : List Char} {position : Nat} {c : Char}
    (h : (tokensFrom position text).head?.map (·.text) = some [c]) : text.head? = some c := by
  unfold tokensFrom at h
  split at h
  · simp at h
  · simpa using h
  · simp at h

/-- The first token of a text stands where the text starts. -/
theorem exists_tokensFrom_eq_cons {text : List Char} (h : text ≠ []) (position : Nat) :
    ∃ token rest, tokensFrom position text = ⟨token, position⟩ :: rest := by
  obtain ⟨c, text, rfl⟩ := List.exists_cons_of_ne_nil h
  unfold tokensFrom
  split
  next heq => cases heq; exact ⟨_, _, rfl⟩
  next heq => cases heq; exact ⟨_, _, rfl⟩
  next heq => cases heq

namespace Pattern

variable (p : Pattern) (progress : Progress) {tokens : List Token}

theorem outcome_take {t : Token} (h : tokens.head?.map (·.text) ≠ some ['\\']) :
    (p.take progress).outcome (t :: tokens) = .ok ((some t.text, progress), tokens) := by
  have hskip : ((liftM (skip : Reader Error Token Unit) : Scan Unit) progress).outcome
      (t :: tokens) = .ok (((), progress), tokens) := rfl
  refine (outcome_scan_bind (p.outcome_next progress _)).trans ((outcome_scan_bind hskip).trans ?_)
  exact outcome_scan_bind (p.outcome_checkNext progress h)

theorem outcome_accept (c : Char) (position : Nat) (h : tokens.head?.map (·.text) ≠ some ['\\']) :
    (p.accept c progress).outcome (⟨[c], position⟩ :: tokens) = .ok ((true, progress), tokens) := by
  refine (outcome_scan_bind (p.outcome_next progress _)).trans ?_
  rw [if_pos (by simp)]
  exact outcome_scan_bind (p.outcome_take progress h)

theorem outcome_accept_of_ne {c : Char} (h : tokens.head?.map (·.text) ≠ some [c]) :
    (p.accept c progress).outcome tokens = .ok ((false, progress), tokens) := by
  refine (outcome_scan_bind (p.outcome_next progress _)).trans ?_
  rw [if_neg (by simpa using h)]
  rfl

/-- What is wrong with a turn of a loop is wrong with the loop. -/
theorem outcome_loop_error {σ : Type} {step : σ → Token → Option (Scan σ)} {s : σ} {t : Token}
    {turn : Scan σ} {e : Error} (hstep : step s t = some turn)
    (hnext : tokens.head?.map (·.text) ≠ some ['\\'])
    (hturn : (turn progress).outcome tokens = .error e) :
    (p.loop s step progress).outcome (t :: tokens) = .error e := by
  have hread : ((do p.checkNext; turn : Scan σ) progress).outcome tokens = .error e :=
    (outcome_scan_bind (p.outcome_checkNext progress hnext)).trans hturn
  change (repeatFrom (s, progress) _).outcome (t :: tokens) = _
  rw [outcome_repeatFrom_cons]
  simp only [hstep, Option.map_some]
  rw [hread]
  rfl

/-- A loop ends where there is no turn for what is next. -/
theorem outcome_loop_end {σ : Type} {step : σ → Token → Option (Scan σ)} {s : σ}
    (hstep : ∀ t ∈ tokens.head?, step s t = none) :
    (p.loop s step progress).outcome tokens = .ok ((s, progress), tokens) := by
  refine outcome_repeatFrom_stop fun t ht => ?_
  simp only [hstep t ht, Option.map_none]

theorem outcome_failBack {α : Type} (flaw : Flaw) (back : Nat) (t : Token) :
    (p.failBack flaw back progress : Reader Error Token (α × Progress)).outcome (t :: tokens) =
      .error (.flaw flaw (some (p.text, t.position - back))) := rfl

end Pattern

/-! ## Escapes -/

section

variable {c : Char} (hletter : isAsciiLetter c = false) (hdigit : isDecimal c = false)
include hletter hdigit

/-- A character that is neither letter nor digit is none of those that mean something after a
backslash. -/
theorem ne_of_eq_false {d : Char} (hd : isAsciiLetter d = true ∨ isDecimal d = true) : c ≠ d := by
  rintro rfl
  simp [hletter, hdigit] at hd

theorem category?_eq_none : category? c = none := by
  have hne {d : Char} := ne_of_eq_false hletter hdigit (d := d)
  unfold category?
  split <;> first | rfl | exact absurd rfl (hne (by decide))

theorem control?_eq_none : control? c = none := by
  have hne {d : Char} := ne_of_eq_false hletter hdigit (d := d)
  unfold control?
  split <;> first | rfl | exact absurd rfl (hne (by decide))

theorem anchor?_eq_none : anchor? c = none := by
  have hne {d : Char} := ne_of_eq_false hletter hdigit (d := d)
  unfold anchor?
  split <;> first | rfl | exact absurd rfl (hne (by decide))

theorem Pattern.codeEscape?_eq_none (p : Pattern) : p.codeEscape? c = none := by
  have hne {d : Char} := ne_of_eq_false hletter hdigit (d := d)
  unfold Pattern.codeEscape?
  split <;> first | rfl | exact absurd rfl (hne (by decide))

theorem Pattern.literalEscape_eq (p : Pattern) : p.literalEscape c = pure c.toNat := by
  unfold Pattern.literalEscape
  rw [hletter, hdigit]
  rfl

theorem Pattern.setEscape_eq (p : Pattern) : p.setEscape c = pure (.char c.toNat) := by
  have hoctal : isOctal c = false := by
    rw [Bool.eq_false_iff] at hdigit ⊢
    intro h
    simp only [isOctal, Bool.and_eq_true, decide_eq_true_eq] at h
    refine hdigit ?_
    simp only [isDecimal, Bool.and_eq_true, decide_eq_true_eq]
    exact ⟨h.1, h.2.trans (by decide)⟩
  have hb : c ≠ 'b' := ne_of_eq_false hletter hdigit (by decide)
  unfold Pattern.setEscape
  rw [category?_eq_none hletter hdigit, control?_eq_none hletter hdigit,
    p.codeEscape?_eq_none hletter hdigit, p.literalEscape_eq hletter hdigit, hoctal, if_neg hb]
  rfl

theorem Pattern.itemEscape_eq (p : Pattern) : p.itemEscape c = pure (.char c.toNat false) := by
  have hzero : c ≠ '0' := ne_of_eq_false hletter hdigit (by decide)
  unfold Pattern.itemEscape
  rw [anchor?_eq_none hletter hdigit, category?_eq_none hletter hdigit,
    control?_eq_none hletter hdigit, p.codeEscape?_eq_none hletter hdigit,
    p.literalEscape_eq hletter hdigit, hdigit, if_neg hzero]
  rfl

end

end Regex

/-! ## Written members -/

namespace Glob

open Regex

/-- The control characters, each written as a letter after a backslash. -/
def Member.controls : List Member :=
  ['t', 'n', 'r', 'f', 'v'].map fun c => ⟨['\\', c], control c⟩

/-- **A regular expression reads a member** as its character: what is written is this character,
with a backslash in front of it or not, or a letter that stands for it. -/
def Member.IsReadable (m : Member) : Prop :=
  (m.written = [m.char] ∧ m.char ≠ '\\' ∧ m.char ≠ ']') ∨
  (m.written = ['\\', m.char] ∧ isAsciiLetter m.char = false ∧ isDecimal m.char = false) ∨
  m ∈ Member.controls

instance (m : Member) : Decidable m.IsReadable := inferInstanceAs (Decidable (_ ∨ _ ∨ _))

/-- A member is written as its character, or as two. -/
theorem Member.IsReadable.written_cases {m : Member} (h : m.IsReadable) :
    (m.written = [m.char] ∧ m.char ≠ '\\' ∧ m.char ≠ ']') ∨ ∃ c, m.written = ['\\', c] := by
  obtain h | ⟨hwritten, -⟩ | hcontrol := h
  · exact .inl h
  · exact .inr ⟨_, hwritten⟩
  · obtain ⟨c, -, rfl⟩ := List.mem_map.1 hcontrol
    exact .inr ⟨c, rfl⟩

/-- **Members are read as they are written**: there is one, the first is no caret, and each is read
as its character. -/
structure AreReadable (members : List Member) : Prop where
  ne_nil : members ≠ []
  isReadable : ∀ m ∈ members, m.IsReadable
  ne_caret : ∀ m ∈ members.head?, m.written ≠ ['^']

/-- A piece is read as it is written. -/
def Piece.IsReadable : Piece → Prop
  | .set _ members => AreReadable members
  | _ => True

/-- What means something in a regular expression is neither letter nor digit. -/
theorem eq_false_of_mem_specials {c : Char} (h : c ∈ Regex.specials) :
    isAsciiLetter c = false ∧ isDecimal c = false := by
  have hall : (Regex.specials.all fun c => !isAsciiLetter c && !isDecimal c) = true := by
    decide +kernel
  simpa using List.all_eq_true.1 hall c h

namespace Member

theorem isReadable_plain (c : Char) : (plain c).IsReadable := by
  unfold plain
  split
  next h =>
    refine .inr (.inl ⟨rfl, eq_false_of_mem_specials ?_⟩)
    simp only [List.mem_cons, List.not_mem_nil, or_false] at h
    rcases h with rfl | rfl | rfl | rfl <;> decide
  next h =>
    simp only [List.mem_cons, not_or] at h
    exact .inl ⟨rfl, h.1, h.2.1⟩

theorem isReadable_escaped (c : Char) : (escaped c).IsReadable := by
  unfold escaped quoteChar
  split
  next h => exact .inr (.inl ⟨rfl, eq_false_of_mem_specials h⟩)
  next h =>
    have hne {d : Char} (hd : d ∈ Regex.specials) : c ≠ d := by rintro rfl; exact h hd
    exact .inl ⟨rfl, hne (by decide), hne (by decide)⟩

theorem areReadable_plain (c : Char) : AreReadable [plain c] := by
  refine ⟨List.cons_ne_nil _ _, by simpa using isReadable_plain c, ?_⟩
  rintro m ⟨⟩
  unfold plain
  split
  · simp
  next h =>
    simp only [List.mem_cons, not_or] at h
    simpa using h.2.2.1

theorem areReadable_escaped (c : Char) : AreReadable [escaped c] := by
  refine ⟨List.cons_ne_nil _ _, by simpa using isReadable_escaped c, ?_⟩
  rintro m ⟨⟩
  unfold escaped quoteChar
  split
  · simp
  next h =>
    have hne : c ≠ '^' := by rintro rfl; exact h (by decide)
    simpa using hne

end Member

theorem areReadable_of_mem_classes {k : String × String} (hk : k ∈ classes) :
    AreReadable (membersOf k.2) := by
  have hall : ∀ k ∈ classes, membersOf k.2 ≠ [] ∧ (∀ m ∈ membersOf k.2, m.IsReadable) ∧
      ∀ m ∈ (membersOf k.2).head?, m.written ≠ ['^'] := by
    decide +kernel
  obtain ⟨hne, hreadable, hcaret⟩ := hall k hk
  exact ⟨hne, hreadable, hcaret⟩

theorem areReadable_nextMembers (c : Char) (rest : List Char) :
    AreReadable (nextMembers c rest).1 := by
  unfold nextMembers
  split
  next found hclass =>
    obtain ⟨k, hk, rfl⟩ := Option.map_eq_some_iff.1 hclass
    exact areReadable_of_mem_classes (List.mem_of_find?_eq_some hk)
  · split
    · exact Member.areReadable_escaped _
    · exact Member.areReadable_plain _

/-- **What stands between brackets** is read as it is written. -/
theorem areReadable_members {body : List Char} (h : body ≠ []) : AreReadable (members body) := by
  have hall : ∀ m ∈ members body, m.IsReadable := by
    clear h
    fun_induction members body with
    | case1 => simp
    | case2 c rest ih =>
      intro m hm
      rcases List.mem_append.1 hm with hm | hm
      · exact (areReadable_nextMembers c rest).isReadable m hm
      · exact ih m hm
  obtain ⟨c, rest, rfl⟩ := List.exists_cons_of_ne_nil h
  have hnext := areReadable_nextMembers c rest
  obtain ⟨m, ms, hms⟩ := List.exists_cons_of_ne_nil hnext.ne_nil
  rw [members, hms] at hall ⊢
  exact ⟨List.cons_ne_nil _ _, hall, by simpa [hms] using hnext.ne_caret⟩

/-- There is something between the brackets of a set. -/
theorem body_ne_nil {text body rest : List Char} (h : body? text = some (body, rest)) :
    body ≠ [] := by
  have hcons {f : List Char × List Char → List Char × List Char}
      {found : Option (List Char × List Char)} (hf : ∀ found, (f found).1 ≠ [])
      (h : found.map f = some (body, rest)) : body ≠ [] := by
    obtain ⟨found, -, heq⟩ := Option.map_eq_some_iff.1 h
    have hbody : (f found).1 = body := congrArg Prod.fst heq
    exact hbody ▸ hf found
  have hfront (c : Char) (front : List Char) (found : List Char × List Char) :
      c :: front ++ found.1 ≠ [] := List.cons_ne_nil _ _
  unfold body? within at h
  split at h
  · exact hcons (hfront _ []) h
  next hbracket =>
    unfold closed? at h
    split at h
    · cases h
    · exact absurd rfl (hbracket _)
    · exact hcons (hfront _ [_]) h
    · split at h
      · exact hcons (hfront _ (':' :: _)) h
      · exact hcons (hfront _ []) h
    · exact hcons (hfront _ []) h

/-- **The pieces of a pattern** are read as they are written. -/
theorem isReadable_of_mem_pieces (text : List Char) : ∀ piece ∈ pieces text, piece.IsReadable := by
  fun_induction pieces text with
  | case1 => simp
  | case2 c rest ih =>
    refine List.forall_mem_cons.2 ⟨?_, ih⟩
    unfold nextPiece
    split
    · trivial
    · trivial
    · split <;> trivial
    · rcases hset : set? rest with - | ⟨piece, after⟩
      · trivial
      · obtain ⟨⟨body, after⟩, hbody, heq⟩ := Option.map_eq_some_iff.1 hset
        cases heq
        exact areReadable_members (body_ne_nil hbody)
    · trivial

end Glob

/-! ## Sets -/

/-- **The members of a set** in a regular expression. A dash between two of them makes a range. -/
def Glob.setItems : List Glob.Member → List Regex.SetItem
  | [] => []
  | [m] => [.char m.char.toNat]
  | [m, m'] => [.char m.char.toNat, .char m'.char.toNat]
  | m :: m' :: m'' :: rest =>
    if m'.isDash then .range m.char.toNat m''.char.toNat :: setItems rest
    else .char m.char.toNat :: setItems (m' :: m'' :: rest)

namespace Regex.Pattern

open Reader Glob

variable (p : Pattern) (progress : Progress)

theorem setMember_written {m : Member} (h : m.IsReadable) :
    p.setMember m.written = pure (.char m.char.toNat) := by
  obtain ⟨hwritten, hescape, -⟩ | ⟨hwritten, hletter, hdigit⟩ | hcontrol := h
  · rw [hwritten]
    unfold setMember
    split
    next heq => simp at heq
    next heq => rw [(List.cons.inj heq).1]
    next heq => cases heq
  · rw [hwritten]
    exact p.setEscape_eq hletter hdigit
  · simp only [Member.controls, List.map_cons, List.map_nil, List.mem_cons, List.not_mem_nil,
      or_false] at hcontrol
    rcases hcontrol with rfl | rfl | rfl | rfl | rfl <;> rfl

theorem isToken_written {m : Member} (h : m.IsReadable) : IsToken m.written := by
  obtain ⟨hwritten, hescape, -⟩ | hwritten := h.written_cases
  · exact .inl ⟨_, hescape, hwritten⟩
  · exact .inr hwritten

theorem written_ne_bracket {m : Member} (h : m.IsReadable) : m.written ≠ [']'] := by
  obtain ⟨hwritten, -, hne⟩ | ⟨c, hwritten⟩ := h.written_cases
  · simpa [hwritten] using hne
  · simp [hwritten]

variable {p progress} {items : List SetItem} {here position : Nat} {text : List Char}

/-- A turn of a set that takes a member: what it does next depends on a dash. -/
theorem setTurn_written {m : Member} (h : m.IsReadable) :
    p.setTurn here (items, false) ⟨m.written, position⟩ = some (do
      let member ← pure (.char m.char.toNat)
      if ← p.accept '-' then
        let (more, closed) ← p.setRange here m.written member
        return (more ++ items, closed)
      else return (member :: items, false)) := by
  unfold setTurn
  dsimp only
  rw [if_neg Bool.false_ne_true, if_neg (by simp [written_ne_bracket h]), p.setMember_written h]

/-- **A member without a dash** behind it stands for itself. -/
theorem outcome_loop_single {m : Member} (h : m.IsReadable) (htext : text ≠ ['\\'])
    (hdash : (tokensFrom (position + m.written.length) text).head?.map (·.text) ≠ some ['-']) :
    (p.loop (items, false) (p.setTurn here) progress).outcome
        (tokensFrom position (m.written ++ text)) =
      (p.loop (.char m.char.toNat :: items, false) (p.setTurn here) progress).outcome
        (tokensFrom (position + m.written.length) text) := by
  rw [tokensFrom_token (isToken_written h)]
  refine p.outcome_loop_turn progress (setTurn_written h) (head?_tokensFrom htext _) ?_
  refine (outcome_scan_bind (a := .char m.char.toNat) rfl).trans ?_
  refine (outcome_scan_bind (p.outcome_accept_of_ne progress hdash)).trans ?_
  rw [if_neg Bool.false_ne_true]
  rfl

/-- **A bracket closes** a set that has a member. -/
theorem outcome_loop_close (hitems : items ≠ []) (htext : text ≠ ['\\']) :
    (p.loop (items, false) (p.setTurn here) progress).outcome
        (tokensFrom position (']' :: text)) =
      .ok (((items, true), progress), tokensFrom (position + 1) text) := by
  have hstep : p.setTurn here (items, false) ⟨[']'], position⟩ = some (pure (items, true)) := by
    unfold setTurn
    dsimp only
    rw [if_neg Bool.false_ne_true, if_pos (by simp [hitems])]
  rw [tokensFrom_cons (by decide)]
  refine (p.outcome_loop_turn progress hstep (head?_tokensFrom htext _) rfl).trans ?_
  exact p.outcome_loop_end progress fun _ _ => rfl

/-- **A dash in front of the closing bracket** stands for itself. -/
theorem outcome_loop_dash_close {m : Member} (h : m.IsReadable) (htext : text ≠ ['\\']) :
    (p.loop (items, false) (p.setTurn here) progress).outcome
        (tokensFrom position (m.written ++ '-' :: ']' :: text)) =
      .ok (((.char '-'.toNat :: .char m.char.toNat :: items, true), progress),
        tokensFrom (position + m.written.length + 2) text) := by
  rw [tokensFrom_token (isToken_written h), tokensFrom_cons (by decide),
    tokensFrom_cons (by decide)]
  refine (p.outcome_loop_turn progress (setTurn_written h) (by simp) ?_).trans
    (p.outcome_loop_end progress fun _ _ => rfl)
  refine (outcome_scan_bind (a := .char m.char.toNat) rfl).trans ?_
  refine (outcome_scan_bind (p.outcome_accept progress '-' _ (by simp))).trans ?_
  rw [if_pos rfl]
  refine (outcome_scan_bind (a := ([.char '-'.toNat, .char m.char.toNat], true)) ?_).trans rfl
  unfold setRange
  exact (outcome_scan_bind (p.outcome_take progress (head?_tokensFrom htext _))).trans rfl

/-- What is read after the dash of a range. The place that is complained about is found by counting
back from what follows. -/
theorem outcome_setRange {m m' : Member} (h' : m'.IsReadable) (hne : text ≠ [])
    (htext : text ≠ ['\\']) :
    (p.setRange here m.written (.char m.char.toNat) progress).outcome
        (tokensFrom (position + m.written.length + 1) (m'.written ++ text)) =
      if m'.char < m.char then
        .error (BadRange.error ⟨m.written, m'.written, position⟩ p.text)
      else .ok ((([.range m.char.toNat m'.char.toNat], false), progress),
        tokensFrom (position + m.written.length + 1 + m'.written.length) text) := by
  obtain ⟨token, rest, htokens⟩ := exists_tokensFrom_eq_cons hne
    (position + m.written.length + 1 + m'.written.length)
  have hhead := head?_tokensFrom htext (position + m.written.length + 1 + m'.written.length)
  rw [tokensFrom_token (isToken_written h')]
  unfold setRange
  refine (outcome_scan_bind (p.outcome_take progress hhead)).trans ?_
  dsimp only
  rw [if_neg (written_ne_bracket h'), p.setMember_written h']
  refine (outcome_scan_bind (a := .char m'.char.toNat) rfl).trans ?_
  have hlt : m'.char.toNat < m.char.toNat ↔ m'.char < m.char := Iff.rfl
  dsimp only
  by_cases horder : m'.char < m.char
  · have hback : position + m.written.length + 1 + m'.written.length -
        (m.written.length + 1 + m'.written.length) = position := by omega
    rw [if_pos (hlt.2 horder), if_pos horder, htokens]
    refine (p.outcome_failBack progress _ _ _).trans ?_
    rw [hback]
    rfl
  · rw [if_neg (mt hlt.1 horder), if_neg horder]
    rfl

/-- **A dash between two members** makes them a range, if they are in order. -/
theorem outcome_loop_range {m m' : Member} (h : m.IsReadable) (h' : m'.IsReadable)
    (hne : text ≠ []) (htext : text ≠ ['\\']) :
    (p.loop (items, false) (p.setTurn here) progress).outcome
        (tokensFrom position (m.written ++ '-' :: (m'.written ++ text))) =
      if m'.char < m.char then
        .error (BadRange.error ⟨m.written, m'.written, position⟩ p.text)
      else (p.loop (.range m.char.toNat m'.char.toNat :: items, false) (p.setTurn here)
        progress).outcome
          (tokensFrom (position + m.written.length + 1 + m'.written.length) text) := by
  have hlast : (tokensFrom (position + m.written.length + 1) (m'.written ++ text)).head?.map
      (·.text) ≠ some ['\\'] := head?_tokensFrom_token (isToken_written h') _ _
  have hrange : (p.setRange here m.written (.char m.char.toNat) progress).outcome
      (tokensFrom (position + m.written.length + 1) (m'.written ++ text)) = _ :=
    outcome_setRange h' hne htext
  rw [tokensFrom_token (isToken_written h), tokensFrom_cons (by decide)]
  split at hrange
  next horder =>
    rw [if_pos horder]
    refine p.outcome_loop_error progress (setTurn_written h) (by simp) ?_
    refine (outcome_scan_bind (a := .char m.char.toNat) rfl).trans ?_
    refine (outcome_scan_bind (p.outcome_accept progress '-' _ hlast)).trans ?_
    rw [if_pos rfl]
    exact outcome_scan_bind_error hrange
  next horder =>
    rw [if_neg horder]
    refine p.outcome_loop_turn progress (setTurn_written h) (by simp) ?_
    refine (outcome_scan_bind (a := .char m.char.toNat) rfl).trans ?_
    refine (outcome_scan_bind (p.outcome_accept progress '-' _ hlast)).trans ?_
    rw [if_pos rfl]
    exact (outcome_scan_bind hrange).trans rfl

theorem written_eq_of_isDash {m : Member} (h : m.IsReadable) (hdash : m.isDash = true) :
    m.written = ['-'] ∧ m.char = '-' := by
  have hwritten : m.written = ['-'] := eq_of_beq hdash
  obtain ⟨hchar, -⟩ | ⟨c, hchar⟩ := h.written_cases
  · rw [hwritten] at hchar
    exact ⟨hwritten, (List.cons.inj hchar).1.symm⟩
  · rw [hwritten] at hchar
    cases hchar

/-- What is next is no dash when no dash is written there. -/
theorem head?_written {m : Member} (h : m.IsReadable) (hdash : ¬ m.isDash = true)
    (text : List Char) :
    (tokensFrom position (m.written ++ text)).head?.map (·.text) ≠ some ['-'] := by
  rw [tokensFrom_token (isToken_written h)]
  simpa [Member.isDash] using hdash

/-- **Members are read as a set** up to the bracket that closes it; the first range whose ends are
in the wrong order is complained about. -/
theorem outcome_loop_members {members : List Member} (h : ∀ m ∈ members, m.IsReadable)
    (hitems : members ≠ [] ∨ items ≠ []) (htext : text ≠ ['\\']) :
    (p.loop (items, false) (p.setTurn here) progress).outcome
        (tokensFrom position (members.flatMap Member.written ++ ']' :: text)) =
      match ranges position members with
      | .ok _ => .ok ((((setItems members).reverse ++ items, true), progress),
          tokensFrom (position + (members.flatMap Member.written).length + 1) text)
      | .error bad => .error (bad.error p.text) := by
  have hclosed (front : List Char) : front ++ ']' :: text ≠ ['\\'] := append_bracket_ne front text
  -- The reader of the pattern looks two members ahead, and this one takes a turn for one member, or
  -- for the three of a range; the state of the loop is all that the cases leave to the next turn.
  fun_induction ranges position members generalizing items with
  | case1 position =>
    have hnonempty : items ≠ [] := by simpa using hitems
    simpa [setItems] using outcome_loop_close hnonempty htext
  | case2 position m =>
    rw [List.flatMap_singleton]
    refine (outcome_loop_single (h m (by simp)) (hclosed []) (by simp [tokensFrom])).trans ?_
    exact (outcome_loop_close (List.cons_ne_nil _ _) htext).trans rfl
  | case3 position m m' =>
    have hm := h m (by simp)
    have hm' := h m' (by simp)
    simp only [List.flatMap_cons, List.flatMap_nil, List.append_nil, List.append_assoc]
    by_cases hdash : m'.isDash = true
    · obtain ⟨hwritten, hchar⟩ := written_eq_of_isDash hm' hdash
      rw [hwritten]
      refine (outcome_loop_dash_close hm htext).trans ?_
      simp [setItems, hchar, Nat.add_assoc]
    · refine (outcome_loop_single hm (hclosed _) (head?_written hm' hdash _)).trans ?_
      refine (outcome_loop_single hm' (hclosed []) (by simp [tokensFrom])).trans ?_
      refine (outcome_loop_close (List.cons_ne_nil _ _) htext).trans ?_
      simp [setItems, Nat.add_assoc]
  | case4 position m m' m'' rest hdash horder =>
    have hm'' := h m'' (by simp)
    simp only [List.flatMap_cons, List.append_assoc,
      (written_eq_of_isDash (h m' (by simp)) hdash).1]
    refine (outcome_loop_range (h m (by simp)) hm'' (by simp) (hclosed _)).trans ?_
    rw [if_pos horder]
  | case5 position m m' m'' rest hdash horder ih =>
    have hm'' := h m'' (by simp)
    simp only [List.flatMap_cons, List.append_assoc,
      (written_eq_of_isDash (h m' (by simp)) hdash).1]
    refine (outcome_loop_range (h m (by simp)) hm'' (by simp) (hclosed _)).trans ?_
    rw [if_neg horder, ih (fun n hn => h n (by simp [hn])) (.inr (List.cons_ne_nil _ _))]
    cases ranges (position + m.written.length + 1 + m''.written.length) rest with
    | error bad => rfl
    | ok more =>
      change Except.ok _ = Except.ok _
      simp [setItems, hdash]
      congr 1
      omega
  | case6 position m m' m'' rest hdash ih =>
    have hm' := h m' (by simp)
    rw [List.flatMap_cons, List.append_assoc]
    refine (outcome_loop_single (h m (by simp)) (hclosed _) ?_).trans ?_
    · simp only [List.flatMap_cons, List.append_assoc]
      exact head?_written hm' hdash _
    · rw [ih (fun n hn => h n (List.mem_cons_of_mem _ hn)) (.inr (List.cons_ne_nil _ _))]
      cases ranges (position + m.written.length) (m' :: m'' :: rest) with
      | error bad => rfl
      | ok more =>
        change Except.ok _ = Except.ok _
        simp [setItems, hdash]
        congr 1
        omega

/-- How a set starts that is negated or not. -/
theorem outcome_set {members : List Member} (h : AreReadable members) (negated : Bool)
    (htext : text ≠ ['\\']) :
    (p.set here progress).outcome (tokensFrom position
        ((if negated then ['^'] else []) ++ (members.flatMap Member.written ++ ']' :: text))) =
      match ranges (position + if negated then 1 else 0) members with
      | .ok _ => .ok (((setItems members, negated), progress), tokensFrom
          (position + (if negated then 1 else 0) + (members.flatMap Member.written).length + 1)
          text)
      | .error bad => .error (bad.error p.text) := by
  have haccept : (p.accept '^' progress).outcome (tokensFrom position
      ((if negated then ['^'] else []) ++ (members.flatMap Member.written ++ ']' :: text))) =
      .ok ((negated, progress), tokensFrom (position + if negated then 1 else 0)
        (members.flatMap Member.written ++ ']' :: text)) := by
    obtain ⟨m, rest, rfl⟩ := List.exists_cons_of_ne_nil h.ne_nil
    have hm := isToken_written (h.isReadable m List.mem_cons_self)
    cases negated with
    | true =>
      rw [if_pos rfl, if_pos rfl, List.singleton_append, List.flatMap_cons, List.append_assoc,
        tokensFrom_cons (by decide)]
      exact p.outcome_accept progress '^' _ (head?_tokensFrom_token hm _ _)
    | false =>
      refine p.outcome_accept_of_ne progress ?_
      rw [if_neg Bool.false_ne_true, List.nil_append, List.flatMap_cons, List.append_assoc,
        tokensFrom_token hm]
      simpa using h.ne_caret m rfl
  have hloop : (p.loop ([], false) (p.setTurn here) progress).outcome (tokensFrom
      (position + if negated then 1 else 0) (members.flatMap Member.written ++ ']' :: text)) = _ :=
    outcome_loop_members h.isReadable (.inl h.ne_nil) htext
  unfold set
  refine (outcome_scan_bind haccept).trans ?_
  cases hranges : ranges (position + if negated then 1 else 0) members with
  | error bad =>
    rw [hranges] at hloop
    exact outcome_scan_bind_error hloop
  | ok bounds =>
    rw [hranges] at hloop
    refine (outcome_scan_bind hloop).trans ?_
    dsimp only
    rw [if_pos rfl, List.append_nil, List.reverse_reverse]
    rfl

end Regex.Pattern

/-! ## Pieces -/

/-- The item that a piece is in a regular expression. -/
def Glob.Piece.tree : Glob.Piece → Regex.Tree
  | .star => .repeat .greedy 0 none [.any]
  | .any => .any
  | .char c => .char c.toNat false
  | .set negated members => .ofSet (Glob.setItems members) negated

namespace Regex.Pattern

open Reader Glob

variable {p : Pattern} {progress : Progress} {items : List Tree} {inside : Inside} {first : Bool}
  {position : Nat} {text : List Char}

/-- A character that stands for itself is an item. -/
theorem outcome_loop_char (c : Char) (htext : text ≠ ['\\']) :
    (p.loop (items, false) (p.itemTurn inside first) progress).outcome
        (tokensFrom position (quoteChar c ++ text)) =
      (p.loop (.char c.toNat false :: items, false) (p.itemTurn inside first) progress).outcome
        (tokensFrom (position + (quoteChar c).length) text) := by
  unfold quoteChar
  split
  next h =>
    obtain ⟨hletter, hdigit⟩ := eq_false_of_mem_specials h
    have hstep : p.itemTurn inside first (items, false) ⟨['\\', c], position⟩ =
        some (do return ((← p.itemEscape c) :: items, false)) := rfl
    rw [p.itemEscape_eq hletter hdigit] at hstep
    rw [tokensFrom_token (.inr ⟨c, rfl⟩)]
    exact p.outcome_loop_turn progress hstep (head?_tokensFrom htext _) rfl
  next h =>
    have hsub : metacharacters ⊆ specials := by decide +kernel
    have hc : c ∉ metacharacters := fun hc => h (hsub hc)
    have hescape : c ≠ '\\' := by rintro rfl; exact hc (by decide)
    rw [tokensFrom_token (.inl ⟨c, hescape, rfl⟩)]
    exact p.outcome_loop_turn progress (p.itemTurn_literal inside first hc items position)
      (head?_tokensFrom htext _) rfl

/-- A dot is an item. -/
theorem outcome_loop_any (htext : text ≠ ['\\']) :
    (p.loop (items, false) (p.itemTurn inside first) progress).outcome
        (tokensFrom position ('.' :: text)) =
      (p.loop (.any :: items, false) (p.itemTurn inside first) progress).outcome
        (tokensFrom (position + 1) text) := by
  have hstep : p.itemTurn inside first (items, false) ⟨['.'], position⟩ =
      some (pure (.any :: items, false)) := rfl
  rw [tokensFrom_cons (by decide)]
  exact p.outcome_loop_turn progress hstep (head?_tokensFrom htext _) rfl

/-- What follows a repetition says nothing about how many turns it takes. -/
def KeepsGreed (text : List Char) : Prop := ∀ c ∈ text.head?, c ≠ '?' ∧ c ≠ '+'

/-- **A dot with a star** is any text. -/
theorem outcome_loop_star (htext : text ≠ ['\\']) (hgreed : KeepsGreed text) :
    (p.loop (items, false) (p.itemTurn inside first) progress).outcome
        (tokensFrom position ('.' :: '*' :: text)) =
      (p.loop (Glob.Piece.star.tree :: items, false) (p.itemTurn inside first) progress).outcome
        (tokensFrom (position + 2) text) := by
  have haccept {c : Char} (hc : c = '?' ∨ c = '+') : (p.accept c progress).outcome
      (tokensFrom (position + 2) text) =
        .ok ((false, progress), tokensFrom (position + 2) text) := by
    refine p.outcome_accept_of_ne progress fun hnext => ?_
    obtain ⟨hlazy, hfirm⟩ := hgreed c (head?_of_head?_tokensFrom hnext)
    exact hc.elim hlazy hfirm
  have hstep : p.itemTurn inside first (.any :: items, false) ⟨['*'], position + 1⟩ =
      some (do return (← p.repetition (position + 1) 0 none (.any :: items), false)) := rfl
  have hrepeat : (p.repetition (position + 1) 0 none (.any :: items) progress).outcome
      (tokensFrom (position + 2) text) =
      .ok ((Glob.Piece.star.tree :: items, progress), tokensFrom (position + 2) text) := by
    unfold repetition
    dsimp only
    refine (outcome_scan_bind (haccept (.inl rfl))).trans ?_
    rw [if_neg Bool.false_ne_true]
    refine (outcome_scan_bind (haccept (.inr rfl))).trans ?_
    rw [if_neg Bool.false_ne_true]
    rfl
  refine (outcome_loop_any (by simp)).trans ?_
  rw [tokensFrom_cons (by decide)]
  refine p.outcome_loop_turn progress hstep (head?_tokensFrom htext _) ?_
  exact (outcome_scan_bind hrepeat).trans rfl

/-- **A piece is read as one item**, or its first range that is in the wrong order is complained
about. -/
theorem outcome_loop_piece {piece : Glob.Piece} (h : piece.IsReadable) (htext : text ≠ ['\\'])
    (hgreed : KeepsGreed text) :
    (p.loop (items, false) (p.itemTurn inside first) progress).outcome
        (tokensFrom position (piece.written ++ text)) =
      match piece.atom position with
      | .ok _ => (p.loop (piece.tree :: items, false) (p.itemTurn inside first) progress).outcome
          (tokensFrom (position + piece.written.length) text)
      | .error bad => .error (bad.error p.text) := by
  cases piece with
  | star => exact outcome_loop_star htext hgreed
  | any => exact outcome_loop_any htext
  | char c => exact outcome_loop_char c htext
  | set negated members =>
    have hstep : p.itemTurn inside first (items, false) ⟨['['], position⟩ = some (do
        let (members, negated) ← p.set position
        return (.ofSet members negated :: items, false)) := rfl
    have hset : (p.set position progress).outcome (tokensFrom (position + 1)
        ((if negated then ['^'] else []) ++ (members.flatMap Member.written ++ ']' :: text))) = _ :=
      outcome_set h negated htext
    have hoffset : position + 1 + (if negated then 1 else 0) =
        position + if negated then 2 else 1 := by
      cases negated <;> rfl
    have hend : (if negated then ['^'] else []) ++ (members.flatMap Member.written ++ ']' :: text) ≠
        ['\\'] := by
      rw [← List.append_assoc]
      exact append_bracket_ne _ _
    have hnext := head?_tokensFrom hend (position + 1)
    have hwritten : (Glob.Piece.set negated members).written ++ text = '[' ::
        ((if negated then ['^'] else []) ++ (members.flatMap Member.written ++ ']' :: text)) := by
      cases negated <;> simp [Glob.Piece.written]
    rw [hwritten, tokensFrom_cons (by decide), Glob.Piece.atom]
    rw [hoffset] at hset
    cases hranges : ranges (position + if negated then 2 else 1) members with
    | error bad =>
      rw [hranges] at hset
      exact p.outcome_loop_error progress hstep hnext (outcome_scan_bind_error hset)
    | ok bounds =>
      have hlength : position + (if negated then 2 else 1) +
          (members.flatMap Member.written).length + 1 =
            position + (Glob.Piece.set negated members).written.length := by
        cases negated <;> simp [Glob.Piece.written] <;> omega
      rw [hranges, hlength] at hset
      exact p.outcome_loop_turn progress hstep hnext ((outcome_scan_bind hset).trans rfl)

/-- What is written of pieces does not end in a backslash, and keeps repetitions greedy. -/
theorem written_pieces (pieces : List Glob.Piece) :
    pieces.flatMap Glob.Piece.written ≠ ['\\'] ∧
      KeepsGreed (pieces.flatMap Glob.Piece.written) := by
  have hspecial {c : Char} (h : c ∉ specials) {d : Char} (hd : d ∈ specials) : c ≠ d := by
    rintro rfl
    exact h hd
  cases pieces with
  | nil => exact ⟨by simp, by simp [KeepsGreed]⟩
  | cons piece pieces =>
    rw [List.flatMap_cons]
    cases piece with
    | star | any => exact ⟨by simp [Glob.Piece.written], by simp [Glob.Piece.written, KeepsGreed]⟩
    | char c =>
      rw [Glob.Piece.written, quoteChar]
      split
      · exact ⟨by simp, by simp [KeepsGreed]⟩
      next h =>
        have hescape : c ≠ '\\' := hspecial h (by decide)
        have hlazy : c ≠ '?' := hspecial h (by decide)
        have hfirm : c ≠ '+' := hspecial h (by decide)
        exact ⟨by simp [hescape], by simp [KeepsGreed, hlazy, hfirm]⟩
    | set negated members =>
      cases negated <;>
        exact ⟨by simp [Glob.Piece.written], by simp [Glob.Piece.written, KeepsGreed]⟩

/-- **Pieces are read as their items**, and the first range that is in the wrong order is complained
about. -/
theorem outcome_loop_pieces {pieces : List Glob.Piece} (h : ∀ piece ∈ pieces, piece.IsReadable) :
    (p.loop (items, false) (p.itemTurn inside first) progress).outcome
        (tokensFrom position (pieces.flatMap Glob.Piece.written)) =
      match atoms position pieces with
      | .ok _ => .ok ((((pieces.map Glob.Piece.tree).reverse ++ items, false), progress), [])
      | .error bad => .error (bad.error p.text) := by
  induction pieces generalizing items position with
  | nil => exact outcome_repeatFrom_nil _ _
  | cons piece pieces ih =>
    obtain ⟨hpiece, hpieces⟩ := List.forall_mem_cons.1 h
    obtain ⟨hend, hgreed⟩ := written_pieces pieces
    rw [List.flatMap_cons, outcome_loop_piece hpiece hend hgreed, atoms]
    cases piece.atom position with
    | error bad => rfl
    | ok a =>
      refine (ih hpieces).trans ?_
      change _ = match (atoms (position + piece.written.length) pieces >>= fun more =>
        pure (a :: more) : Except BadRange (List Atom)) with | .ok _ => _ | .error bad => _
      cases atoms (position + piece.written.length) pieces with
      | error bad => rfl
      | ok more =>
        change Except.ok _ = Except.ok _
        simp

end Regex.Pattern

/-! ## What pieces match -/

namespace Regex

open Glob

theorem ofSet_cases (items : List SetItem) (negated : Bool) :
    (∃ code, items.eraseDups = [.char code] ∧ Tree.ofSet items negated = .char code negated) ∨
      Tree.ofSet items negated = .set items.eraseDups negated := by
  unfold Tree.ofSet
  split
  next code hitems => exact .inl ⟨code, hitems, rfl⟩
  · exact .inr rfl

/-- Pieces are no groups. -/
theorem unpack_pieces (pieces : List Glob.Piece) :
    unpack (pieces.map Glob.Piece.tree) = pieces.map Glob.Piece.tree := by
  induction pieces with
  | nil => rfl
  | cons piece pieces ih =>
    have hpiece : unpack [piece.tree] = [piece.tree] := by
      cases piece with
      | star | any | char => rfl
      | set negated members =>
        obtain ⟨code, -, htree⟩ | htree := ofSet_cases (setItems members) negated <;>
          rw [Glob.Piece.tree, htree] <;> rfl
    simp only [unpack, List.map_cons, List.flatMap_cons, List.flatMap_nil,
      List.append_nil] at hpiece ih ⊢
    rw [hpiece, ih]
    rfl

theorem flawIn?_pieces (pieces : List Glob.Piece) :
    Tree.flawIn? false (pieces.map Glob.Piece.tree) = none := by
  induction pieces with
  | nil => rfl
  | cons piece pieces ih =>
    have hpiece : piece.tree.flaw? false = none := by
      cases piece with
      | star | any | char => rfl
      | set negated members =>
        obtain ⟨code, -, htree⟩ | htree := ofSet_cases (setItems members) negated <;>
          rw [Glob.Piece.tree, htree] <;> rfl
    change (piece.tree.flaw? false).or (Tree.flawIn? false (pieces.map Glob.Piece.tree)) = none
    rw [hpiece, ih]
    rfl

variable {flags : Flags} {next : Goal} {place : Place} {captures : Captures}

/-! ### Characters -/

/-- **An item for one character** goes on after each one that passes its test. -/
theorem isSome_goOn_pass_iff {test : Char → Bool} :
    (goOn next (place.pass test) captures).isSome ↔
      ∃ part rest, place.after = part ++ rest ∧ (∃ c, part = [c] ∧ test c) ∧
        (next (place.advance part) captures).isSome := by
  obtain ⟨before, after, position⟩ := place
  cases after with
  | nil => simp [Place.pass, goOn]
  | cons c after =>
    by_cases hc : test c = true <;> simp [Place.pass, goOn, Place.advance, hc]

/-- A set is matched as its members are. -/
theorem run_ofSet (hcase : flags.ignoreCase = false) (items : List SetItem) (negated : Bool) :
    (Tree.ofSet items negated).run flags next place captures =
      goOn next (place.pass fun c => items.any (·.holds flags.ascii c.toNat) != negated)
        captures := by
  have hany (code : Nat) : items.any (·.holds flags.ascii code) =
      items.eraseDups.any (·.holds flags.ascii code) := by
    rw [Bool.eq_iff_iff, List.any_eq_true, List.any_eq_true]
    simp only [List.mem_eraseDups]
  simp only [hany]
  obtain ⟨code, hitems, htree⟩ | htree := ofSet_cases items negated
  · simp [htree, hitems, Tree.run, matchesChar, hcase, SetItem.holds]
  · simp [htree, Tree.run, matchesSet, hcase]

/-- **The set that members make up** holds the characters in their ranges. -/
theorem any_setItems {offset : Nat} {members : List Member} {bounds : List (Char × Char)}
    (h : ranges offset members = .ok bounds) (ascii : Bool) (c : Char) :
    (setItems members).any (·.holds ascii c.toNat) = inRanges bounds c := by
  have hsingle (d : Char) : (c.toNat == d.toNat) = (decide (d ≤ c) && decide (c ≤ d)) := by
    rw [Bool.eq_iff_iff]
    simp only [beq_iff_eq, Bool.and_eq_true, decide_eq_true_eq, Char.toNat_inj]
    exact ⟨fun h => ⟨h.ge, h.le⟩, fun h => le_antisymm h.2 h.1⟩
  fun_induction ranges offset members generalizing bounds with
  | case1 => cases h; rfl
  | case2 offset m => cases h; simp [setItems, inRanges, SetItem.holds, hsingle]
  | case3 offset m m' => cases h; simp [setItems, inRanges, SetItem.holds, hsingle]
  | case4 => cases h
  | case5 offset m m' m'' rest hdash horder ih =>
    rcases hmore : ranges (offset + m.written.length + 1 + m''.written.length) rest with bad | more
    · rw [hmore] at h
      cases h
    · rw [hmore] at h
      cases h
      have hrange : (SetItem.range m.char.toNat m''.char.toNat).holds ascii c.toNat =
          (decide (m.char ≤ c) && decide (c ≤ m''.char)) := rfl
      simp only [setItems, hdash, if_true, List.any_cons, inRanges, hrange] at ih ⊢
      rw [ih hmore]
  | case6 offset m m' m'' rest hdash ih =>
    rcases hmore : ranges (offset + m.written.length) (m' :: m'' :: rest) with bad | more
    · rw [hmore] at h
      cases h
    · rw [hmore] at h
      cases h
      rw [setItems, if_neg hdash, List.any_cons, ih hmore, SetItem.holds, hsingle]
      rfl

/-! ### Any text -/

theorem run_any (hdot : flags.dotAll = true) :
    Tree.any.run flags next place captures = goOn next (place.pass fun _ => true) captures := by
  change goOn next (place.pass fun c => flags.dotAll || c != '\n') captures = _
  simp [hdot]

/-- **A repeated dot goes on after any part of the text**: every turn takes a character, so no turn
starts where the last one did. -/
theorem isSome_greedyTurns_iff (hdot : flags.dotAll = true) {turns : Nat} {last : Option Nat}
    (hturns : place.after.length < turns) (hlast : last ≠ some place.position) :
    (greedyTurns (Tree.any.run flags) next turns last place captures).isSome ↔
      ∃ part rest, place.after = part ++ rest ∧ (next (place.advance part) captures).isSome := by
  induction turns generalizing place last with
  | zero => exact absurd hturns (Nat.not_lt_zero _)
  | succ turns ih =>
    obtain ⟨before, after, position⟩ := place
    rw [greedyTurns]
    dsimp only at hlast ⊢
    rw [if_neg hlast, run_any hdot]
    cases after with
    | nil => simp [Place.pass, goOn, Place.advance]
    | cons c after =>
      have hmore : (greedyTurns (Tree.any.run flags) next turns (some position)
          ⟨c :: before, after, position + 1⟩ captures).isSome ↔ _ :=
        ih (by simpa using hturns) (by simp)
      have hparts : (∃ part rest, c :: after = part ++ rest ∧
          (next (Place.advance ⟨before, c :: after, position⟩ part) captures).isSome) ↔
          (next ⟨before, c :: after, position⟩ captures).isSome ∨
            ∃ part rest, after = part ++ rest ∧
              (next (Place.advance ⟨c :: before, after, position + 1⟩ part) captures).isSome := by
        constructor
        · rintro ⟨part, rest, hsplit, hnext⟩
          cases part with
          | nil => exact .inl hnext
          | cons d part =>
            obtain ⟨rfl, rfl⟩ := List.cons.inj hsplit
            exact .inr ⟨part, rest, rfl, hnext⟩
        · rintro (hnext | ⟨part, rest, rfl, hnext⟩)
          · exact ⟨[], c :: after, rfl, hnext⟩
          · exact ⟨c :: part, rest, rfl, hnext⟩
      rw [hparts, ← hmore]
      simp only [Place.pass, if_true, goOn]
      cases greedyTurns (Tree.any.run flags) next turns (some position)
        ⟨c :: before, after, position + 1⟩ captures <;> simp

/-! ### All items -/

/-- **An item goes on** after each part of the text that the atom of its piece takes. -/
theorem isSome_run_iff (hdot : flags.dotAll = true) (hcase : flags.ignoreCase = false)
    {piece : Glob.Piece} {a : Atom} {offset : Nat} (h : piece.atom offset = .ok a) :
    (piece.tree.run flags next place captures).isSome ↔ ∃ part rest, place.after = part ++ rest ∧
      a.Takes part ∧ (next (place.advance part) captures).isSome := by
  cases piece with
  | star =>
    cases h
    have hturns : place.after.length < turnLimit 0 none place := by simp [turnLimit]
    have hstar : (greedyTurns (Tree.any.run flags) next (turnLimit 0 none place) none place
        captures).isSome ↔ _ := isSome_greedyTurns_iff hdot hturns (by simp)
    refine hstar.trans ?_
    simp [Atom.Takes]
  | any =>
    cases h
    rw [Glob.Piece.tree, run_any hdot, isSome_goOn_pass_iff]
    rfl
  | char c =>
    cases h
    have hrun : (Tree.char c.toNat false).run flags next place captures =
        goOn next (place.pass fun d => d == c) captures := by
      simp [Tree.run, matchesChar_exact flags hcase]
    rw [Glob.Piece.tree, hrun, isSome_goOn_pass_iff]
    rfl
  | set negated members =>
    rcases hranges : ranges (offset + if negated then 2 else 1) members with bad | bounds
    · rw [Glob.Piece.atom, hranges] at h
      cases h
    · rw [Glob.Piece.atom, hranges] at h
      cases h
      rw [Glob.Piece.tree, run_ofSet hcase, isSome_goOn_pass_iff]
      simp only [any_setItems hranges]
      rfl

theorem after_advance (part rest : List Char) (place : Place) (h : place.after = part ++ rest) :
    (place.advance part).after = rest := by
  induction part generalizing place with
  | nil => exact h
  | cons c part ih => exact ih _ (by simp [h])

/-- **All items match a whole text** that the atoms match. -/
theorem isSome_runAll_iff (hdot : flags.dotAll = true) (hcase : flags.ignoreCase = false)
    {pieces : List Glob.Piece} {as : List Atom} {offset : Nat} (h : atoms offset pieces = .ok as) :
    (Tree.runAll flags (pieces.map Glob.Piece.tree) acceptAtEnd place captures).isSome ↔
      Matches as place.after := by
  induction pieces generalizing place captures offset as with
  | nil =>
    cases h
    rw [matches_nil_iff, List.map_nil, Tree.runAll, acceptAtEnd]
    split <;> simp_all
  | cons piece pieces ih =>
    rw [atoms] at h
    rcases ha : piece.atom offset with bad | a
    · rw [ha] at h
      cases h
    rcases hmore : atoms (offset + piece.written.length) pieces with bad | more
    · rw [ha, hmore] at h
      cases h
    rw [ha, hmore] at h
    cases h
    change (piece.tree.run flags (Tree.runAll flags (pieces.map Glob.Piece.tree) acceptAtEnd) place
      captures).isSome ↔ _
    rw [isSome_run_iff hdot hcase ha, matches_cons_iff]
    refine exists₂_congr fun part rest => and_congr_right fun hsplit => and_congr_right fun _ => ?_
    rw [ih hmore, after_advance part rest place hsplit]

end Regex

/-! ## Translations -/

namespace Glob

open Regex

/-- What is read of the regular expression of a pattern. -/
theorem firstItems_translation (named? : String → Option Char) (flags : Flags) (pattern : String) :
    firstItems named? flags (translation pattern) =
      match atoms 0 (pieces pattern.toList) with
      | .ok _ => .ok (((pieces pattern.toList).map Piece.tree, .start flags), [])
      | .error bad => .error (bad.error (translation pattern)) := by
  have hloop (p : Pattern) (inside : Inside) : (p.loop ([], false) (p.itemTurn inside true)
      (.start flags)).outcome (tokensFrom 0 ((pieces pattern.toList).flatMap Piece.written)) = _ :=
    Pattern.outcome_loop_pieces (isReadable_of_mem_pieces pattern.toList)
  have hwritten : (translation pattern).toList = (pieces pattern.toList).flatMap Piece.written :=
    String.toList_ofList
  unfold firstItems Pattern.items
  rw [hwritten]
  cases hatoms : atoms 0 (pieces pattern.toList) with
  | error bad =>
    simp only [hatoms] at hloop
    exact outcome_scan_bind_error (hloop _ _)
  | ok as =>
    simp only [hatoms] at hloop
    refine (outcome_scan_bind (hloop _ _)).trans ?_
    dsimp only
    rw [List.append_nil, List.reverse_reverse, unpack_pieces]
    rfl

/-- **The regular expression of a pattern** is refused for what the pattern is refused for, and
otherwise it matches a whole text exactly when the pattern does. -/
theorem compile_translation (named? : String → Option Char) (pattern : String) :
    match compile pattern with
    | .ok as => ∃ regex, Regex.compile named? translationFlags (translation pattern) = .ok regex ∧
        ∀ value : String, regex.isFullMatch value = isMatch as value.toList
    | .error e => Regex.compile named? translationFlags (translation pattern) = .error e := by
  have hend : (translation pattern).toList ≠ ['\\'] := by
    rw [translation, String.toList_ofList]
    exact (Pattern.written_pieces _).1
  have hfirst := firstItems_translation named? translationFlags pattern
  unfold compile
  cases hatoms : atoms 0 (pieces pattern.toList) with
  | error bad =>
    rw [hatoms] at hfirst
    exact compile_of_items_error hend hfirst
  | ok as =>
    rw [hatoms] at hfirst
    refine ⟨_, compile_of_items hend rfl (flawIn?_pieces _) hfirst, fun value => ?_⟩
    rw [Bool.eq_iff_iff, isMatch_iff]
    exact isSome_runAll_iff rfl rfl hatoms

/-- **A pattern is tested** as its regular expression is. -/
theorem isMatchOf_eq (named? : String → Option Char) (pattern value : String) :
    isMatchOf pattern value =
      (Regex.compile named? translationFlags (translation pattern)).map (·.isFullMatch value) := by
  have hcompile := compile_translation named? pattern
  unfold isMatchOf
  cases has : compile pattern with
  | error e =>
    rw [has] at hcompile
    rw [show Regex.compile named? translationFlags (translation pattern) = .error e from hcompile]
    rfl
  | ok as =>
    rw [has] at hcompile
    obtain ⟨regex, hregex, hmatch⟩ := hcompile
    rw [hregex]
    exact congrArg Except.ok (hmatch value).symm

end Glob

end VirtualShell
