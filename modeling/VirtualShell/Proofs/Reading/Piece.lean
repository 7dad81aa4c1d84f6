import VirtualShell.Proofs.Reading.Span

/-!
# The pieces of a word

Before anything inside of a word is read, the word is cut into plain characters, escapes and the
texts of its quotes, substitutions and expansions. A construct whose end is not found is a piece as
well, the last one, and it is what the word is refused for.

* `Piece.cut` — the pieces of a text.
* `RawPart.read` — reading what stands inside of a piece.
* **`Level.partsOf_eq_assemble`** — the parts of a word are its pieces, read one after another.
-/

namespace VirtualShell

/-! ## Pieces -/

/-- What a part of a word is read from: the text inside of a construct, without its delimiters. -/
inductive RawPart where
  | tilde (user : Option String)
  | escaped (c : Char)
  | quoted (inner : List Char)
  | ansiQuoted (inner value : List Char)
  | doubleQuoted (inner : List Char)
  | backticks (inner : List Char)
  | parens (inner : List Char)
  | braces (content : List Char)
  | parameter (name : List Char)
  /-- The end of the text comes before this delimiter closes. -/
  | unclosed (d : Delimiter)
  /-- The end of the text comes before the quote that ends `$'...'`. -/
  | ansiUnclosed
  deriving DecidableEq, Repr

/-- A piece of a word: a plain character, a line end that a backslash takes away, or what a part is
read from. -/
inductive Piece where
  | plain (c : Char)
  | joint
  | part (raw : RawPart)
  deriving DecidableEq, Repr

namespace Piece

/-- A construct that has been found, with the text after it, or that does not close. -/
def ofClosed (make : List Char → RawPart) :
    Except Delimiter (List Char × List Char) → Piece × List Char
  | .error d => (part (.unclosed d), [])
  | .ok (inner, after) => (part (make inner), after)

/-- The piece that starts with a dollar sign, and the text after it. -/
def takeDollar (quoting : Quoting) (rest : List Char) : Piece × List Char :=
  match rest with
  | '(' :: text => ofClosed .parens (Delimiter.close .paren text)
  | '\x7b' :: text => ofClosed .braces (Delimiter.close .brace text)
  | c :: text =>
    if c == '\'' && quoting == .unquoted then
      match takeAnsiQuoted [] text with
      | none => (part .ansiUnclosed, [])
      | some (value, after) =>
        (part (.ansiQuoted (text.take (text.length - after.length - 1)) value), after)
    else
      match takeParameter (c :: text) with
      | some (name, after) => (part (.parameter name), after)
      | none => (plain '$', c :: text)
  | [] => (plain '$', [])

theorem takeDollar_paren (quoting : Quoting) (text : List Char) :
    takeDollar quoting ('(' :: text) = ofClosed .parens (Delimiter.close .paren text) := rfl

theorem takeDollar_brace (quoting : Quoting) (text : List Char) :
    takeDollar quoting ('\x7b' :: text) = ofClosed .braces (Delimiter.close .brace text) := rfl

theorem takeDollar_ansi {quoting : Quoting} {c : Char} {text : List Char}
    (h : (c == '\'' && quoting == .unquoted) = true) :
    takeDollar quoting (c :: text) =
      match takeAnsiQuoted [] text with
      | none => (part .ansiUnclosed, [])
      | some (value, after) =>
        (part (.ansiQuoted (text.take (text.length - after.length - 1)) value), after) := by
  obtain ⟨rfl, rfl⟩ : c = '\'' ∧ quoting = .unquoted := by simpa using h
  rfl

theorem takeDollar_parameter {quoting : Quoting} {c : Char} {text : List Char} (hparen : c ≠ '(')
    (hbrace : c ≠ '\x7b') (h : ¬ (c == '\'' && quoting == .unquoted) = true) :
    takeDollar quoting (c :: text) =
      match takeParameter (c :: text) with
      | some (name, after) => (part (.parameter name), after)
      | none => (plain '$', c :: text) := by
  unfold takeDollar
  split
  · next heq => exact absurd (List.cons.inj heq).1 hparen
  · next heq => exact absurd (List.cons.inj heq).1 hbrace
  · next heq =>
    cases heq
    rw [if_neg h]
  · next heq => cases heq

/-- The piece that starts with a character other than a backslash, and the text after it. -/
def take (quoting : Quoting) (c : Char) (rest : List Char) : Piece × List Char :=
  if c == '\'' && quoting == .unquoted then ofClosed .quoted (Delimiter.close .single rest)
  else if c == '"' && quoting == .unquoted then
    ofClosed .doubleQuoted (Delimiter.close .double rest)
  else if c == '\x60' then ofClosed .backticks (Delimiter.close .backtick rest)
  else if c == '$' then takeDollar quoting rest
  else (plain c, rest)

theorem ofClosed_length_le {make : List Char → RawPart} {d : Delimiter} {text : List Char} :
    (ofClosed make (Delimiter.close d text)).2.length ≤ text.length := by
  cases hclose : Delimiter.close d text with
  | error d => exact Nat.zero_le _
  | ok found => exact Nat.le_of_lt (Delimiter.close_length_lt hclose)

theorem takeDollar_length_le (quoting : Quoting) (rest : List Char) :
    (takeDollar quoting rest).2.length ≤ rest.length := by
  unfold takeDollar
  split
  · exact Nat.le_succ_of_le ofClosed_length_le
  · exact Nat.le_succ_of_le ofClosed_length_le
  · split
    · split
      · exact Nat.zero_le _
      · next hansi => exact Nat.le_succ_of_le (Nat.le_of_lt (takeAnsiQuoted_length_lt hansi))
    · split
      · next hname => exact Nat.le_of_lt (takeParameter_length_lt hname)
      · exact Nat.le_refl _
  · exact Nat.le_refl _

theorem take_length_le (quoting : Quoting) (c : Char) (rest : List Char) :
    (take quoting c rest).2.length ≤ rest.length := by
  unfold take
  split
  · exact ofClosed_length_le
  split
  · exact ofClosed_length_le
  split
  · exact ofClosed_length_le
  split
  · exact takeDollar_length_le quoting rest
  · exact Nat.le_refl _

/-- **The pieces of a text.** -/
def cut (quoting : Quoting) : List Char → List Piece
  | [] => []
  | '\\' :: [] => [plain '\\']
  | '\\' :: '\n' :: rest => joint :: cut quoting rest
  | '\\' :: c :: rest =>
    if quoting.escapes c then part (.escaped c) :: cut quoting rest
    else plain '\\' :: cut quoting (c :: rest)
  | c :: rest => (take quoting c rest).1 :: cut quoting (take quoting c rest).2
termination_by text => text.length
decreasing_by
  all_goals first
    | exact Nat.lt_succ_of_le (take_length_le quoting c rest)
    | simp only [List.length_cons]; omega

theorem cut_cons {c : Char} (hc : c ≠ '\\') (quoting : Quoting) (rest : List Char) :
    cut quoting (c :: rest) = (take quoting c rest).1 :: cut quoting (take quoting c rest).2 := by
  rw [cut.eq_def]
  split <;> simp_all

/-- The pieces of a whole text; only at its start can a tilde stand for a home directory. -/
def ofText (quoting : Quoting) (text : List Char) : List Piece :=
  match if quoting == .unquoted then takeTilde text else none with
  | some (user, rest) => part (.tilde user) :: cut quoting rest
  | none => cut quoting text

end Piece

/-! ## Reading pieces -/

/-- **Reading a part** from its text, at a level. -/
def RawPart.read (l : Level) : RawPart → Except SyntaxError Part
  | .tilde user => .ok (.tilde user)
  | .escaped c => .ok (.escaped c.toString)
  | .quoted inner => .ok (.quoted (String.ofList inner))
  | .ansiQuoted _ value => .ok (.quoted (String.ofList value))
  | .doubleQuoted inner => do
    let parts ← l.parts .double inner
    pure (.doubleQuoted parts)
  | .backticks inner => do
    let body ← l.script (String.ofList (unescapeBackticks inner))
    pure (.substitution body true)
  | .parens inner =>
    match Level.arithmeticText? inner with
    | some expression => do
      let w ← l.expandedText expression
      pure (.arithmetic w)
    | none => do
      let body ← l.script (String.ofList inner)
      pure (.substitution body false)
  | .braces content => l.bracedParameter content
  | .parameter name => .ok (.parameter (String.ofList name) none)
  | .unclosed d => .error (.lexical (.unclosed d) 1)
  | .ansiUnclosed => .error (.lexical (.unclosed .single) 1)

namespace Level

/-- **Reading pieces** in order. `done` holds the parts so far, last first, and `plain` the plain
text since then, backwards. -/
def assemble (l : Level) (done : List Part) (plain : List Char) :
    List Piece → Except SyntaxError (List Part)
  | [] => .ok (flush plain done).reverse
  | .plain c :: pieces => l.assemble done (c :: plain) pieces
  | .joint :: pieces => l.assemble done plain pieces
  | .part raw :: pieces =>
    match raw.read l with
    | .error e => .error e
    | .ok part => l.assemble (part :: flush plain done) [] pieces

/-- What a dollar sign starts is read from its piece. -/
theorem dollarPart?_cases (l : Level) (quoting : Quoting) (rest : List Char) :
    (l.dollarPart? quoting rest = .ok none ∧ Piece.takeDollar quoting rest = (.plain '$', rest)) ∨
    ∃ raw after, Piece.takeDollar quoting rest = (.part raw, after) ∧
      ((∃ e, raw.read l = .error e ∧ l.dollarPart? quoting rest = .error e) ∨
        ∃ part hafter, raw.read l = .ok part ∧
          l.dollarPart? quoting rest = .ok (some (part, ⟨after, hafter⟩))) := by
  unfold dollarPart?
  split
  · next text =>
    rw [Piece.takeDollar_paren]
    split
    · next hclose => exact .inr ⟨_, _, by rw [hclose]; rfl, .inl ⟨_, rfl, rfl⟩⟩
    · next inner after hclose =>
      have hafter : after.length < ('(' :: text).length :=
        Nat.lt_succ_of_lt (Delimiter.close_length_lt hclose)
      refine .inr ⟨.parens inner, after, by rw [hclose]; rfl, ?_⟩
      rw [RawPart.read]
      cases arithmeticText? inner with
      | some expression =>
        dsimp only
        cases l.expandedText expression with
        | error e => exact .inl ⟨e, rfl, rfl⟩
        | ok w => exact .inr ⟨_, hafter, rfl, rfl⟩
      | none =>
        dsimp only
        cases l.script (String.ofList inner) with
        | error e => exact .inl ⟨e, rfl, rfl⟩
        | ok body => exact .inr ⟨_, hafter, rfl, rfl⟩
  · next text =>
    rw [Piece.takeDollar_brace]
    split
    · next hclose => exact .inr ⟨_, _, by rw [hclose]; rfl, .inl ⟨_, rfl, rfl⟩⟩
    · next content after hclose =>
      have hafter : after.length < ('\x7b' :: text).length :=
        Nat.lt_succ_of_lt (Delimiter.close_length_lt hclose)
      refine .inr ⟨.braces content, after, by rw [hclose]; rfl, ?_⟩
      rw [RawPart.read]
      cases l.bracedParameter content with
      | error e => exact .inl ⟨e, rfl, rfl⟩
      | ok part => exact .inr ⟨part, hafter, rfl, rfl⟩
  · next c text hparen hbrace =>
    split
    · next hquote =>
      rw [Piece.takeDollar_ansi hquote]
      split
      · next hansi => exact .inr ⟨_, _, by rw [hansi], .inl ⟨_, rfl, rfl⟩⟩
      · next hansi =>
        have hafter := Nat.lt_succ_of_lt (takeAnsiQuoted_length_lt hansi)
        exact .inr ⟨_, _, by rw [hansi], .inr ⟨_, hafter, rfl, rfl⟩⟩
    · next hquote =>
      rw [Piece.takeDollar_parameter hparen hbrace hquote]
      split
      · next hname =>
        exact .inr ⟨_, _, by rw [hname], .inr ⟨_, takeParameter_length_lt hname, rfl, rfl⟩⟩
      · next hname => exact .inl ⟨rfl, by rw [hname]⟩
  · exact .inl ⟨rfl, rfl⟩

/-- What is read at the front of a text is read from its piece. -/
theorem part?_cases (l : Level) (quoting : Quoting) (c : Char) (rest : List Char) :
    (l.part? quoting c rest = .ok none ∧ Piece.take quoting c rest = (.plain c, rest)) ∨
    ∃ raw after, Piece.take quoting c rest = (.part raw, after) ∧
      ((∃ e, raw.read l = .error e ∧ l.part? quoting c rest = .error e) ∨
        ∃ part hafter, raw.read l = .ok part ∧
          l.part? quoting c rest = .ok (some (part, ⟨after, hafter⟩))) := by
  unfold part? Piece.take
  split
  · split
    · next hclose => exact .inr ⟨_, _, by rw [hclose]; rfl, .inl ⟨_, rfl, rfl⟩⟩
    · next hclose =>
      have hafter := Nat.le_of_lt (Delimiter.close_length_lt hclose)
      exact .inr ⟨_, _, by rw [hclose]; rfl, .inr ⟨_, hafter, rfl, rfl⟩⟩
  split
  · split
    · next hclose => exact .inr ⟨_, _, by rw [hclose]; rfl, .inl ⟨_, rfl, rfl⟩⟩
    · next inner after hclose =>
      have hafter := Nat.le_of_lt (Delimiter.close_length_lt hclose)
      refine .inr ⟨.doubleQuoted inner, after, by rw [hclose]; rfl, ?_⟩
      rw [RawPart.read]
      cases l.parts .double inner with
      | error e => exact .inl ⟨e, rfl, rfl⟩
      | ok parts => exact .inr ⟨_, hafter, rfl, rfl⟩
  split
  · split
    · next hclose => exact .inr ⟨_, _, by rw [hclose]; rfl, .inl ⟨_, rfl, rfl⟩⟩
    · next inner after hclose =>
      have hafter := Nat.le_of_lt (Delimiter.close_length_lt hclose)
      refine .inr ⟨.backticks inner, after, by rw [hclose]; rfl, ?_⟩
      rw [RawPart.read]
      cases l.script (String.ofList (unescapeBackticks inner)) with
      | error e => exact .inl ⟨e, rfl, rfl⟩
      | ok body => exact .inr ⟨_, hafter, rfl, rfl⟩
  split
  · next hdollar =>
    obtain rfl : c = '$' := by simpa using hdollar
    rcases l.dollarPart?_cases quoting rest with ⟨hnone, htake⟩ | ⟨raw, after, htake, hread⟩
    · exact .inl ⟨by rw [hnone]; rfl, htake⟩
    · refine .inr ⟨raw, after, htake, ?_⟩
      rcases hread with ⟨e, hread, herror⟩ | ⟨part, hafter, hread, hpart⟩
      · exact .inl ⟨e, hread, by rw [herror]; rfl⟩
      · exact .inr ⟨part, Nat.le_of_lt hafter, hread, by rw [hpart]; rfl⟩
  · exact .inl ⟨rfl, rfl⟩

theorem scanParts_eq_assemble (l : Level) (quoting : Quoting) (done : List Part)
    (plain text : List Char) :
    l.scanParts quoting done plain text = l.assemble done plain (Piece.cut quoting text) := by
  fun_induction scanParts l quoting done plain text with
  | case1 => simp [Piece.cut, assemble]
  | case2 done plain ih => simpa [Piece.cut, assemble] using ih
  | case3 done plain rest ih => simpa [Piece.cut, assemble] using ih
  | case4 done plain c rest hc hescapes ih =>
    rw [ih, Piece.cut, if_pos hescapes]
    · rfl
    · exact hc
  | case5 done plain c rest hc hescapes ih =>
    rw [ih, Piece.cut, if_neg hescapes]
    · rfl
    · exact hc
  | case6 done plain c rest hlast _ hnext e hpart =>
    have hc : c ≠ '\\' := by cases rest <;> simp_all
    rcases l.part?_cases quoting c rest with ⟨hnone, -⟩ | ⟨raw, after, htake, hread⟩
    · rw [hpart] at hnone
      cases hnone
    · rcases hread with ⟨e', hread, herror⟩ | ⟨part, hafter, -, hsome⟩
      · rw [hpart] at herror
        cases herror
        rw [Piece.cut_cons hc, htake, assemble, hread]
      · rw [hpart] at hsome
        cases hsome
  | case7 done plain c rest hlast _ hnext hpart ih =>
    have hc : c ≠ '\\' := by cases rest <;> simp_all
    rcases l.part?_cases quoting c rest with ⟨-, htake⟩ | ⟨raw, after, -, hread⟩
    · rw [ih, Piece.cut_cons hc, htake, assemble]
    · rcases hread with ⟨e', -, herror⟩ | ⟨part, hafter, -, hsome⟩
      · rw [hpart] at herror
        cases herror
      · rw [hpart] at hsome
        cases hsome
  | case8 done plain c rest hlast _ hnext part after hafter hpart ih =>
    have hc : c ≠ '\\' := by cases rest <;> simp_all
    rcases l.part?_cases quoting c rest with ⟨hnone, -⟩ | ⟨raw, after', htake, hread⟩
    · rw [hpart] at hnone
      cases hnone
    · rcases hread with ⟨e', -, herror⟩ | ⟨part', hafter', hread, hsome⟩
      · rw [hpart] at herror
        cases herror
      · rw [hpart] at hsome
        cases hsome
        rw [ih, Piece.cut_cons hc, htake, assemble, hread]

/-- **The parts of a word are its pieces, read in order.** -/
theorem partsOf_eq_assemble (l : Level) (quoting : Quoting) (text : List Char) :
    l.partsOf quoting text = l.assemble [] [] (Piece.ofText quoting text) := by
  unfold partsOf Piece.ofText
  cases if quoting == .unquoted then takeTilde text else none with
  | none => exact l.scanParts_eq_assemble _ _ _ _
  | some found => exact l.scanParts_eq_assemble _ _ _ _

theorem exists_of_assemble_error {l : Level} {done : List Part} {plain : List Char}
    {pieces : List Piece} {e : SyntaxError} (h : l.assemble done plain pieces = .error e) :
    ∃ raw, .part raw ∈ pieces ∧ raw.read l = .error e := by
  induction pieces generalizing done plain with
  | nil => cases h
  | cons piece pieces ih =>
    have hrest {done : List Part} {plain : List Char} (h : l.assemble done plain pieces = .error e) :
        ∃ raw, .part raw ∈ piece :: pieces ∧ raw.read l = .error e := by
      obtain ⟨raw, hraw, hread⟩ := ih h
      exact ⟨raw, List.mem_cons_of_mem _ hraw, hread⟩
    cases piece with
    | plain c => exact hrest h
    | joint => exact hrest h
    | part raw =>
      rw [assemble] at h
      split at h
      · next hread =>
        cases h
        exact ⟨raw, by simp, hread⟩
      · exact hrest h

/-- **A word is refused for one of its parts.** -/
theorem exists_of_partsOf_error {l : Level} {quoting : Quoting} {text : List Char}
    {e : SyntaxError} (h : l.partsOf quoting text = .error e) :
    ∃ raw, .part raw ∈ Piece.ofText quoting text ∧ raw.read l = .error e :=
  exists_of_assemble_error (l.partsOf_eq_assemble quoting text ▸ h)

end Level

end VirtualShell
