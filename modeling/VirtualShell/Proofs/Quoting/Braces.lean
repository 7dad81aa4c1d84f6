import VirtualShell.Proofs.Quoting.AnsiQuoted
import VirtualShell.Proofs.Quoting.Substitution

/-!
# The operands of a braced parameter

Where the braces of `${name/pattern/text}` close is found by a scan that knows quotes, backslashes
and substitutions. Inside of them the slash is looked for with backslashes alone, and the colon of
`${name:offset:length}` with nothing at all. So a quoted slash, or a colon in a substitution, is
taken for the one that separates.

* `Hides` — texts in which some characters stand only behind backslashes.
* `splitUnescaped_eq_some_iff` — which slash separates.
* `Word.parse_braced_iff` — a braced parameter is read from what stands between its braces.
* **`Word.parse_bracedOperands`** — the operands that can be written into a replacement or a
  substring.
* `Word.parse_bracedOperands_mistaken` — two that cannot.
-/

namespace VirtualShell

/-! ## What stands between braces -/

namespace Level

variable {l : Level}

/-- **A braced parameter** reaches to where its brace closes. -/
theorem partsOf_braces (text : List Char) : l.partsOf .unquoted ('$' :: '\x7b' :: text) =
    match Delimiter.close .brace text with
    | .error d => .error (.lexical (.unclosed d) 1)
    | .ok (content, after) =>
      match l.bracedParameter content with
      | .error e => .error e
      | .ok part => l.scanParts .unquoted [part] [] after := by
  have hpieces : Piece.ofText .unquoted ('$' :: '\x7b' :: text) =
      (Piece.ofClosed .braces (Delimiter.close .brace text)).1 ::
        Piece.cut .unquoted (Piece.ofClosed .braces (Delimiter.close .brace text)).2 := by
    change Piece.cut .unquoted ('$' :: '\x7b' :: text) = _
    rw [Piece.cut_cons (by decide)]
    rfl
  rw [partsOf_eq_assemble, hpieces]
  cases Delimiter.close .brace text with
  | error d => rfl
  | ok found =>
    simp only [Piece.ofClosed, assemble, RawPart.read, scanParts_eq_assemble]
    rfl

/-- **A braced parameter that is the whole text** is read from what stands between its braces. -/
theorem partsOf_braces_eq_ok_iff {content : List Char} {part : Part} :
    l.partsOf .unquoted ('$' :: '\x7b' :: (content ++ ['\x7d'])) = .ok [part] ↔
      Delimiter.Spans (some .brace) content ∧ l.bracedParameter content = .ok part := by
  rw [partsOf_braces]
  constructor
  · intro h
    rcases hclose : Delimiter.close .brace (content ++ ['\x7d']) with d | ⟨inner, after⟩ <;>
      rw [hclose] at h <;> dsimp only at h
    · cases h
    cases hpart : l.bracedParameter inner with
    | error e =>
      rw [hpart] at h
      cases h
    | ok first =>
      rw [hpart] at h
      dsimp only at h
      obtain ⟨htext, hspans⟩ := Delimiter.close_eq_ok_iff.1 hclose
      cases after with
      | nil =>
        obtain rfl : inner = content := List.append_cancel_right htext
        rw [scanParts] at h
        cases h
        exact ⟨hspans, hpart⟩
      | cons x after =>
        have hlast : (x :: after).getLast? = some '\x7d' := by
          have hend := congrArg List.getLast? htext
          simpa using hend
        exact absurd (length_lt_of_scanParts h hlast (by decide)) (Nat.lt_irrefl _)
  · rintro ⟨hspans, hpart⟩
    rw [show Delimiter.close .brace (content ++ ['\x7d']) = .ok (content, []) from
      Delimiter.close_of_spans hspans []]
    dsimp only
    rw [hpart]
    dsimp only
    rw [scanParts]
    rfl

end Level

/-! ## Names -/

/-- **The names of parameters:** names of variables, numbers and special characters. -/
inductive IsParameterName : List Char → Prop where
  | identifier {c : Char} {rest : List Char} (hstart : Text.isNameStart c = true)
      (hrest : ∀ x ∈ rest, Text.isNameChar x = true) : IsParameterName (c :: rest)
  | number {c : Char} {rest : List Char} (hdigit : Text.isAsciiDigit c = true)
      (hrest : ∀ x ∈ rest, Text.isAsciiDigit x = true) : IsParameterName (c :: rest)
  | special {c : Char} (hspecial : isSpecialParameter c = true) : IsParameterName [c]

/-- The characters that start an operation with two operands. -/
def isSeparator (c : Char) : Bool := c == '/' || c == ':'

theorem eq_of_isSeparator {c : Char} (hc : isSeparator c = true) : c = '/' ∨ c = ':' := by
  simpa [isSeparator] using hc

theorem not_name_of_isSeparator {c : Char} (hc : isSeparator c = true) :
    Text.isNameChar c = false ∧ Text.isAsciiDigit c = false := by
  obtain rfl | rfl := eq_of_isSeparator hc <;> decide

theorem takeBracedParameter_separator {c : Char} (hc : isSeparator c = true) (rest : List Char) :
    takeBracedParameter (c :: rest) = none := by
  obtain rfl | rfl := eq_of_isSeparator hc <;> rfl

theorem Text.isNameStart_of_isAsciiDigit {c : Char} (hc : isAsciiDigit c = true) :
    isNameStart c = false := by
  obtain ⟨-, hnine⟩ : '0' ≤ c ∧ c ≤ '9' := by simpa [isAsciiDigit] using hc
  have hupper : ¬ 'A' ≤ c := fun h => absurd (Char.le_trans h hnine) (by decide)
  have hlower : ¬ 'a' ≤ c := fun h => absurd (Char.le_trans h hnine) (by decide)
  have hunderscore : c ≠ '_' := by
    rintro rfl
    exact absurd hnine (by decide)
  simp [isNameStart, hupper, hlower, hunderscore]

theorem not_name_of_isSpecialParameter {c : Char} (hc : isSpecialParameter c = true) :
    Text.isNameStart c = false ∧ Text.isAsciiDigit c = false := by
  obtain ((((((rfl | rfl) | rfl) | rfl) | rfl) | rfl) | rfl) := by
    simpa [isSpecialParameter] using hc
  all_goals decide

/-- The scan for a closing brace passes over the characters of names. -/
theorem Delimiter.move_brace_name {c : Char}
    (hc : Text.isNameChar c = true ∨ isSpecialParameter c = true) {next : Option Char}
    (hnext : next ≠ some '(') : move (some .brace) c next = .pass := by
  unfold move
  split <;> first
    | rfl
    | exact absurd hc (by decide)
    | simp_all

namespace IsParameterName

variable {name : List Char} (h : IsParameterName name)
include h

/-- A name ends at a separator. -/
theorem takeBracedParameter_append {c : Char} (hc : isSeparator c = true) (rest : List Char) :
    takeBracedParameter (name ++ c :: rest) = some (name, c :: rest) := by
  obtain ⟨hchar, hnodigit⟩ := not_name_of_isSeparator hc
  unfold takeBracedParameter takeName
  cases h with
  | identifier hstart hrest =>
    simp [hstart, hchar, List.takeWhile_append_of_pos hrest, List.dropWhile_append_of_pos hrest]
  | number hdigit hrest =>
    simp [Text.isNameStart_of_isAsciiDigit hdigit, hdigit, hnodigit,
      List.takeWhile_append_of_pos hrest, List.dropWhile_append_of_pos hrest]
  | special hspecial => simp [not_name_of_isSpecialParameter hspecial, hspecial]

theorem forall_mem {c : Char} (hc : c ∈ name) :
    Text.isNameChar c = true ∨ isSpecialParameter c = true := by
  have hchar {c : Char} (hdigit : Text.isAsciiDigit c = true) : Text.isNameChar c = true :=
    Bool.or_eq_true_iff.2 (.inr hdigit)
  cases h with
  | identifier hstart hrest =>
    rcases List.mem_cons.1 hc with rfl | hc
    · exact .inl (Bool.or_eq_true_iff.2 (.inl hstart))
    · exact .inl (hrest c hc)
  | number hdigit hrest =>
    rcases List.mem_cons.1 hc with rfl | hc
    · exact .inl (hchar hdigit)
    · exact .inl (hchar (hrest c hc))
  | special hspecial => exact .inr (List.mem_singleton.1 hc ▸ hspecial)

/-- The scan for the closing brace passes over a name. -/
theorem spans_append_iff {text : List Char} (htext : text.head? ≠ some '(') :
    Delimiter.Spans (some .brace) (name ++ text) ↔ Delimiter.Spans (some .brace) text := by
  have hname : ∀ c ∈ name, Text.isNameChar c = true ∨ isSpecialParameter c = true :=
    fun c hc => h.forall_mem hc
  clear h
  induction name with
  | nil => rfl
  | cons c name ih =>
    have hnext : (name ++ text).head? ≠ some '(' := by
      cases name with
      | nil => exact htext
      | cons x name =>
        rintro heq
        cases heq
        exact absurd (hname '(' (by simp)) (by decide)
    have hmove := Delimiter.move_brace_name (hname c (by simp)) hnext
    have hrest := ih fun x hx => hname x (List.mem_cons_of_mem _ hx)
    exact ⟨fun hspans => hrest.1 (hspans.of_pass hmove), fun hspans => .pass hmove (hrest.2 hspans)⟩

/-- The length of a parameter is written without a separator. -/
theorem bracedParameter_append {c : Char} (hc : isSeparator c = true) (rest : List Char)
    {l : Level} : l.bracedParameter (name ++ c :: rest) =
      match l.parameterOp? (c :: rest) with
      | none => .error (.lexical (.badSubstitution (String.ofList (name ++ c :: rest))) 1)
      | some op => op.map fun op => .parameter (String.ofList name) (some op) := by
  unfold Level.bracedParameter
  dsimp only
  rw [h.takeBracedParameter_append hc]
  split
  · next measured hmeasured =>
    split at hmeasured
    · next text heq =>
      cases h with
      | identifier hstart =>
        obtain rfl := (List.cons.inj heq).1
        exact absurd hstart (by decide)
      | number hdigit =>
        obtain rfl := (List.cons.inj heq).1
        exact absurd hdigit (by decide)
      | special =>
        have htext : c :: rest = text := (List.cons.inj heq).2
        rw [← htext, takeBracedParameter_separator hc] at hmeasured
        cases hmeasured
    · cases hmeasured
  · rfl

end IsParameterName

/-! ## Hidden characters -/

/-- **A text that hides some characters:** they stand in it only behind backslashes, and no
backslash is left to escape what follows the text. -/
inductive Hides (marks : List Char) : List Char → Prop where
  | nil : Hides marks []
  | plain {c : Char} {rest : List Char} (hmark : c ∉ marks) (hplain : c ≠ '\\')
      (hrest : Hides marks rest) : Hides marks (c :: rest)
  | escaped {c : Char} {rest : List Char} (hrest : Hides marks rest) :
      Hides marks ('\\' :: c :: rest)

namespace Hides

variable {marks : List Char}

theorem escaped_iff {c : Char} {rest : List Char} :
    Hides marks ('\\' :: c :: rest) ↔ Hides marks rest := by
  refine ⟨fun h => ?_, .escaped⟩
  cases h with
  | plain _ hplain => exact absurd rfl hplain
  | escaped hrest => exact hrest

theorem plain_iff {c : Char} (hc : c ≠ '\\') {rest : List Char} :
    Hides marks (c :: rest) ↔ c ∉ marks ∧ Hides marks rest := by
  refine ⟨fun h => ?_, fun h => .plain h.1 hc h.2⟩
  cases h with
  | plain hmark _ hrest => exact ⟨hmark, hrest⟩
  | escaped => exact absurd rfl hc

theorem not_backslash : ¬ Hides marks ['\\'] := by
  intro h
  cases h with
  | plain _ hplain => exact hplain rfl

end Hides

/-! ## Slashes and colons -/

/-- The characters with which a colon starts another operation. -/
def joinsColon (c : Char) : Bool := c == '-' || c == '=' || c == '+' || c == '?'

/-- **Which character separates:** the first one that the text before it does not hide. -/
theorem splitUnescaped_eq_some_iff {sep : Char} (hsep : sep ≠ '\\')
    {read text before after : List Char} :
    splitUnescaped sep read text = some (before, after) ↔
      ∃ front, before = read.reverse ++ front ∧ front ++ sep :: after = text ∧
        Hides [sep] front := by
  fun_induction splitUnescaped sep read text with
  | case1 => simp
  | case2 read c rest ih =>
    rw [ih]
    constructor
    · rintro ⟨front, rfl, rfl, hfront⟩
      exact ⟨'\\' :: c :: front, by simp, rfl, .escaped hfront⟩
    · rintro ⟨front, rfl, htext, hfront⟩
      cases hfront with
      | nil => exact absurd (List.cons.inj htext).1 hsep
      | plain _ hplain => exact absurd (List.cons.inj htext).1 hplain
      | escaped hfront =>
        obtain ⟨rfl, rfl⟩ := List.cons.inj (List.cons.inj htext).2
        exact ⟨_, by simp, rfl, hfront⟩
  | case3 read c rest hpair hc =>
    obtain rfl : c = sep := by simpa using hc
    constructor
    · intro h
      cases h
      exact ⟨[], by simp, rfl, .nil⟩
    · rintro ⟨front, rfl, htext, hfront⟩
      cases hfront with
      | nil =>
        cases htext
        simp
      | plain hne => exact absurd (List.cons.inj htext).1 (by simpa using hne)
      | escaped => exact absurd (List.cons.inj htext).1.symm hsep
  | case4 read c rest hpair hc ih =>
    have hne : c ≠ sep := by simpa using hc
    rw [ih]
    constructor
    · rintro ⟨front, rfl, rfl, hfront⟩
      have hplain : c ≠ '\\' := fun heq => by
        cases front with
        | nil => exact hpair _ _ heq rfl
        | cons x front => exact hpair _ _ heq rfl
      exact ⟨c :: front, by simp, rfl, .plain (by simpa using hne) hplain hfront⟩
    · rintro ⟨front, rfl, htext, hfront⟩
      cases hfront with
      | nil => exact absurd (List.cons.inj htext).1.symm hne
      | plain _ _ hfront =>
        obtain ⟨rfl, rfl⟩ := List.cons.inj htext
        exact ⟨_, by simp, rfl, hfront⟩
      | escaped =>
        exact absurd (List.cons.inj htext).2.symm (hpair _ _ (List.cons.inj htext).1.symm)

namespace Level

variable {l : Level}

theorem raw_of_word {text : List Char} {w : Word} (h : l.word text = .ok w) :
    w.raw = String.ofList text := by
  unfold word at h
  cases hparts : l.parts .unquoted text with
  | error e =>
    rw [hparts] at h
    cases h
  | ok parts =>
    rw [hparts] at h
    cases h
    rfl

/-- **A replacement** is read from the two words that the slash separates. -/
theorem replacement_eq_ok_iff {text : List Char} {p t : Word} {all all' : Bool} :
    parameterOp?.replacement l text all = .ok (.replace p t all') ↔
      l.word ((splitUnescaped '/' [] text).getD (text, [])).1 = .ok p ∧
        l.word ((splitUnescaped '/' [] text).getD (text, [])).2 = .ok t ∧ all = all' := by
  unfold parameterOp?.replacement
  generalize (splitUnescaped '/' [] text).getD (text, []) = pieces
  obtain ⟨pattern, after⟩ := pieces
  dsimp only
  cases hp : l.word pattern with
  | error e => simp [bind, Except.bind]
  | ok p' =>
    cases ht : l.word after with
    | error e => simp [bind, Except.bind]
    | ok t' => simp [bind, Except.bind, pure, Except.pure]

/-- **Two words with a slash between them** are what is replaced and what replaces it if and only if
the first hides the slashes in it. -/
theorem replacement_operands_iff {pattern text : List Char} {p t : Word} {all : Bool}
    (hp : p.raw = String.ofList pattern) (ht : t.raw = String.ofList text) :
    parameterOp?.replacement l (pattern ++ '/' :: text) all = .ok (.replace p t all) ↔
      l.word pattern = .ok p ∧ l.word text = .ok t ∧ Hides ['/'] pattern := by
  rw [replacement_eq_ok_iff]
  constructor
  · rintro ⟨hpattern, htext, -⟩
    have hfirst := String.ofList_injective (hp.symm.trans (raw_of_word hpattern))
    have hsecond := String.ofList_injective (ht.symm.trans (raw_of_word htext))
    rw [← hfirst] at hpattern
    rw [← hsecond] at htext
    refine ⟨hpattern, htext, ?_⟩
    cases hsplit : splitUnescaped '/' [] (pattern ++ '/' :: text) with
    | none =>
      rw [hsplit] at hfirst
      simp at hfirst
    | some pieces =>
      rw [hsplit] at hfirst hsecond
      obtain ⟨front, hfront, -, hhides⟩ :=
        (splitUnescaped_eq_some_iff (by decide)).1 hsplit
      rw [Option.getD_some] at hfirst
      obtain rfl : front = pattern := by simpa [hfirst] using hfront.symm
      exact hhides
  · rintro ⟨hpattern, htext, hhides⟩
    have hsplit : splitUnescaped '/' [] (pattern ++ '/' :: text) = some (pattern, text) :=
      (splitUnescaped_eq_some_iff (by decide)).2 ⟨pattern, by simp, rfl, hhides⟩
    rw [hsplit]
    exact ⟨hpattern, htext, rfl⟩

theorem parameterOp?_slash {rest : List Char} (h : rest.head? ≠ some '/') :
    l.parameterOp? ('/' :: rest) = some (parameterOp?.replacement l rest false) := by
  unfold parameterOp?
  split <;> simp_all

/-- **A replacement** is written with one slash, or with two to replace all. -/
theorem parameterOp?_replace_iff {pattern text : List Char} {p t : Word} {all : Bool}
    (hpattern : pattern ≠ []) (hp : p.raw = String.ofList pattern)
    (ht : t.raw = String.ofList text) :
    l.parameterOp? ('/' :: ((if all then ['/'] else []) ++ (pattern ++ '/' :: text))) =
        some (.ok (.replace p t all)) ↔
      l.word pattern = .ok p ∧ l.word text = .ok t ∧ Hides ['/'] pattern := by
  cases all with
  | true => exact (Option.some_inj).trans (replacement_operands_iff hp ht)
  | false =>
    obtain ⟨c, rest, rfl⟩ := List.exists_cons_of_ne_nil hpattern
    by_cases hc : c = '/'
    · -- the slash that the pattern starts with is read as the second of two
      subst hc
      refine iff_of_false (fun h => ?_) fun h => ?_
      · exact absurd (replacement_eq_ok_iff.1 (Option.some.inj h)).2.2 (by simp)
      · cases h.2.2 with
        | plain hmark => simp at hmark
    · have hslash := @parameterOp?_slash l (c :: rest ++ '/' :: text) (by simpa using hc)
      exact (iff_of_eq (congrArg (· = _) hslash)).trans
        (Option.some_inj.trans (replacement_operands_iff hp ht))

theorem parameterOp?_colon {rest : List Char} (h : rest.head?.any joinsColon = false) :
    l.parameterOp? (':' :: rest) =
      some (.ok (.substring (String.ofList (rest.takeWhile (· != ':')))
        ((rest.dropWhile (· != ':')).tail?.map String.ofList))) := by
  unfold parameterOp?
  split
  case h_15 =>
    next rest' _ _ _ _ heq =>
    obtain rfl := (List.cons.inj heq).2
    cases rest.dropWhile (· != ':') <;> rfl
  all_goals simp_all [joinsColon]

/-- **A substring** is written with its offset and its length if and only if no colon is in the
offset. -/
theorem parameterOp?_substring_iff {offset length : List Char} :
    l.parameterOp? (':' :: (offset ++ ':' :: length)) =
        some (.ok (.substring (String.ofList offset) (some (String.ofList length)))) ↔
      ':' ∉ offset ∧ offset.head?.any joinsColon = false := by
  by_cases hhead : offset.head?.any joinsColon = true
  · refine iff_of_false (fun h => ?_) fun h => by simp [h.2] at hhead
    cases offset with
    | nil => cases hhead
    | cons c offset =>
      have hmark : ((c = '-' ∨ c = '=') ∨ c = '+') ∨ c = '?' := by
        simpa [joinsColon] using hhead
      obtain ((rfl | rfl) | rfl) | rfl := hmark <;>
        · simp only [List.cons_append, parameterOp?, Option.some_inj] at h
          cases hword : l.word (offset ++ ':' :: length) <;> simp [hword, Except.map] at h
  · have hrest : (offset ++ ':' :: length).head?.any joinsColon = false := by
      cases offset with
      | nil => rfl
      | cons c offset => simpa using hhead
    rw [parameterOp?_colon hrest]
    constructor
    · intro h
      simp only [Option.some_inj, Except.ok.injEq, ParamOp.substring.injEq] at h
      have hoffset : (offset ++ ':' :: length).takeWhile (· != ':') = offset :=
        String.ofList_injective h.1
      refine ⟨fun hcolon => ?_, by simpa using hhead⟩
      have hall := List.all_takeWhile (p := (· != ':')) (l := offset ++ ':' :: length)
      rw [hoffset] at hall
      simpa using List.all_eq_true.1 hall ':' hcolon
    · rintro ⟨hcolon, -⟩
      have hall : ∀ c ∈ offset, (c != ':') = true := fun c hc =>
        bne_iff_ne.2 fun heq => hcolon (heq ▸ hc)
      rw [List.takeWhile_append_of_pos hall, List.dropWhile_append_of_pos hall]
      simp

end Level

/-! ## Words -/

namespace Word

/-- A parameter between braces. -/
def braced (content : String) : String := "$\x7b" ++ content ++ "\x7d"

/-- The word that a text spells one level further in. -/
def parseNested (text : String) : Except SyntaxError Word :=
  (Level.ofDepth (maxNesting - 1)).word text.toList

theorem raw_of_parse {text : String} {w : Word} (h : parse text = .ok w) : w.raw = text := by
  simpa using Level.raw_of_word h

/-- **A braced parameter is read** from what stands between its braces, if that balances. -/
theorem parse_braced_part_iff {content : String} {part : Part} :
    parse (braced content) = .ok ⟨[part], braced content⟩ ↔
      Delimiter.Spans (some .brace) content.toList ∧
        (Level.ofDepth (maxNesting - 1)).bracedParameter content.toList = .ok part := by
  have hchars : (braced content).toList = '$' :: '\x7b' :: (content.toList ++ ['\x7d']) := by
    simp [braced]
  have hparts : parse (braced content) = .ok ⟨[part], braced content⟩ ↔
      (Level.ofDepth (maxNesting - 1)).partsOf .unquoted
        ('$' :: '\x7b' :: (content.toList ++ ['\x7d'])) = .ok [part] := by
    rw [parse_eq, hchars]
    cases (Level.ofDepth (maxNesting - 1)).partsOf .unquoted
      ('$' :: '\x7b' :: (content.toList ++ ['\x7d'])) <;> simp [Except.map]
  rw [hparts, Level.partsOf_braces_eq_ok_iff]

/-- **A parameter with an operation** is read from what stands between its braces. -/
theorem parse_braced_iff {name content : String} {op : ParamOp} {c : Char} {rest : List Char}
    (hname : IsParameterName name.toList) (hc : isSeparator c = true)
    (hcontent : content.toList = name.toList ++ c :: rest) :
    parse (braced content) = .ok ⟨[.parameter name (some op)], braced content⟩ ↔
      Delimiter.Spans (some .brace) rest ∧
        (Level.ofDepth (maxNesting - 1)).parameterOp? (c :: rest) = some (.ok op) := by
  have hseparator : Delimiter.Spans (some .brace) (c :: rest) ↔
      Delimiter.Spans (some .brace) rest := by
    have hmove : Delimiter.move (some .brace) c rest.head? = .pass := by
      obtain rfl | rfl := eq_of_isSeparator hc <;> rfl
    exact ⟨fun h => h.of_pass hmove, .pass hmove⟩
  have hparen : (c :: rest).head? ≠ some '(' := by
    obtain rfl | rfl := eq_of_isSeparator hc <;> simp
  rw [parse_braced_part_iff, hcontent, hname.spans_append_iff hparen, hseparator,
    hname.bracedParameter_append hc, String.ofList_toList]
  refine and_congr_right fun _ => ?_
  cases (Level.ofDepth (maxNesting - 1)).parameterOp? (c :: rest) with
  | none => simp
  | some op' => cases op' <;> simp [Except.map]

/-- **The operands of a braced parameter.** Let two texts spell words. A replacement written with
them has these words as operands if and only if they are read one level further in, what is in them
balances, and no slash stands in the first except behind a backslash; a quoted slash, or one in a
substitution, does not do. A substring has the offset and the length it is written with if and only
if they balance, no colon at all stands in the offset, and the offset does not make another
operation of the colon. -/
theorem parse_bracedOperands {name : String} (hname : IsParameterName name.toList) :
    (∀ (pattern text : String) (p t : Word) (all : Bool), pattern ≠ "" →
      parse pattern = .ok p → parse text = .ok t →
        let content := name ++ (if all then "//" else "/") ++ pattern ++ "/" ++ text
        (parse (braced content) =
            .ok ⟨[.parameter name (some (.replace p t all))], braced content⟩ ↔
          parseNested pattern = .ok p ∧ parseNested text = .ok t ∧
            Delimiter.Spans (some .brace) (pattern ++ "/" ++ text).toList ∧
            Hides ['/'] pattern.toList) ∧
        (Delimiter.Spans (some .brace) pattern.toList → Delimiter.Spans (some .brace) text.toList →
          Delimiter.Spans (some .brace) (pattern ++ "/" ++ text).toList)) ∧
      ∀ offset length : String,
        let content := name ++ ":" ++ offset ++ ":" ++ length
        (parse (braced content) =
            .ok ⟨[.parameter name (some (.substring offset (some length)))], braced content⟩ ↔
          Delimiter.Spans (some .brace) (offset ++ ":" ++ length).toList ∧
            ':' ∉ offset.toList ∧ offset.toList.head?.any joinsColon = false) := by
  refine ⟨fun pattern text p t all hpattern hp ht => ?_, fun offset length => ?_⟩
  · refine ⟨?_, fun hfirst hsecond => ?_⟩
    · have hcontent : (name ++ (if all then "//" else "/") ++ pattern ++ "/" ++ text).toList =
          name.toList ++ '/' :: ((if all then ['/'] else []) ++
            (pattern.toList ++ '/' :: text.toList)) := by
        cases all <;> simp
      have hspans : Delimiter.Spans (some .brace)
          ((if all then ['/'] else []) ++ (pattern.toList ++ '/' :: text.toList)) ↔
            Delimiter.Spans (some .brace) (pattern ++ "/" ++ text).toList := by
        have hjoined : (pattern ++ "/" ++ text).toList = pattern.toList ++ '/' :: text.toList := by
          simp
        rw [hjoined]
        cases all with
        | true => exact ⟨fun h => h.of_pass rfl, .pass rfl⟩
        | false => rfl
      have hempty : pattern.toList ≠ [] := mt String.toList_eq_nil_iff.1 hpattern
      have hp' : p.raw = String.ofList pattern.toList := by
        rw [raw_of_parse hp, String.ofList_toList]
      have ht' : t.raw = String.ofList text.toList := by
        rw [raw_of_parse ht, String.ofList_toList]
      rw [parse_braced_iff hname rfl hcontent, hspans,
        Level.parameterOp?_replace_iff hempty hp' ht']
      exact ⟨fun ⟨hbalanced, hpattern, htext, hhides⟩ => ⟨hpattern, htext, hbalanced, hhides⟩,
        fun ⟨hpattern, htext, hbalanced, hhides⟩ => ⟨hbalanced, hpattern, htext, hhides⟩⟩
    · have hslash : Delimiter.Spans (some .brace) ('/' :: text.toList) := .pass rfl hsecond
      simpa using hfirst.append hslash (by simp) (by simp) (by simp)
  · intro content
    have hcontent : content.toList =
        name.toList ++ ':' :: (offset.toList ++ ':' :: length.toList) := by
      simp [content]
    rw [parse_braced_iff hname rfl hcontent]
    have h := @Level.parameterOp?_substring_iff (.ofDepth (maxNesting - 1)) offset.toList
      length.toList
    rw [String.ofList_toList, String.ofList_toList] at h
    rw [h]
    simp

theorem parseNested_eq_assemble (text : String) : parseNested text =
    ((Level.ofDepth (maxNesting - 2)).assemble [] [] (Piece.ofText .unquoted text.toList)).map
      (⟨·, text⟩) := by
  have hword : parseNested text = ((Level.ofDepth (maxNesting - 2)).partsOf .unquoted
      text.toList).map (⟨·, String.ofList text.toList⟩) := rfl
  rw [hword, String.ofList_toList, Level.partsOf_eq_assemble]

/-- A pattern with a slash behind a backslash, a text with a quoted one, and an offset without a
colon. -/
theorem parse_bracedOperands_escaped :
    let pattern := "a\\/'b'"
    let text := "'c/d'"
    ∃ p t, parse pattern = .ok p ∧ parse text = .ok t ∧
      parse (braced "x//a\\/'b'/'c/d'") =
        .ok ⟨[.parameter "x" (some (.replace p t true))], braced "x//a\\/'b'/'c/d'"⟩ ∧
      parse (braced "x:$((1+2)):1") =
        .ok ⟨[.parameter "x" (some (.substring "$((1+2))" (some "1")))],
          braced "x:$((1+2)):1"⟩ := by
  intro pattern text
  have hname : IsParameterName "x".toList := .identifier (by decide) (by simp)
  have hpattern : Piece.ofText .unquoted pattern.toList =
      [.plain 'a', .part (.escaped '/'), .part (.quoted ['b'])] := by cbv
  have htext : Piece.ofText .unquoted text.toList = [.part (.quoted ['c', '/', 'd'])] := by cbv
  have hp : parse pattern = .ok ⟨[.literal "a", .escaped "/", .quoted "b"], pattern⟩ := by
    rw [AnsiQuotation.parse_eq_assemble, hpattern]
    rfl
  have ht : parse text = .ok ⟨[.quoted "c/d"], text⟩ := by
    rw [AnsiQuotation.parse_eq_assemble, htext]
    rfl
  have hp' : parseNested pattern = .ok ⟨[.literal "a", .escaped "/", .quoted "b"], pattern⟩ := by
    rw [parseNested_eq_assemble, hpattern]
    rfl
  have ht' : parseNested text = .ok ⟨[.quoted "c/d"], text⟩ := by
    rw [parseNested_eq_assemble, htext]
    rfl
  have hhides : Hides ['/'] pattern.toList := by
    have hchars : pattern.toList = ['a', '\\', '/', '\'', 'b', '\''] := by simp [pattern]
    rw [hchars]
    exact .plain (by decide) (by decide) <| .escaped <| .plain (by decide) (by decide) <|
      .plain (by decide) (by decide) <| .plain (by decide) (by decide) .nil
  have hfirst : Delimiter.close .brace ((pattern ++ "/" ++ text).toList ++ ['\x7d']) =
      .ok ((pattern ++ "/" ++ text).toList, []) := by cbv
  have hsecond : Delimiter.close .brace (("$((1+2))" ++ ":" ++ "1").toList ++ ['\x7d']) =
      .ok (("$((1+2))" ++ ":" ++ "1").toList, []) := by cbv
  have hbalanced := (Delimiter.close_eq_ok_iff.1 hfirst).2
  have hbounds := (Delimiter.close_eq_ok_iff.1 hsecond).2
  have hoperands := parse_bracedOperands hname
  have hreplace := hoperands.1 pattern text _ _ true (by simp [pattern]) hp ht
  exact ⟨_, _, hp, ht, hreplace.1.2 ⟨hp', ht', hbalanced, hhides⟩,
    (hoperands.2 "$((1+2))" "1").2 ⟨hbounds, by simp, rfl⟩⟩

/-- **Mistaken for separators:** a quoted slash and a colon in a substitution. Both texts
balance. -/
theorem parse_bracedOperands_mistaken :
    (parse "'/'" = .ok ⟨[.quoted "/"], "'/'"⟩ ∧ parse "b" = .ok ⟨[.literal "b"], "b"⟩ ∧
      parseNested "'/'" = .ok ⟨[.quoted "/"], "'/'"⟩ ∧
      parseNested "b" = .ok ⟨[.literal "b"], "b"⟩ ∧
      Delimiter.Spans (some .brace) "'/'/b".toList ∧
      parse (braced "x/'/'/b") = .error (.lexical (.unclosed .single) 1)) ∧
    Delimiter.Spans (some .brace) "$((1?2:3)):1".toList ∧
      parse (braced "x:$((1?2:3)):1") =
        .ok ⟨[.parameter "x" (some (.substring "$((1?2" (some "3)):1")))],
          braced "x:$((1?2:3)):1"⟩ := by
  have hname : IsParameterName ['x'] := .identifier (by decide) (by simp)
  have hquoted : Piece.ofText .unquoted "'/'".toList = [.part (.quoted ['/'])] := by cbv
  have hplain : Piece.ofText .unquoted "b".toList = [.plain 'b'] := by cbv
  have hfirst : Delimiter.close .brace ("x/'/'/b".toList ++ ['\x7d']) =
      .ok (['x'] ++ '/' :: "'/'/b".toList, []) := by cbv
  have hbalanced : Delimiter.close .brace ("'/'/b".toList ++ ['\x7d']) =
      .ok ("'/'/b".toList, []) := by cbv
  have hsecond : Delimiter.close .brace ("$((1?2:3)):1".toList ++ ['\x7d']) =
      .ok ("$((1?2:3)):1".toList, []) := by cbv
  refine ⟨⟨?_, ?_, ?_, ?_, (Delimiter.close_eq_ok_iff.1 hbalanced).2, ?_⟩,
    (Delimiter.close_eq_ok_iff.1 hsecond).2, ?_⟩
  · rw [AnsiQuotation.parse_eq_assemble, hquoted]
    rfl
  · rw [AnsiQuotation.parse_eq_assemble, hplain]
    rfl
  · rw [parseNested_eq_assemble, hquoted]
    rfl
  · rw [parseNested_eq_assemble, hplain]
    rfl
  · -- the pattern is the quote in front of the slash
    have hsplit : splitUnescaped '/' [] "'/'/b".toList = some (['\''], "'/b".toList) := by cbv
    have hquote : Piece.ofText .unquoted ['\''] = [.part (.unclosed .single)] := by cbv
    have hword : (Level.ofDepth (maxNesting - 1)).word ['\''] =
        .error (.lexical (.unclosed .single) 1) := by
      have hpieces := parseNested_eq_assemble (String.ofList ['\''])
      rw [parseNested, String.toList_ofList, hquote] at hpieces
      exact hpieces
    have hchars : (braced "x/'/'/b").toList = '$' :: '\x7b' :: ("x/'/'/b".toList ++ ['\x7d']) := by
      simp [braced]
    rw [parse_eq, hchars, Level.partsOf_braces, hfirst]
    dsimp only
    rw [hname.bracedParameter_append rfl, Level.parameterOp?_slash (by simp)]
    dsimp only
    rw [Level.parameterOp?.replacement, hsplit, Option.getD_some]
    dsimp only
    rw [hword]
    rfl
  · have hcontent : "x:$((1?2:3)):1".toList = "x".toList ++ ':' :: "$((1?2:3)):1".toList := by simp
    rw [parse_braced_iff (by simpa using hname) rfl hcontent]
    refine ⟨(Delimiter.close_eq_ok_iff.1 hsecond).2, ?_⟩
    rw [Level.parameterOp?_colon (by simp [joinsColon])]
    simp

end Word

end VirtualShell
