import VirtualShell.Syntax.WordParser

/-!
# What is read from a text

The pieces of a word are read from the text of the word, and what stands inside them from texts
inside this text. So what is known of a text and kept by the texts inside it is known wherever a
piece is read, and it decides what the pieces can hold, for which reasons a text can be refused, and
whether another level reads the same.

* `Part.Only` — all bounds and all scripts in a piece are of some kind.
* `TextRule` — what is known of a text, and what follows from it.
* `Level.Agree` — where one level reads a text that the rule is about, another one reads the same.
* **`Level.Agree.partsOf`** — then the levels above them read the same words.
-/

namespace VirtualShell

/-! ## What words hold -/

mutual

/-- All bounds in a piece of a word are of one kind, and all scripts in it of another. The scripts
are those of its own substitutions: bounds are text. -/
def Part.Only (bound : String → Prop) (body : Script → Prop) : Part → Prop
  | .literal _ | .quoted _ | .escaped _ | .tilde _ | .parameter _ none => True
  | .doubleQuoted parts => Part.AllOnly bound body parts
  | .parameter _ (some op) => ParamOp.Only bound body op
  | .substitution script _ => body script
  | .arithmetic expression => Word.Only bound body expression
termination_by structural part => part

/-- All bounds and all scripts in a word are of some kind. -/
def Word.Only (bound : String → Prop) (body : Script → Prop) : Word → Prop
  | ⟨parts, _⟩ => Part.AllOnly bound body parts
termination_by structural word => word

/-- All bounds and all scripts in an operation are of some kind. -/
def ParamOp.Only (bound : String → Prop) (body : Script → Prop) : ParamOp → Prop
  | .default word _ | .assign word _ | .alternative word _ | .error word _ | .removePrefix word _
  | .removeSuffix word _ => Word.Only bound body word
  | .length => True
  | .replace pattern replacement _ =>
    Word.Only bound body pattern ∧ Word.Only bound body replacement
  | .substring offset length => bound offset ∧ ∀ text ∈ length, bound text
termination_by structural op => op

/-- All bounds and all scripts in some pieces are of some kind. -/
def Part.AllOnly (bound : String → Prop) (body : Script → Prop) : List Part → Prop
  | [] => True
  | part :: parts => Part.Only bound body part ∧ Part.AllOnly bound body parts
termination_by structural parts => parts

end

theorem Part.allOnly_iff {bound : String → Prop} {body : Script → Prop} {parts : List Part} :
    Part.AllOnly bound body parts ↔ ∀ part ∈ parts, part.Only bound body := by
  induction parts with
  | nil => simp [Part.AllOnly]
  | cons part parts ih => simp [Part.AllOnly, ih]

mutual

/-- A piece holds only what anything may be. -/
theorem Part.only_of_forall {bound : String → Prop} {body : Script → Prop}
    (hbound : ∀ text, bound text) (hbody : ∀ script, body script) : ∀ part : Part, part.Only bound body
  | .literal _ | .quoted _ | .escaped _ | .tilde _ | .parameter _ none => trivial
  | .doubleQuoted parts => Part.allOnly_of_forall hbound hbody parts
  | .parameter _ (some op) => ParamOp.only_of_forall hbound hbody op
  | .substitution script _ => hbody script
  | .arithmetic expression => Word.only_of_forall hbound hbody expression

theorem Word.only_of_forall {bound : String → Prop} {body : Script → Prop}
    (hbound : ∀ text, bound text) (hbody : ∀ script, body script) : ∀ word : Word, word.Only bound body
  | ⟨parts, _⟩ => Part.allOnly_of_forall hbound hbody parts

theorem ParamOp.only_of_forall {bound : String → Prop} {body : Script → Prop}
    (hbound : ∀ text, bound text) (hbody : ∀ script, body script) :
    ∀ op : ParamOp, op.Only bound body
  | .default word _ | .assign word _ | .alternative word _ | .error word _ | .removePrefix word _
  | .removeSuffix word _ => Word.only_of_forall hbound hbody word
  | .length => trivial
  | .replace pattern replacement _ =>
    ⟨Word.only_of_forall hbound hbody pattern, Word.only_of_forall hbound hbody replacement⟩
  | .substring offset _ => ⟨hbound offset, fun text _ => hbound text⟩

theorem Part.allOnly_of_forall {bound : String → Prop} {body : Script → Prop}
    (hbound : ∀ text, bound text) (hbody : ∀ script, body script) :
    ∀ parts : List Part, Part.AllOnly bound body parts
  | [] => trivial
  | part :: parts =>
    ⟨Part.only_of_forall hbound hbody part, Part.allOnly_of_forall hbound hbody parts⟩

end

/-! ## Two readings of a text -/

/-- **A reading that another one repeats.** What is refused is refused for some reasons only; what
is read is of some kind, and the other reading gives it too. -/
def Repeats {α : Type} (refused : SyntaxError → Prop) (good : α → Prop)
    (first second : Except SyntaxError α) : Prop :=
  match first with
  | .error e => refused e
  | .ok a => good a ∧ second = .ok a

namespace Repeats

variable {α β : Type} {refused : SyntaxError → Prop} {good : α → Prop} {good' : β → Prop}
  {x y : Except SyntaxError α}

theorem error {e : SyntaxError} (h : refused e) : Repeats refused good (.error e) y := h

theorem ok {a : α} (h : good a) : Repeats refused good (.ok a) (.ok a) := ⟨h, rfl⟩

theorem bind {f g : α → Except SyntaxError β} (hxy : Repeats refused good x y)
    (hfg : ∀ a, good a → Repeats refused good' (f a) (g a)) :
    Repeats refused good' (x >>= f) (y >>= g) := by
  cases x with
  | error e => exact hxy
  | ok a =>
    obtain ⟨ha, rfl⟩ := hxy
    exact hfg a ha

theorem map {f : α → β} (hxy : Repeats refused good x y) (hf : ∀ a, good a → good' (f a)) :
    Repeats refused good' (x.map f) (y.map f) := by
  cases x with
  | error e => exact hxy
  | ok a =>
    obtain ⟨ha, rfl⟩ := hxy
    exact ok (hf a ha)

theorem mono {refused' : SyntaxError → Prop} (hxy : Repeats refused good x y)
    (hrefused : ∀ e, refused e → refused' e) : Repeats refused' good x y := by
  cases x with
  | error e => exact hrefused e hxy
  | ok a => exact hxy

/-- A reading repeats itself when nothing is asked of it. -/
theorem refl (hrefused : ∀ e, refused e) (x : Except SyntaxError α) :
    Repeats refused (fun _ => True) x x := by
  cases x with
  | error e => exact error (hrefused e)
  | ok a => exact ok trivial

end Repeats

/-! ## Rules -/

/-- **What is known of texts**, and what it says of the bounds and the scripts that are read from
them, and of the reasons for which they are refused. -/
structure TextRule where
  /-- The texts that the rule is about. -/
  fine : List Char → Prop
  bound : String → Prop
  body : Script → Prop
  refused : SyntaxError → Prop
  fine_inner {text inner : List Char} : inner <:+: text → fine text → fine inner
  fine_backticks {inner : List Char} : fine ('`' :: inner) → fine (unescapeBackticks inner)
  bound_inner {text inner : List Char} : inner <:+: text → fine (':' :: text) →
    bound (String.ofList inner)
  body_parens {inner : List Char} (script : Script) : fine ('$' :: '(' :: inner) → body script
  body_backticks {inner : List Char} (script : Script) : fine ('`' :: inner) → body script
  refused_lexical (cause : LexicalCause) (line : Nat) : refused (.lexical cause line)

namespace TextRule

variable (rule : TextRule)

/-- The pieces hold what the rule allows. -/
abbrev Parts (parts : List Part) : Prop := Part.AllOnly rule.bound rule.body parts

/-- One reading under the rule repeats another one. -/
abbrev Repeats {α : Type} (good : α → Prop) (first second : Except SyntaxError α) : Prop :=
  VirtualShell.Repeats rule.refused good first second

end TextRule

/-- **Two levels that read the same** of the texts that a rule is about. -/
structure Level.Agree (rule : TextRule) (l l' : Level) : Prop where
  parts (quoting : Quoting) {text : List Char} :
    rule.fine text → rule.Repeats rule.Parts (l.parts quoting text) (l'.parts quoting text)
  script {text : List Char} : rule.fine text →
    rule.Repeats (fun _ => True) (l.script (String.ofList text)) (l'.script (String.ofList text))

/-! ## What stands inside a construct -/

theorem Delimiter.scan_append {stop : Char → Bool} {stack : List Delimiter} {read text : List Char}
    {read' rest : List Char} (h : scan stop stack read text = .ok (read', rest)) :
    read'.reverse ++ rest = read.reverse ++ text := by
  fun_induction scan stop stack read text <;> simp_all

theorem Delimiter.close_append {d : Delimiter} {text inner rest : List Char}
    (h : close d text = .ok (inner, rest)) : ∃ closer, inner ++ closer ++ rest = text := by
  unfold close at h
  split at h
  · next read r hscan =>
    simp only [Except.ok.injEq, Prod.mk.injEq] at h
    obtain ⟨rfl, rfl⟩ := h
    have happend := scan_append hscan
    refine ⟨(read.take 1).reverse, ?_⟩
    rw [← List.drop_one, ← List.reverse_append, List.take_append_drop]
    simpa using happend
  · cases h

theorem Delimiter.close_inner {d : Delimiter} {text inner rest : List Char}
    (h : close d text = .ok (inner, rest)) : inner <+: text := by
  obtain ⟨closer, rfl⟩ := close_append h
  exact ⟨closer ++ rest, by simp⟩

theorem Delimiter.close_suffix {d : Delimiter} {text inner rest : List Char}
    (h : close d text = .ok (inner, rest)) : rest <:+ text := by
  obtain ⟨closer, rfl⟩ := close_append h
  exact ⟨inner ++ closer, rfl⟩

theorem takeName_suffix {text name rest : List Char} (h : takeName text = some (name, rest)) :
    rest <:+ text := by
  unfold takeName at h
  split at h
  · next c tail =>
    split at h
    · cases h
      exact (List.dropWhile_suffix _).trans (List.suffix_cons _ _)
    · cases h
  · cases h

theorem readAssignment?_suffix {text name value : String} {append : Bool}
    (h : readAssignment? text = some (name, append, value)) : value.toList <:+ text.toList := by
  unfold readAssignment? at h
  split at h
  · next hname =>
    cases h
    simpa using (List.suffix_cons _ _).trans (takeName_suffix hname)
  · next name rest hname =>
    cases h
    have hrest : rest <:+ '+' :: '=' :: rest := ⟨['+', '='], rfl⟩
    simpa using hrest.trans (takeName_suffix hname)
  · cases h

theorem takeParameter_suffix {text name rest : List Char}
    (h : takeParameter text = some (name, rest)) : rest <:+ text := by
  unfold takeParameter at h
  split at h
  · next found hname =>
    cases h
    exact takeName_suffix hname
  · split at h
    · split at h
      · cases h
        exact List.suffix_cons _ _
      · cases h
    · cases h

theorem takeBracedParameter_suffix {text name rest : List Char}
    (h : takeBracedParameter text = some (name, rest)) : rest <:+ text := by
  unfold takeBracedParameter at h
  split at h
  · next found hname =>
    cases h
    exact takeName_suffix hname
  · split at h
    · split at h
      · cases h
        exact (List.dropWhile_suffix _).trans (List.suffix_cons _ _)
      · split at h
        · cases h
          exact List.suffix_cons _ _
        · cases h
    · cases h

theorem takeTilde_suffix {text rest : List Char} {user : Option String}
    (h : takeTilde text = some (user, rest)) : rest <:+ text := by
  unfold takeTilde at h
  split at h
  · dsimp only at h
    split at h
    · cases h
      exact (List.dropWhile_suffix _).trans (List.suffix_cons _ _)
    · cases h
  · cases h

theorem takeAnsiQuoted_suffix {read text value rest : List Char}
    (h : takeAnsiQuoted read text = some (value, rest)) : rest <:+ text := by
  fun_induction takeAnsiQuoted read text with
  | case1 => cases h
  | case2 read rest =>
    cases h
    exact List.suffix_cons _ _
  | case3 read c rest d hescape ih => exact (ih h).trans ⟨['\\', c], rfl⟩
  | case4 read c rest hescape ih => exact (ih h).trans (List.suffix_cons _ _)
  | case5 read c rest _ _ ih => exact (ih h).trans (List.suffix_cons _ _)

theorem Text.strip_infix (text : List Char) : strip text <:+: text := by
  have hfront := (text.dropWhile isBlank).reverse.dropWhile_suffix isBlank
  have hstrip := List.reverse_prefix.2 hfront
  rw [List.reverse_reverse] at hstrip
  exact hstrip.isInfix.trans (List.dropWhile_suffix _).isInfix

theorem splitUnescaped_append {sep : Char} {read text before after : List Char}
    (h : splitUnescaped sep read text = some (before, after)) :
    before ++ sep :: after = read.reverse ++ text := by
  fun_induction splitUnescaped sep read text <;> simp_all

theorem unescapeBackticks_sublist (text : List Char) : (unescapeBackticks text).Sublist text := by
  fun_induction unescapeBackticks text with
  | case1 c rest _ ih => exact (ih.cons_cons c).cons _
  | case2 c rest _ ih => exact ih.cons_cons _
  | case3 c rest _ ih => exact ih.cons_cons c
  | case4 => exact List.Sublist.refl _

theorem Level.arithmeticText?_inner {inner expression : List Char}
    (h : arithmeticText? inner = some expression) : expression <:+: inner := by
  unfold arithmeticText? at h
  split at h
  · split at h
    · next hclose =>
      cases h
      exact (Delimiter.close_inner hclose).isInfix.trans (List.suffix_cons _ _).isInfix
    · cases h
  · cases h

/-! ## The level above -/

namespace Level.Agree

variable {rule : TextRule} {l l' : Level} (h : Level.Agree rule l l')
include h

theorem word {text : List Char} (htext : rule.fine text) :
    rule.Repeats (Word.Only rule.bound rule.body) (l.word text) (l'.word text) :=
  (h.parts .unquoted htext).map fun _ hparts => hparts

theorem expandedText {text : List Char} (htext : rule.fine text) :
    rule.Repeats (Word.Only rule.bound rule.body) (l.expandedText text) (l'.expandedText text) :=
  (h.parts .hereDocument htext).map fun _ hparts => ⟨hparts, trivial⟩

/-- A pattern and its replacement are pieces of one text. -/
theorem replacement {text : List Char} (htext : rule.fine text) (all : Bool) :
    rule.Repeats (ParamOp.Only rule.bound rule.body) (parameterOp?.replacement l text all)
      (parameterOp?.replacement l' text all) := by
  unfold parameterOp?.replacement
  have hpieces : let pieces := (splitUnescaped '/' [] text).getD (text, [])
      pieces.1 <:+: text ∧ pieces.2 <:+: text := by
    cases hsplit : splitUnescaped '/' [] text with
    | none => exact ⟨List.infix_refl text, List.nil_infix⟩
    | some pieces =>
      have happend := splitUnescaped_append hsplit
      rw [List.reverse_nil, List.nil_append] at happend
      rw [← happend]
      exact ⟨(List.prefix_append _ _).isInfix,
        ((List.suffix_cons _ _).trans (List.suffix_append _ _)).isInfix⟩
  generalize (splitUnescaped '/' [] text).getD (text, []) = pieces at hpieces
  obtain ⟨before, after⟩ := pieces
  refine (h.word (rule.fine_inner hpieces.1 htext)).bind fun pattern hpattern => ?_
  refine (h.word (rule.fine_inner hpieces.2 htext)).bind fun new hnew => ?_
  exact .ok ⟨hpattern, hnew⟩

/-- An operation on the value of a parameter: its words and bounds come after a character. -/
theorem parameterOp {text : List Char} (htext : rule.fine text) :
    (l.parameterOp? text = none ∧ l'.parameterOp? text = none) ∨
      ∃ op op', l.parameterOp? text = some op ∧ l'.parameterOp? text = some op' ∧
        rule.Repeats (ParamOp.Only rule.bound rule.body) op op' := by
  have hword {rest : List Char} {make : Word → ParamOp} (hrest : rest <:+ text)
      (hmake : ∀ word, word.Only rule.bound rule.body → (make word).Only rule.bound rule.body) :
      rule.Repeats (ParamOp.Only rule.bound rule.body) ((l.word rest).map make)
        ((l'.word rest).map make) :=
    (h.word (rule.fine_inner hrest.isInfix htext)).map hmake
  unfold parameterOp?
  split
  -- The operations on one word are alike; replacements and substrings are left.
  all_goals try exact .inr ⟨_, _, rfl, rfl, hword (List.suffix_cons _ _) fun _ hword => hword⟩
  all_goals try exact .inr ⟨_, _, rfl, rfl, hword ⟨[_, _], rfl⟩ fun _ hword => hword⟩
  · next rest =>
    have hrest : rest <:+ '/' :: '/' :: rest := ⟨['/', '/'], rfl⟩
    exact .inr ⟨_, _, rfl, rfl, h.replacement (rule.fine_inner hrest.isInfix htext) true⟩
  · next rest _ =>
    have hrest : rest <:+ '/' :: rest := List.suffix_cons _ _
    exact .inr ⟨_, _, rfl, rfl, h.replacement (rule.fine_inner hrest.isInfix htext) false⟩
  · next rest _ _ _ _ =>
    have hoffset := rule.bound_inner (rest.takeWhile_prefix (· != ':')).isInfix htext
    have hdrop : rest.dropWhile (· != ':') <:+ rest := List.dropWhile_suffix _
    dsimp only
    split
    · exact .inr ⟨_, _, rfl, rfl, .ok ⟨hoffset, by simp⟩⟩
    · next length hlength =>
      rw [hlength] at hdrop
      have hbound := rule.bound_inner ((List.suffix_cons _ _).trans hdrop).isInfix htext
      exact .inr ⟨_, _, rfl, rfl, .ok ⟨hoffset, fun _ hmem => Option.some.inj hmem ▸ hbound⟩⟩
  · exact .inl ⟨rfl, rfl⟩

theorem bracedParameter {content : List Char} (hcontent : rule.fine content) :
    rule.Repeats (Part.Only rule.bound rule.body) (l.bracedParameter content)
      (l'.bracedParameter content) := by
  unfold Level.bracedParameter
  extract_lets bad measured
  clear_value measured
  have hbad : rule.refused bad := rule.refused_lexical _ _
  cases measured with
  | some name => exact .ok trivial
  | none =>
    dsimp only
    split
    · exact .error hbad
    · exact .ok trivial
    · next name rest _ htake =>
      have hrest := rule.fine_inner (takeBracedParameter_suffix htake).isInfix hcontent
      rcases h.parameterOp hrest with ⟨hl, hl'⟩ | ⟨op, op', hl, hl', hop⟩
      · rw [hl, hl']
        exact .error hbad
      · rw [hl, hl']
        exact hop.map fun _ hop => hop

/-- What a dollar sign starts: scripts, arithmetic and operations stand inside delimiters. -/
theorem dollarPart (quoting : Quoting) {text : List Char} (htext : rule.fine ('$' :: text)) :
    rule.Repeats (fun found => ∀ part ∈ found, part.1.Only rule.bound rule.body ∧
      part.2.1 <:+ text) (l.dollarPart? quoting text) (l'.dollarPart? quoting text) := by
  unfold dollarPart?
  split
  · next text =>
    split
    · exact .error (rule.refused_lexical _ _)
    · next inner after hclose =>
      have hafter := (Delimiter.close_suffix hclose).trans (List.suffix_cons '(' _)
      have hparens : rule.fine ('$' :: '(' :: inner) := by
        have hfront : '$' :: '(' :: inner <+: '$' :: '(' :: text := by
          simpa using Delimiter.close_inner hclose
        exact rule.fine_inner hfront.isInfix htext
      have hinner := rule.fine_inner (List.suffix_append ['$', '('] inner).isInfix hparens
      dsimp only
      split
      · next expression hexpression =>
        have hexpression := rule.fine_inner (arithmeticText?_inner hexpression) hinner
        refine (h.expandedText hexpression).bind fun word hword => .ok ?_
        rintro _ ⟨⟩
        exact ⟨hword, hafter⟩
      · refine (h.script hinner).bind fun body _ => .ok ?_
        rintro _ ⟨⟩
        exact ⟨rule.body_parens body hparens, hafter⟩
  · next text =>
    split
    · exact .error (rule.refused_lexical _ _)
    · next content after hclose =>
      have hafter := (Delimiter.close_suffix hclose).trans (List.suffix_cons '\x7b' _)
      have hcontent : content <:+: '$' :: '\x7b' :: text :=
        (Delimiter.close_inner hclose).isInfix.trans (List.suffix_append ['$', '\x7b'] text).isInfix
      refine (h.bracedParameter (rule.fine_inner hcontent htext)).bind fun part hpart => .ok ?_
      rintro _ ⟨⟩
      exact ⟨hpart, hafter⟩
  · next c text _ _ =>
    split
    · split
      · exact .error (rule.refused_lexical _ _)
      · next value after hquoted =>
        refine .ok ?_
        rintro _ ⟨⟩
        exact ⟨trivial, (takeAnsiQuoted_suffix hquoted).trans (List.suffix_cons _ _)⟩
    · split
      · next name after hname =>
        refine .ok ?_
        rintro _ ⟨⟩
        exact ⟨trivial, takeParameter_suffix hname⟩
      · exact .ok (by simp)
  · exact .ok (by simp)

theorem part (quoting : Quoting) (c : Char) {text : List Char} (htext : rule.fine (c :: text)) :
    rule.Repeats (fun found => ∀ part ∈ found, part.1.Only rule.bound rule.body ∧
      part.2.1 <:+ text) (l.part? quoting c text) (l'.part? quoting c text) := by
  unfold part?
  split
  · split
    · exact .error (rule.refused_lexical _ _)
    · next inner after hclose =>
      refine .ok ?_
      rintro _ ⟨⟩
      exact ⟨trivial, Delimiter.close_suffix hclose⟩
  split
  · split
    · exact .error (rule.refused_lexical _ _)
    · next inner after hclose =>
      have hinner : inner <:+: c :: text :=
        (Delimiter.close_inner hclose).isInfix.trans (List.suffix_cons _ _).isInfix
      refine (h.parts .double (rule.fine_inner hinner htext)).bind fun parts hparts => .ok ?_
      rintro _ ⟨⟩
      exact ⟨hparts, Delimiter.close_suffix hclose⟩
  split
  · next hc =>
    obtain rfl : c = '`' := by simpa using hc
    split
    · exact .error (rule.refused_lexical _ _)
    · next inner after hclose =>
      have hbackticks : rule.fine ('`' :: inner) := by
        have hfront : '`' :: inner <+: '`' :: text := by
          simpa using Delimiter.close_inner hclose
        exact rule.fine_inner hfront.isInfix htext
      refine (h.script (rule.fine_backticks hbackticks)).bind fun body _ => .ok ?_
      rintro _ ⟨⟩
      exact ⟨rule.body_backticks body hbackticks, Delimiter.close_suffix hclose⟩
  split
  · next hc =>
    obtain rfl : c = '$' := by simpa using hc
    refine (h.dollarPart quoting htext).bind fun found hfound => ?_
    cases found with
    | none => exact .ok nofun
    | some part =>
      refine .ok ?_
      rintro _ ⟨⟩
      exact hfound part rfl
  · exact .ok nofun

omit h in
theorem flush {bound : String → Prop} {body : Script → Prop} {plain : List Char}
    {done : List Part} (hdone : Part.AllOnly bound body done) :
    Part.AllOnly bound body (Level.flush plain done) := by
  unfold Level.flush
  split
  · exact hdone
  · exact ⟨trivial, hdone⟩

theorem scanParts {quoting : Quoting} {done : List Part} {plain text : List Char}
    (hdone : rule.Parts done) (htext : rule.fine text) :
    rule.Repeats rule.Parts (l.scanParts quoting done plain text)
      (l'.scanParts quoting done plain text) := by
  fun_induction Level.scanParts l quoting done plain text with
  | case1 done plain =>
    rw [Level.scanParts]
    refine .ok (Part.allOnly_iff.2 fun part hpart => ?_)
    exact Part.allOnly_iff.1 (flush hdone) part (List.mem_reverse.1 hpart)
  | case2 done plain ih =>
    have hstep : l'.scanParts quoting done plain ['\\'] =
        l'.scanParts quoting done ('\\' :: plain) [] := by simp only [Level.scanParts]
    rw [hstep]
    exact ih hdone (rule.fine_inner List.nil_infix htext)
  | case3 done plain rest ih =>
    rw [Level.scanParts]
    exact ih hdone (rule.fine_inner (List.suffix_append ['\\', '\n'] rest).isInfix htext)
  | case4 done plain c rest hc hescapes ih =>
    have hrest : rest <:+: '\\' :: c :: rest := (List.suffix_append ['\\', c] rest).isInfix
    rw [Level.scanParts, if_pos hescapes]
    · exact ih ⟨trivial, flush hdone⟩ (rule.fine_inner hrest htext)
    · exact hc
  | case5 done plain c rest hc hescapes ih =>
    rw [Level.scanParts, if_neg hescapes]
    · exact ih hdone (rule.fine_inner (List.suffix_cons _ _).isInfix htext)
    · exact hc
  | case6 done plain c rest hlast hline hescape e hpart =>
    have hrepeats := h.part quoting c htext
    rw [hpart] at hrepeats
    exact hrepeats
  | case7 done plain c rest hlast hline hescape hpart ih =>
    have hrepeats := h.part quoting c htext
    rw [hpart] at hrepeats
    rw [Level.scanParts]
    · rw [hrepeats.2]
      exact ih hdone (rule.fine_inner (List.suffix_cons _ _).isInfix htext)
    all_goals assumption
  | case8 done plain c rest hlast hline hescape part after hafter hpart ih =>
    have hrepeats := h.part quoting c htext
    rw [hpart] at hrepeats
    obtain ⟨hgood, hsame⟩ := hrepeats
    obtain ⟨honly, hsuffix⟩ := hgood _ rfl
    have hrest := (hsuffix.trans (List.suffix_cons c rest)).isInfix
    rw [Level.scanParts]
    · rw [hsame]
      exact ih ⟨honly, flush hdone⟩ (rule.fine_inner hrest htext)
    all_goals assumption

/-- **The level above reads the same words**, and they hold what the rule allows. -/
theorem partsOf (quoting : Quoting) {text : List Char} (htext : rule.fine text) :
    rule.Repeats rule.Parts (l.partsOf quoting text) (l'.partsOf quoting text) := by
  unfold Level.partsOf
  split
  · next user rest htake =>
    have htake : takeTilde text = some (user, rest) := by
      split at htake
      · exact htake
      · cases htake
    exact h.scanParts ⟨trivial, trivial⟩ (rule.fine_inner (takeTilde_suffix htake).isInfix htext)
  · exact h.scanParts trivial htext

end Level.Agree

/-- Every level repeats itself under a rule that allows all reasons. -/
theorem Level.agree_self (rule : TextRule) (hrefused : ∀ e, rule.refused e) (n : Nat) :
    Agree rule (ofDepth n) (ofDepth n) := by
  induction n with
  | zero => exact ⟨fun _ _ _ => .error (hrefused _), fun _ => .refl hrefused _⟩
  | succ n ih => exact ⟨fun quoting _ htext => ih.partsOf quoting htext, fun _ => .refl hrefused _⟩

end VirtualShell
