import VirtualShell.Proofs.Reading.Word

/-!
# Two readers that go along with each other

A reader is followed by its outcome: what it gives and what it leaves. Two readers go along with
each other when the second one, given the same tokens with a line end and more tokens after them,
reads the same and leaves these too. This is kept by sequences and loops, and so it is shown of a
parser one construct at a time.

* `Reader.outcome` — what a reader gives, and the items that are left.
* `TokenRule` — what is known of texts and of the tokens that they are split into.
* `Reader.Along` — two readers go along with each other.
* `Reader.AlongRefusing` — and they refuse the end of the tokens.
* **`Reader.Along.repeatFrom`** — so do loops whose turns go along with each other.
-/

namespace VirtualShell

/-! ## Outcomes -/

namespace Reader

variable {ε τ α β : Type}

/-- What a reader gives, and the items that it leaves. -/
def outcome (read : Reader ε τ α) (items : List τ) : Except ε (α × List τ) :=
  (read items).map fun found => (found.1, found.2.1)

/-- A reader that takes one item at least. -/
def ofRest (read : (items : List τ) → Except ε (α × Rest items)) : Reader ε τ α := fun items =>
  (read items).map fun found => (found.1, found.2.toTail)

theorem outcome_length_le {read : Reader ε τ α} {items rest : List τ} {a : α}
    (h : read.outcome items = .ok (a, rest)) : rest.length ≤ items.length := by
  unfold outcome at h
  cases hread : read items with
  | error e =>
    rw [hread] at h
    cases h
  | ok found =>
    rw [hread] at h
    cases h
    exact found.2.2

theorem outcome_bind (read : Reader ε τ α) (f : α → Reader ε τ β) (items : List τ) :
    (read >>= f).outcome items = read.outcome items >>= fun found => (f found.1).outcome found.2 := by
  simp only [outcome, Bind.bind]
  rcases read items with e | ⟨a, rest, hrest⟩
  · rfl
  · change _ = (f a rest).map fun found => (found.1, found.2.1)
    dsimp only
    rcases f a rest with e | ⟨b, rest', hrest'⟩ <;> rfl

theorem outcome_skipWhile (p : τ → Bool) (items : List τ) :
    (skipWhile p : Reader ε τ Unit).outcome items = .ok ((), items.dropWhile p) :=
  rfl

/-! ### Loops -/

variable {σ : Type} (step : σ → τ → Option (Reader ε τ σ))

/-- What a loop gives does not depend on the list that it is part of. -/
theorem loop_start (s : σ) (items : List τ) {start : List τ} (h : items.length ≤ start.length) :
    ((loop step s (⟨items, h⟩ : Tail start)).map fun found => (found.1, found.2.1)) =
      (repeatFrom s step).outcome items := by
  induction hn : items.length using Nat.strongRecOn generalizing s items start with
  | ind n ih =>
    subst hn
    cases items with
    | nil => simp only [outcome, repeatFrom, Tail.all, loop, Except.map]
    | cons t items =>
      rw [outcome, repeatFrom, Tail.all, loop, loop]
      cases step s t with
      | none => rfl
      | some read =>
        dsimp only
        rcases read items with e | ⟨s', rest, hrest⟩
        · rfl
        · have hlt : rest.length < (t :: items).length := Nat.lt_succ_of_le hrest
          exact (ih _ hlt s' rest _ rfl).trans (ih _ hlt s' rest _ rfl).symm

theorem outcome_repeatFrom_nil (s : σ) : (repeatFrom s step).outcome [] = .ok (s, []) := by
  simp only [outcome, repeatFrom, Tail.all, loop, Except.map]

theorem outcome_repeatFrom_cons (s : σ) (t : τ) (items : List τ) :
    (repeatFrom s step).outcome (t :: items) =
      match step s t with
      | none => .ok (s, t :: items)
      | some read =>
        read.outcome items >>= fun found => (repeatFrom found.1 step).outcome found.2 := by
  rw [outcome, repeatFrom, Tail.all, loop]
  cases step s t with
  | none => rfl
  | some read =>
    change _ = (read items).map _ >>= _
    dsimp only
    rcases read items with e | ⟨s', rest, hrest⟩
    · rfl
    · exact loop_start step s' rest _

end Reader

/-! ## Rules for tokens -/

/-- **What is known of texts and of tokens.** The tokens that a rule is about have texts that it is
about, and so do the tokens that are left of them; those that a text is split into are of this
kind. -/
structure TokenRule extends TextRule where
  tokens : List Token → Prop
  tokens_nil : tokens []
  tokens_tail {t : Token} {rest : List Token} : tokens (t :: rest) → tokens rest
  fine_text {t : Token} {rest : List Token} : tokens (t :: rest) → fine t.text.toList
  fine_document {t : Token} {rest : List Token} : tokens (t :: rest) →
    ∀ doc ∈ t.hereDocument, fine doc.body.toList
  fine_regex {ts : List Token} : tokens ts → fine (Parser.regexOperand 0 "" ts).1.toList
  tokens_ofText {text : List Char} {stream : TokenStream} : fine text →
    TokenStream.ofText (String.ofList text) = .ok stream → tokens stream.tokens
  refused_ofText {text : List Char} {e : SyntaxError} : fine text →
    TokenStream.ofText (String.ofList text) = .error e → refused e
  refused_grammar (cause : GrammarCause) (line : Option Nat) : refused (.grammar cause line)

namespace TokenRule

variable (rule : TokenRule)

/-- The texts of a token are texts that the rule is about. -/
structure Fine (t : Token) : Prop where
  text : rule.fine t.text.toList
  document : ∀ doc ∈ t.hereDocument, rule.fine doc.body.toList

/-- **The reasons that are given for a whole script.** None is of the kind that a script around it
words again. -/
structure Final (e : SyntaxError) : Prop where
  refused : rule.refused e
  ne_lexical : ∀ cause line, e ≠ .lexical cause line

variable {rule}

theorem tokens_suffix {before after : List Token} (h : rule.tokens (before ++ after)) :
    rule.tokens after := by
  induction before with
  | nil => exact h
  | cons t before ih => exact ih (rule.tokens_tail h)

theorem tokens_dropWhile {tokens : List Token} (h : rule.tokens tokens) (p : Token → Bool) :
    rule.tokens (tokens.dropWhile p) := by
  rw [← List.takeWhile_append_dropWhile (p := p) (l := tokens)] at h
  exact tokens_suffix h

theorem fine_of_tokens {t : Token} {rest : List Token} (h : rule.tokens (t :: rest)) :
    rule.Fine t :=
  ⟨rule.fine_text h, rule.fine_document h⟩

theorem final_grammar (cause : GrammarCause) (line : Option Nat) :
    rule.Final (.grammar cause line) :=
  ⟨rule.refused_grammar cause line, nofun⟩

end TokenRule

/-! ## Going along -/

namespace Reader

/-- Line ends, if anything. -/
def LineEnds (tail : List Token) : Prop := ∀ t ∈ tail, t.kind = .newline

/-- A line end and what comes after it, if anything. -/
def StartsLine (tail : List Token) : Prop := ∀ t ∈ tail.head?, t.kind = .newline

theorem LineEnds.startsLine {tail : List Token} (h : LineEnds tail) : StartsLine tail :=
  fun t ht => h t (List.mem_of_mem_head? ht)

variable {α β : Type} (rule : TokenRule) (tail : List Token)

/-- **Two outcomes that are the same but for the tail.** Where all tokens are read this is asked of
the second one only in the case `atEnd`: a reader that passes over line ends passes over those that
follow, and so it may go on. -/
def OutcomesAlong (atEnd : Prop) (good : α → Prop)
    (first second : Except SyntaxError (α × List Token)) : Prop :=
  match first with
  | .error e => rule.Final e
  | .ok (a, rest) => good a ∧ rule.tokens rest ∧
    (rest ≠ [] ∨ atEnd → second = .ok (a, rest ++ tail))

/-- **The second reader goes along with the first one**: it reads the same when `tail` follows, and
leaves the tail. -/
def Along (atEnd : Prop) (good : α → Prop) (read read' : TokenReader α) : Prop :=
  ∀ tokens, rule.tokens tokens →
    OutcomesAlong rule tail atEnd good (read.outcome tokens) (read'.outcome (tokens ++ tail))

/-- The readers go along with each other, and the first one wants another token. -/
structure AlongRefusing (good : α → Prop) (read read' : TokenReader α) : Prop where
  along : Along rule tail True good read read'
  refuses : ∃ e, read.outcome [] = .error e

/-- Two turns of a loop: there is none, or they go along with each other. -/
def AlongTurns (atEnd : Prop) : Option (TokenReader α) → Option (TokenReader α) → Prop
  | none, none => True
  | some read, some read' => Along rule tail atEnd (fun _ => True) read read'
  | _, _ => False

variable {rule tail} {atEnd : Prop} {good : α → Prop} {good' : β → Prop}
  {read read' : TokenReader α} {f f' : α → TokenReader β}

/-- A reader leaves nothing of nothing. -/
theorem eq_nil_of_outcome {ε τ : Type} {read : Reader ε τ α} {a : α} {rest : List τ}
    (h : read.outcome [] = .ok (a, rest)) : rest = [] :=
  List.eq_nil_of_length_eq_zero (Nat.le_zero.1 (outcome_length_le h))

/-- **One after the other.** The second step decides whether tokens are left, and it may be that
they were left after the first one for this reason. -/
theorem OutcomesAlong.bind {atEnd' : Prop} {x y : Except SyntaxError (α × List Token)}
    {f f' : α × List Token → Except SyntaxError (β × List Token)}
    (h : OutcomesAlong rule tail atEnd good x y)
    (hf : ∀ a rest, x = .ok (a, rest) → good a → rule.tokens rest →
      OutcomesAlong rule tail atEnd' good' (f (a, rest)) (f' (a, rest ++ tail)))
    (hleft : ∀ a found, x = .ok (a, []) → f (a, []) = .ok found → found.2 ≠ [] ∨ atEnd' → atEnd) :
    OutcomesAlong rule tail atEnd' good' (x >>= f) (y >>= f') := by
  rcases hx : x with e | ⟨a, rest⟩
  · rw [hx] at h
    exact h
  · rw [hx] at h
    obtain ⟨ha, hrest, hsame⟩ := h
    have hnext := hf a rest hx ha hrest
    change OutcomesAlong rule tail atEnd' good' (f (a, rest)) _
    rcases hafter : f (a, rest) with e | ⟨b, rest'⟩
    · rw [hafter] at hnext
      exact hnext
    · rw [hafter] at hnext
      refine ⟨hnext.1, hnext.2.1, fun hmore => ?_⟩
      have hfirst : rest ≠ [] ∨ atEnd := by
        by_cases hnil : rest = []
        · subst hnil
          exact .inr (hleft a _ hx hafter hmore)
        · exact .inl hnil
      rw [hsame hfirst]
      exact hnext.2.2 hmore

namespace Along

theorem congr {first second : TokenReader α} (h : Along rule tail atEnd good read read')
    (hfirst : first.outcome = read.outcome) (hsecond : second.outcome = read'.outcome) :
    Along rule tail atEnd good first second := by
  unfold Along
  rw [hfirst, hsecond]
  exact h

theorem mono {atEnd' : Prop} {good' : α → Prop} (h : Along rule tail atEnd good read read')
    (hend : atEnd' → atEnd) (hgood : ∀ a, good a → good' a) :
    Along rule tail atEnd' good' read read' := by
  intro tokens htokens
  have hread := h tokens htokens
  rcases houtcome : read.outcome tokens with e | ⟨a, rest⟩
  · rw [houtcome] at hread
    exact hread
  · rw [houtcome] at hread
    exact ⟨hgood a hread.1, hread.2.1, fun hrest => hread.2.2 (hrest.imp_right hend)⟩

/-- Less is asked of readers that may run over the line ends. -/
theorem inside (h : Along rule tail True good read read') : Along rule tail atEnd good read read' :=
  h.mono (fun _ => trivial) fun _ ha => ha

theorem ok {a : α} (h : good a) : Along rule tail atEnd good (pure a) (pure a) :=
  fun _ htokens => ⟨h, htokens, fun _ => rfl⟩

theorem fail {e : SyntaxError} (h : rule.Final e) :
    Along rule tail atEnd good (Reader.fail e) read' :=
  fun _ _ => h

theorem bind (h : Along rule tail atEnd good read read')
    (hf : ∀ a, good a → Along rule tail atEnd good' (f a) (f' a)) :
    Along rule tail atEnd good' (read >>= f) (read' >>= f') := by
  intro tokens htokens
  rw [outcome_bind, outcome_bind]
  refine (h tokens htokens).bind (fun a rest _ ha hrest => hf a ha rest hrest) ?_
  intro a found _ hafter hmore
  exact hmore.resolve_left fun hne => hne (eq_nil_of_outcome hafter)

theorem pure_bind {a : α} (h : Along rule tail atEnd good' (f a) (f' a)) :
    Along rule tail atEnd good' (pure a >>= f) (pure a >>= f') := by
  refine h.congr (funext fun items => ?_) (funext fun items => ?_) <;> exact outcome_bind _ _ items

theorem map (h : Along rule tail atEnd good read read') (g : α → β) :
    Along rule tail atEnd (fun _ => True) (g <$> read) (g <$> read') :=
  h.bind fun _ _ => .ok trivial

/-- **After a reader that may run over the line ends** comes one that wants a token: where the first
one has read all tokens, the second one refuses. -/
theorem bindRefusing (h : Along rule tail False good read read')
    (hf : ∀ a, good a → AlongRefusing rule tail good' (f a) (f' a)) :
    AlongRefusing rule tail good' (read >>= f) (read' >>= f') := by
  constructor
  · intro tokens htokens
    have hread := h tokens htokens
    rw [outcome_bind, outcome_bind]
    refine hread.bind (fun a rest _ ha hrest => (hf a ha).along rest hrest) ?_
    intro a found hx hafter _
    rw [hx] at hread
    obtain ⟨e, he⟩ := (hf a hread.1).refuses
    rw [he] at hafter
    cases hafter
  · have hread := h [] rule.tokens_nil
    rw [outcome_bind]
    rcases houtcome : read.outcome [] with e | ⟨a, rest⟩
    · exact ⟨e, rfl⟩
    · rw [houtcome] at hread
      cases eq_nil_of_outcome houtcome
      exact (hf a hread.1).refuses

theorem skipWhile (p : Token → Bool) :
    Along rule tail False (fun _ => True) (skipWhile p) (skipWhile p) := by
  intro tokens htokens
  rw [outcome_skipWhile, outcome_skipWhile]
  refine ⟨trivial, TokenRule.tokens_dropWhile htokens p, fun hleft => ?_⟩
  have hne := hleft.resolve_right id
  rw [List.dropWhile_append, if_neg (by simpa using hne)]

/-- **Loops go along with each other** when their turns do. A loop that is to leave the line ends
after the tokens has no turn for them. -/
theorem repeatFrom {step step' : α → Token → Option (TokenReader α)} (htail : StartsLine tail)
    (hstep : ∀ s t, rule.Fine t → AlongTurns rule tail atEnd (step s t) (step' s t))
    (hstop : atEnd → ∀ s t, t.kind = .newline → step' s t = none) (s : α) :
    Along rule tail atEnd (fun _ => True) (repeatFrom s step) (repeatFrom s step') := by
  intro tokens htokens
  induction hn : tokens.length using Nat.strongRecOn generalizing s tokens with
  | ind n ih =>
    subst hn
    cases tokens with
    | nil =>
      rw [outcome_repeatFrom_nil]
      refine ⟨trivial, htokens, fun hleft => ?_⟩
      have hend : atEnd := hleft.resolve_left fun hne => hne rfl
      cases tail with
      | nil => exact outcome_repeatFrom_nil step' s
      | cons t tail =>
        rw [List.nil_append, outcome_repeatFrom_cons,
          hstop hend s t (htail t rfl)]
    | cons t tokens =>
      have hturns := hstep s t (TokenRule.fine_of_tokens htokens)
      rw [List.cons_append, outcome_repeatFrom_cons, outcome_repeatFrom_cons]
      rcases hfirst : step s t with - | read <;> rcases hsecond : step' s t with - | read' <;>
        rw [hfirst, hsecond] at hturns
      case none.none => exact ⟨trivial, htokens, fun _ => rfl⟩
      case some.some =>
        refine (hturns tokens (rule.tokens_tail htokens)).bind ?_ ?_
        · intro s' rest hrest _ htokens'
          exact ih rest.length (Nat.lt_succ_of_le (outcome_length_le hrest)) s' rest htokens' rfl
        · intro s' found _ hafter hmore
          exact hmore.resolve_left fun hne => hne (eq_nil_of_outcome hafter)
      all_goals exact hturns.elim

end Along

namespace AlongRefusing

theorem congr {first second : TokenReader α} (h : AlongRefusing rule tail good read read')
    (hfirst : first.outcome = read.outcome) (hsecond : second.outcome = read'.outcome) :
    AlongRefusing rule tail good first second :=
  ⟨h.along.congr hfirst hsecond, hfirst ▸ h.refuses⟩

/-- What comes after a refusal of the end is not reached at the end. -/
theorem bind (h : AlongRefusing rule tail good read read')
    (hf : ∀ a, good a → Along rule tail True good' (f a) (f' a)) :
    AlongRefusing rule tail good' (read >>= f) (read' >>= f') := by
  obtain ⟨e, he⟩ := h.refuses
  refine ⟨h.along.bind hf, e, ?_⟩
  rw [outcome_bind, he]
  rfl

theorem pure_bind {a : α} (h : AlongRefusing rule tail good' (f a) (f' a)) :
    AlongRefusing rule tail good' (pure a >>= f) (pure a >>= f') := by
  refine h.congr (funext fun items => ?_) (funext fun items => ?_) <;> exact outcome_bind _ _ items

/-- **A look at the next token**: one reader for each token, and a refusal when there is none. -/
theorem peek {f f' : Option Token → TokenReader β}
    (hsome : ∀ t, rule.Fine t → Along rule tail True good' (f (some t)) (f' (some t)))
    (hnone : ∃ e, (f none).outcome [] = .error e ∧ rule.Final e) :
    AlongRefusing rule tail good' (Reader.peek >>= f) (Reader.peek >>= f') := by
  obtain ⟨e, he, hfinal⟩ := hnone
  have hend : (Reader.peek >>= f).outcome [] = .error e := by
    rw [outcome_bind]
    exact he
  refine ⟨fun tokens htokens => ?_, e, hend⟩
  cases tokens with
  | nil =>
    rw [hend]
    exact hfinal
  | cons t tokens =>
    rw [outcome_bind, outcome_bind]
    exact hsome t (TokenRule.fine_of_tokens htokens) (t :: tokens) htokens

end AlongRefusing

end Reader

end VirtualShell
