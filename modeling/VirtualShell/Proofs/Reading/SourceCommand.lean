import VirtualShell.Proofs.Reading.Command
import VirtualShell.Proofs.Reading.Source

/-!
# Simple commands from their source text

A parser takes the tokens of a simple command, and gives back what they are the tokens of. It does
so whatever comes after them, as long as that ends a command.

* `Reader.outcome_repeatFrom_flatMap` — a loop lists what is written one after the other.
* `StartsCommand`, `NextIn commandEnds` — what a command starts with, and what comes after one.
* `Level.ReadsSource` — a level gives back some commands.
* **`Parser.ReadsSource.simple`** — then the level above it gives back the simple commands.
-/

namespace VirtualShell

open Reader

/-! ## Outcomes -/

namespace Reader

variable {ε τ α β ι σ : Type}

theorem outcome_bind_ok {read : Reader ε τ α} {f : α → Reader ε τ β} {items rest : List τ} {a : α}
    (h : read.outcome items = .ok (a, rest)) :
    (read >>= f).outcome items = (f a).outcome rest := by
  rw [outcome_bind, h]
  rfl

theorem outcome_map_ok {read : Reader ε τ α} (f : α → β) {items rest : List τ} {a : α}
    (h : read.outcome items = .ok (a, rest)) : (f <$> read).outcome items = .ok (f a, rest) := by
  rw [show f <$> read = read >>= fun a => pure (f a) from rfl, outcome_bind_ok h]
  rfl

theorem outcome_peek (t : τ) (items : List τ) :
    (peek : Reader ε τ (Option τ)).outcome (t :: items) = .ok (some t, t :: items) :=
  rfl

variable {step : σ → τ → Option (Reader ε τ σ)}

/-- A turn of a loop. -/
theorem outcome_repeatFrom_turn {s s' : σ} {t : τ} {items rest : List τ} {read : Reader ε τ σ}
    (hstep : step s t = some read) (hread : read.outcome items = .ok (s', rest)) :
    (repeatFrom s step).outcome (t :: items) = (repeatFrom s' step).outcome rest := by
  rw [outcome_repeatFrom_cons, hstep]
  dsimp only
  rw [hread]
  rfl

/-- The end of a loop. -/
theorem outcome_repeatFrom_stop {s : σ} {rest : List τ} (h : ∀ t ∈ rest.head?, step s t = none) :
    (repeatFrom s step).outcome rest = .ok (s, rest) := by
  cases rest with
  | nil => exact outcome_repeatFrom_nil step s
  | cons t rest => rw [outcome_repeatFrom_cons, h t rfl]

/-- **A loop lists what is written one after the other** when one turn takes each of it. It holds
what was taken last first. -/
theorem outcome_repeatFrom_flatMap {step : List ι → τ → Option (Reader ε τ (List ι))}
    {written : ι → List τ} (follows : List τ → Prop) {rest : List τ} (hrest : follows rest)
    (hstop : ∀ done, ∀ t ∈ rest.head?, step done t = none) {list : List ι}
    (hturn : ∀ i ∈ list, ∀ done more, follows more →
      (repeatFrom done step).outcome (written i ++ more) =
        (repeatFrom (i :: done) step).outcome more)
    (hfollows : ∀ i ∈ list, ∀ more, follows (written i ++ more)) (done : List ι) :
    (repeatFrom done step).outcome (list.flatMap written ++ rest) =
      .ok (list.reverse ++ done, rest) := by
  induction list generalizing done with
  | nil => exact outcome_repeatFrom_stop (hstop done)
  | cons i list ih =>
    have hmore : follows (list.flatMap written ++ rest) := by
      cases list with
      | nil => exact hrest
      | cons j list =>
        rw [List.flatMap_cons, List.append_assoc]
        exact hfollows j (by simp) _
    rw [List.flatMap_cons, List.append_assoc, hturn i List.mem_cons_self done _ hmore,
      ih (fun j hj => hturn j (List.mem_cons_of_mem _ hj))
        (fun j hj => hfollows j (List.mem_cons_of_mem _ hj)),
      List.reverse_cons, List.append_assoc, List.singleton_append]

end Reader

/-! ## Names and words -/

theorem takeName_append {name : String} (hname : Arith.isName name = true) {c : Char}
    (hc : Text.isNameChar c = false) (rest : List Char) :
    takeName (name.toList ++ c :: rest) = some (name.toList, c :: rest) := by
  obtain ⟨first, chars, hchars, hfirst, hall⟩ := Arith.exists_cons_of_isName hname
  rw [hchars, List.cons_append, takeName, if_pos hfirst, List.takeWhile_append_of_pos hall,
    List.dropWhile_append_of_pos hall, List.takeWhile_cons_of_neg (by simp [hc]),
    List.dropWhile_cons_of_neg (by simp [hc]), List.append_nil]

theorem isValidName_of_isName {name : String} (hname : Arith.isName name = true) :
    isValidName name = true := by
  obtain ⟨first, chars, hchars, hfirst, hall⟩ := Arith.exists_cons_of_isName hname
  have hdrop : chars.dropWhile Text.isNameChar = [] := by simpa using hall
  rw [isValidName, hchars, takeName, if_pos hfirst, hdrop]

/-- The text of an assignment is read as one. -/
theorem Assignment.readAssignment?_text {a : Assignment} (ha : Arith.isName a.name = true) :
    readAssignment? a.text = some (a.name, a.append, (a.value.map Word.raw).getD "") := by
  obtain ⟨name, value, append⟩ := a
  have hplus : Text.isNameChar '+' = false := by decide
  have hequals : Text.isNameChar '=' = false := by decide
  cases append with
  | false =>
    have htext : (Assignment.text ⟨name, value, false⟩).toList =
        name.toList ++ '=' :: ((value.map Word.raw).getD "").toList := by simp [Assignment.text]
    rw [readAssignment?, htext, takeName_append ha hequals]
    simp
  | true =>
    have htext : (Assignment.text ⟨name, value, true⟩).toList =
        name.toList ++ '+' :: '=' :: ((value.map Word.raw).getD "").toList := by
      simp [Assignment.text]
    rw [readAssignment?, htext, takeName_append ha hplus]
    simp

theorem Assignment.text_not_mem_keywords {a : Assignment} (ha : Arith.isName a.name = true) :
    a.text ∉ keywords := by
  have hall : keywords.all (fun text => readAssignment? text == none) = true := by decide
  intro hmem
  have hnone := List.all_eq_true.1 hall _ hmem
  rw [readAssignment?_text ha] at hnone
  cases hnone

namespace Word.IsQuoted

variable {w : Word} (hw : w.IsQuoted)
include hw

theorem exists_raw : ∃ rest, w.raw.toList = '\'' :: rest := by
  obtain ⟨text, -, rfl⟩ := hw
  exact ⟨text.toList ++ ['\''], by simp [inQuotes]⟩

theorem readAssignment?_raw : readAssignment? w.raw = none := by
  obtain ⟨rest, hraw⟩ := hw.exists_raw
  rw [readAssignment?, hraw, takeName, if_neg (by decide)]

/-- No word that starts otherwise is quoted. -/
theorem raw_ne {text : String} (h : text.toList.head? ≠ some '\'') : w.raw ≠ text := by
  obtain ⟨rest, hraw⟩ := hw.exists_raw
  rintro rfl
  exact h (by rw [hraw]; rfl)

theorem raw_not_mem_keywords : w.raw ∉ keywords := by
  have hall : keywords.all (fun text => text.toList.head? != some '\'') = true := by decide
  intro hmem
  exact hw.raw_ne (by simpa using List.all_eq_true.1 hall _ hmem) rfl

end Word.IsQuoted

/-! ## What comes before and after a command -/

/-- The next token, if any, is of one of some kinds. -/
def NextIn (kinds : List TokenKind) (tokens : List Token) : Prop :=
  ∀ t ∈ tokens.head?, t.kind ∈ kinds

theorem NextIn.mono {kinds kinds' : List TokenKind} {tokens : List Token}
    (h : NextIn kinds tokens) (hsub : kinds ⊆ kinds') : NextIn kinds' tokens :=
  fun t ht => hsub (h t ht)

/-- What comes after a statement in a source text. -/
def statementEnds : List TokenKind := [.semicolon, .ampersand]

/-- What comes after a pipeline. -/
def pipelineEnds : List TokenKind := .connective .and :: .connective .or :: statementEnds

/-- What comes after a command. -/
def commandEnds : List TokenKind := .pipe :: pipelineEnds

theorem NextIn.pipelineEnds {tokens : List Token} (h : NextIn statementEnds tokens) :
    NextIn pipelineEnds tokens :=
  h.mono (by decide)

theorem NextIn.commandEnds {tokens : List Token} (h : NextIn VirtualShell.pipelineEnds tokens) :
    NextIn commandEnds tokens :=
  h.mono (by decide)

theorem NextIn.not_redirect {tokens : List Token} (h : NextIn VirtualShell.commandEnds tokens) :
    ∀ t ∈ tokens.head?, ∀ op, t.kind ≠ .redirect op := by
  intro t ht op hkind
  have hmem := h t ht
  rw [hkind] at hmem
  cases op <;> exact absurd hmem (by decide)

theorem NextIn.not_openParen {tokens : List Token} (h : NextIn VirtualShell.commandEnds tokens) :
    ∀ t ∈ tokens.head?, t.kind ≠ .openParen := by
  intro t ht hkind
  have hmem := h t ht
  rw [hkind] at hmem
  exact absurd hmem (by decide)

/-- **The beginning of a command**: a redirection, or a word that no list ends at. -/
def StartsCommand (tokens : List Token) : Prop :=
  ∃ t ∈ tokens.head?, (∃ op, t.kind = .redirect op) ∨
    t.kind = .word ∧ t.text ∉ Parser.misplacedKeywords ∧ t.text ≠ "!"

/-- The beginning of a pipeline, which a `!` may be. -/
def StartsPipeline (tokens : List Token) : Prop :=
  ∃ t ∈ tokens.head?, (∃ op, t.kind = .redirect op) ∨
    t.kind = .word ∧ t.text ∉ Parser.misplacedKeywords

theorem StartsCommand.append {tokens : List Token} (h : StartsCommand tokens)
    (more : List Token) : StartsCommand (tokens ++ more) := by
  obtain ⟨t, ht, hkind⟩ := h
  exact ⟨t, List.mem_head?_append_of_mem_head? ht, hkind⟩

theorem StartsPipeline.append {tokens : List Token} (h : StartsPipeline tokens)
    (more : List Token) : StartsPipeline (tokens ++ more) := by
  obtain ⟨t, ht, hkind⟩ := h
  exact ⟨t, List.mem_head?_append_of_mem_head? ht, hkind⟩

theorem StartsCommand.startsPipeline {tokens : List Token} (h : StartsCommand tokens) :
    StartsPipeline tokens := by
  obtain ⟨t, ht, hkind⟩ := h
  exact ⟨t, ht, hkind.imp id fun hword => ⟨hword.1, hword.2.1⟩⟩

/-! ## The tokens of a simple command -/

theorem SimpleCommand.WellFormed.tokens_ne_nil {c : SimpleCommand} (h : c.WellFormed) :
    c.tokens ≠ [] := by
  have hredirection (r : Redirection) (hr : r.WellFormed) : r.tokens c.line ≠ [] := by
    obtain ⟨w, -, htarget⟩ := hr.target
    simp [Redirection.tokens, htarget]
  intro hnil
  simp only [SimpleCommand.tokens, List.append_eq_nil_iff, List.map_eq_nil_iff,
    List.flatMap_eq_nil_iff] at hnil
  obtain ⟨⟨hassignments, hname, -⟩, hredirections⟩ := hnil
  rcases h.nonempty with hne | hne | hne
  · exact hne hassignments
  · exact hne (by simpa using hname)
  · obtain ⟨r, list, hlist⟩ := List.exists_cons_of_ne_nil hne
    have hr : r ∈ c.redirections := by simp [hlist]
    exact hredirection r (h.redirections r hr) (hredirections r hr)

/-- They are redirections, and words that are no keywords. -/
theorem SimpleCommand.WellFormed.tokens_spec {c : SimpleCommand} (h : c.WellFormed) :
    ∀ t ∈ c.tokens, t.line = c.line ∧
      ((∃ op, t.kind = .redirect op) ∨ t.kind = .word ∧ t.text ∉ keywords) := by
  have hword {w : Word} (hw : w.IsQuoted) : (Token.ofWord c.line w.raw).line = c.line ∧
      ((∃ op, (Token.ofWord c.line w.raw).kind = .redirect op) ∨
        (Token.ofWord c.line w.raw).kind = .word ∧ w.raw ∉ keywords) :=
    ⟨rfl, .inr ⟨rfl, hw.raw_not_mem_keywords⟩⟩
  refine List.forall_mem_append.2 ⟨List.forall_mem_append.2 ⟨?_, ?_⟩, ?_⟩
  · exact List.forall_mem_map.2 fun a ha =>
      ⟨rfl, .inr ⟨rfl, Assignment.text_not_mem_keywords (h.assignments a ha).name⟩⟩
  · exact List.forall_mem_map.2 fun w hw => hword (h.words w hw)
  · refine List.forall_mem_flatMap.2 fun r hr => ?_
    obtain ⟨w, hw, htarget⟩ := (h.redirections r hr).target
    rw [Redirection.tokens, htarget]
    exact List.forall_mem_cons.2
      ⟨⟨rfl, .inl ⟨r.op, rfl⟩⟩, List.forall_mem_singleton.2 (hword hw)⟩

/-! ## Single tokens -/

namespace Parser

theorem outcome_expect (p : Parser) {t : Token} {kind : TokenKind} (ht : t.kind = kind)
    (rest : List Token) : (p.expect kind).outcome (t :: rest) = .ok (t, rest) := by
  simp [outcome, expect, ht, Except.map]

theorem outcome_keyword (p : Parser) (text : String) (rest : List Token) :
    (p.keyword text).outcome (.keyword text :: rest) = .ok ((), rest) := by
  simp [outcome, keyword, Token.keyword, Token.ofWord, Except.map]

theorem outcome_keyword? (text : String) (rest : List Token) :
    (keyword? text).outcome (.keyword text :: rest) = .ok (true, rest) := by
  simp [outcome, keyword?, Token.keyword, Token.ofWord, Except.map]

/-- Another keyword stays. -/
theorem outcome_keyword?_of_ne {text other : String} (h : other ≠ text) (rest : List Token) :
    (keyword? text).outcome (.keyword other :: rest) = .ok (false, .keyword other :: rest) := by
  simp [outcome, keyword?, Token.keyword, Token.ofWord, Except.map, h]

theorem dropWhile_newline {tokens : List Token} (h : ∀ t ∈ tokens.head?, t.kind ≠ .newline) :
    tokens.dropWhile (fun t => t.kind == .newline) = tokens := by
  cases tokens with
  | nil => rfl
  | cons t tokens => rw [List.dropWhile_cons_of_neg (by simpa using h t rfl)]

theorem outcome_skipNewlines {tokens : List Token}
    (h : ∀ t ∈ tokens.head?, t.kind ≠ .newline) :
    skipNewlines.outcome tokens = .ok ((), tokens) := by
  rw [skipNewlines, outcome_skipWhile, dropWhile_newline h]

/-- A line end is passed over, and nothing else. -/
theorem outcome_skipNewlines_lineEnd {tokens : List Token}
    (h : ∀ t ∈ tokens.head?, t.kind ≠ .newline) :
    skipNewlines.outcome (.lineEnd :: tokens) = .ok ((), tokens) := by
  rw [skipNewlines, outcome_skipWhile, List.dropWhile_cons_of_pos (by rfl), dropWhile_newline h]

/-! ## The first token of a command -/

theorem keywordCommand?_of_not_mem (p : Parser) {t : Token} (h : t.text ∉ keywords) :
    p.keywordCommand? t = none := by
  unfold keywordCommand?
  split
  case h_9 => rfl
  all_goals
    rename_i htext
    rw [htext] at h
    exact absurd (by decide) h

theorem not_mem_misplacedKeywords {text : String} (h : text ∉ keywords) :
    text ∉ misplacedKeywords := by
  have hsub : misplacedKeywords ⊆ keywords := by decide
  exact fun hmem => h (hsub hmem)

theorem atEmptyParens_of_head?_ne {tokens : List Token}
    (h : ∀ t ∈ tokens.head?, t.kind ≠ .openParen) : Along.atEmptyParens tokens = false := by
  cases tokens with
  | nil => rfl
  | cons t tokens => simp [Along.atEmptyParens, h t rfl]

/-- The first token of a simple command is its first item. -/
theorem outcome_simpleCommand (p : Parser) {t : Token}
    (ht : (∃ op, t.kind = .redirect op) ∨ t.kind = .word) (tokens : List Token) :
    (p.simpleCommand t).outcome tokens = (do
      let c ← repeatFrom (⟨[], none, [], [], t.line⟩ : SimpleCommand) p.simpleItem
      pure (Command.simple { c with
        assignments := c.assignments.reverse
        args := c.args.reverse
        redirections := c.redirections.reverse })).outcome (t :: tokens) := by
  obtain ⟨read, hread⟩ : ∃ read, p.simpleItem ⟨[], none, [], [], t.line⟩ t = some read := by
    rcases ht with ⟨op, hop⟩ | hword
    · exact ⟨_, by rw [simpleItem, hop]⟩
    · exact ⟨_, by rw [simpleItem, hword]⟩
  rw [simpleCommand, hread, Option.getD_some, outcome_bind, outcome_bind, outcome_repeatFrom_cons,
    hread]
  dsimp only
  rcases read.outcome tokens with e | ⟨c, rest⟩
  · rfl
  · exact outcome_bind _ _ rest

end Parser

/-- **A level gives back some commands**, each of which is at least one token, and the words between
single quotes. -/
structure Level.ReadsSource (P : Command → Prop) (l : Level) : Prop where
  word {w : Word} : w.IsQuoted → l.parts .unquoted w.raw.toList = .ok w.parts
  starts {c : Command} : P c → StartsCommand c.tokens
  command {c : Command} : P c → ∀ (lastLine : Nat) {rest : List Token}, NextIn commandEnds rest →
    (ofRest (l.command lastLine)).outcome (c.tokens ++ rest) = .ok (c, rest)

namespace Parser.ReadsSource

variable {P : Command → Prop} {p : Parser} (h : p.lower.ReadsSource P)
include h

theorem word {w : Word} (hw : w.IsQuoted) (rest : List Token) :
    (p.word w.raw).outcome rest = .ok (w, rest) := by
  rw [Parser.word, h.word hw]
  obtain ⟨parts, raw⟩ := w
  rfl

/-! ## Redirections and simple commands -/

/-- A redirection is an operator and a word. -/
theorem redirection {r : Redirection} (hr : r.WellFormed) (line : Nat) (rest : List Token) :
    ∃ t text, r.tokens line = [t, .ofWord line text] ∧ t.kind = .redirect r.op ∧
      (p.redirection t r.op).outcome (.ofWord line text :: rest) = .ok (r, rest) := by
  obtain ⟨op, target, descriptor⟩ := r
  obtain ⟨hop, ⟨w, hw, htarget⟩, -, -⟩ := hr
  obtain rfl : target = .word w := htarget
  refine ⟨_, w.raw, rfl, rfl, ?_⟩
  refine (outcome_bind_ok (outcome_expect p (t := .ofWord line w.raw) rfl rest)).trans ?_
  dsimp only
  rw [if_neg (by simpa using hop)]
  exact outcome_bind_ok (word h hw rest)

theorem redirections {list : List Redirection} (hlist : ∀ r ∈ list, r.WellFormed) (line : Nat)
    {rest : List Token} (hrest : NextIn commandEnds rest) :
    p.redirections.outcome (list.flatMap (Redirection.tokens line) ++ rest) = .ok (list, rest) := by
  unfold Parser.redirections
  refine (outcome_bind_ok (outcome_repeatFrom_flatMap (fun _ => True) trivial (fun done t ht => ?_)
    (fun r hr done more _ => ?_) (fun _ _ _ => trivial) [])).trans ?_
  · split
    · next op hkind => exact absurd hkind (hrest.not_redirect t ht op)
    · rfl
  · obtain ⟨t, text, htokens, hkind, hread⟩ := redirection h (hlist r hr) line more
    rw [htokens, List.cons_append, List.singleton_append]
    refine outcome_repeatFrom_turn (by rw [hkind]) ?_
    exact outcome_bind_ok hread
  · simp [outcome]
    rfl

theorem assignment {a : Assignment} (ha : a.WellFormed) {c : SimpleCommand} (hc : c.name = none)
    (rest : List Token) : (p.addWord c a.text).outcome rest =
      .ok ({ c with assignments := a :: c.assignments }, rest) := by
  unfold Parser.addWord
  rw [hc, Assignment.readAssignment?_text ha.name]
  obtain ⟨name, value, append⟩ := a
  cases value with
  | none => rfl
  | some w =>
    have hraw : w.raw ≠ "" := (ha.value w rfl).raw_ne (by decide)
    dsimp only
    rw [if_neg (by simpa using hraw)]
    exact outcome_bind_ok (outcome_map_ok some (word h (ha.value w rfl) rest))

theorem name {w : Word} (hw : w.IsQuoted) {c : SimpleCommand} (hc : c.name = none)
    (rest : List Token) :
    (p.addWord c w.raw).outcome rest = .ok ({ c with name := some w }, rest) := by
  unfold Parser.addWord
  rw [hc, hw.readAssignment?_raw]
  exact outcome_bind_ok (word h hw rest)

theorem argument {w n : Word} (hw : w.IsQuoted) {c : SimpleCommand} (hc : c.name = some n)
    (rest : List Token) :
    (p.addWord c w.raw).outcome rest = .ok ({ c with args := w :: c.args }, rest) := by
  unfold Parser.addWord
  rw [hc]
  exact outcome_bind_ok (word h hw rest)

theorem assignments {list : List Assignment} (hlist : ∀ a ∈ list, a.WellFormed)
    {c : SimpleCommand} (hc : c.name = none) (line : Nat) (rest : List Token) :
    (repeatFrom c p.simpleItem).outcome (list.map (fun a => .ofWord line a.text) ++ rest) =
      (repeatFrom { c with assignments := list.reverse ++ c.assignments } p.simpleItem).outcome
        rest := by
  induction list generalizing c with
  | nil =>
    cases c
    rfl
  | cons a list ih =>
    obtain ⟨ha, hlist⟩ := List.forall_mem_cons.1 hlist
    rw [List.map_cons, List.cons_append, outcome_repeatFrom_turn rfl (assignment h ha hc _),
      ih (c := { c with assignments := a :: c.assignments }) hlist hc]
    simp

theorem arguments {list : List Word} (hlist : ∀ w ∈ list, w.IsQuoted) {c : SimpleCommand}
    {n : Word} (hc : c.name = some n) (line : Nat) (rest : List Token) :
    (repeatFrom c p.simpleItem).outcome (list.map (fun w => .ofWord line w.raw) ++ rest) =
      (repeatFrom { c with args := list.reverse ++ c.args } p.simpleItem).outcome rest := by
  induction list generalizing c with
  | nil =>
    cases c
    rfl
  | cons w list ih =>
    obtain ⟨hw, hlist⟩ := List.forall_mem_cons.1 hlist
    rw [List.map_cons, List.cons_append, outcome_repeatFrom_turn rfl (argument h hw hc _),
      ih (c := { c with args := w :: c.args }) hlist hc]
    simp

theorem redirectionItems {list : List Redirection} (hlist : ∀ r ∈ list, r.WellFormed)
    {c : SimpleCommand} (line : Nat) (rest : List Token) :
    (repeatFrom c p.simpleItem).outcome (list.flatMap (Redirection.tokens line) ++ rest) =
      (repeatFrom { c with redirections := list.reverse ++ c.redirections } p.simpleItem).outcome
        rest := by
  induction list generalizing c with
  | nil =>
    cases c
    rfl
  | cons r list ih =>
    obtain ⟨hr, hlist⟩ := List.forall_mem_cons.1 hlist
    obtain ⟨t, text, htokens, hkind, hread⟩ := redirection h hr line
      (list.flatMap (Redirection.tokens line) ++ rest)
    have hitem : p.simpleItem c t = some (do
        let r ← p.redirection t r.op
        pure { c with redirections := r :: c.redirections }) := by
      rw [Parser.simpleItem, hkind]
    rw [List.flatMap_cons, htokens, List.append_assoc, List.cons_append, List.singleton_append]
    refine (outcome_repeatFrom_turn hitem (outcome_bind_ok hread)).trans ((ih hlist).trans ?_)
    simp

/-- **The items of a simple command** are added one after the other. -/
theorem simpleItems {c : SimpleCommand} (hc : c.WellFormed) {rest : List Token}
    (hrest : NextIn commandEnds rest) :
    (repeatFrom ⟨[], none, [], [], c.line⟩ p.simpleItem).outcome (c.tokens ++ rest) =
      .ok (⟨c.assignments.reverse, c.name, c.args.reverse, c.redirections.reverse, c.line⟩,
        rest) := by
  have hstop (c : SimpleCommand) : ∀ t ∈ rest.head?, p.simpleItem c t = none := by
    intro t ht
    have hkind := hrest t ht
    simp only [commandEnds, pipelineEnds, statementEnds, List.mem_cons, List.not_mem_nil,
      or_false] at hkind
    rcases hkind with hkind | hkind | hkind | hkind | hkind <;> rw [Parser.simpleItem, hkind]
  have hwords (more : List Token) :
      (repeatFrom ⟨c.assignments.reverse, none, [], [], c.line⟩ p.simpleItem).outcome
          ((c.name.toList ++ c.args).map (fun w => .ofWord c.line w.raw) ++ more) =
        (repeatFrom ⟨c.assignments.reverse, c.name, c.args.reverse, [], c.line⟩
          p.simpleItem).outcome more := by
    have hquoted := hc.words
    cases hname : c.name with
    | none => simp [hc.named hname]
    | some n =>
      rw [hname] at hquoted
      obtain ⟨hn, hargs⟩ := List.forall_mem_cons.1 hquoted
      refine (outcome_repeatFrom_turn rfl (name h hn rfl _)).trans
        ((arguments h hargs rfl c.line more).trans ?_)
      simp
  rw [SimpleCommand.tokens, List.append_assoc, List.append_assoc,
    assignments h hc.assignments rfl, List.append_nil, hwords, redirectionItems h hc.redirections,
    outcome_repeatFrom_stop (hstop _), List.append_nil]

/-- **A simple command** is given back. -/
theorem simple {c : SimpleCommand} (hc : c.WellFormed) {rest : List Token}
    (hrest : NextIn commandEnds rest) :
    (ofRest p.command).outcome (c.tokens ++ rest) = .ok (.simple c, rest) := by
  have hitems := simpleItems h hc hrest
  obtain ⟨t, more, htokens⟩ := List.exists_cons_of_ne_nil hc.tokens_ne_nil
  have hall := hc.tokens_spec
  rw [htokens] at hall hitems ⊢
  obtain ⟨⟨hline, hkind⟩, hmore⟩ := List.forall_mem_cons.1 hall
  have hparens : Along.atEmptyParens (more ++ rest) = false := by
    refine atEmptyParens_of_head?_ne fun t' ht' => ?_
    cases more with
    | nil => exact hrest.not_openParen t' ht'
    | cons _ more =>
      cases ht'
      rcases (hmore t' List.mem_cons_self).2 with ⟨op, hop⟩ | ⟨hword, -⟩ <;> simp [*]
  have hsimple : (p.simpleCommand t).outcome (more ++ rest) = .ok (.simple c, rest) := by
    rw [outcome_simpleCommand p (hkind.imp id And.left), hline]
    refine (outcome_bind_ok hitems).trans ?_
    obtain ⟨assignments, name, args, redirections, line⟩ := c
    simp [outcome]
    rfl
  rw [List.cons_append, Along.outcome_command]
  rcases hkind with ⟨op, hop⟩ | ⟨hword, htext⟩
  · simpa only [Parser.commandAfter, hop] using hsimple
  · rw [Along.commandAfter_word hword, keywordCommand?_of_not_mem p htext]
    dsimp only
    rw [if_neg (by simpa using not_mem_misplacedKeywords htext), if_neg (by simp [hparens])]
    exact hsimple

end Parser.ReadsSource

end VirtualShell
