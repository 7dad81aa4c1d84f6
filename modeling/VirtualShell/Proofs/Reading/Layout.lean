import VirtualShell.Proofs.Reading.Reader

/-!
# The layout of a script

A simple command keeps the line it starts on. Apart from these lines a script does not depend on
where it stands, and two scripts that differ in them only are the same up to line numbers.

A parser keeps the lines of tokens for messages and for simple commands, and nothing else depends on
them. Nor does it matter how many line ends stand together. So a reader of tokens may be given the
same tokens on other lines and without empty lines between them, and keeps what it reads if its parts
do.

* `Statement.mapLines`, `Compound.mapLines`, `Command.mapLines` — a script on other lines.
* `Statement.mapLines_id` and the like — a script that stays where it is.
* `Statement.mapAll_eq` and the like — what is done to a list is done to each of its members.
* `Token.condense` — tokens on other lines, with one line end in place of several.
* `Reader.Keeps` — a reader keeps what it reads, and refuses what it refuses.
* **`Reader.Keeps.repeatFrom`** — so do loops whose turns do.
-/

namespace VirtualShell

/-! ## Scripts on other lines -/

section

variable (f : Nat → Nat)

/-- A simple command on another line. -/
def SimpleCommand.mapLine (c : SimpleCommand) : SimpleCommand := { c with line := f c.line }

mutual

/-- A statement on other lines. The scripts inside words have lines of their own. -/
def Statement.mapLines : Statement → Statement
  | ⟨first, rest, background⟩ =>
    ⟨Pipeline.mapLines first, Statement.mapRest rest, background⟩
termination_by structural statement => statement

/-- The pipelines after the first one of a statement on other lines. -/
def Statement.mapRest : List (Connective × Pipeline) → List (Connective × Pipeline)
  | [] => []
  | (connective, pipeline) :: rest =>
    (connective, Pipeline.mapLines pipeline) :: Statement.mapRest rest
termination_by structural rest => rest

/-- Statements on other lines. -/
def Statement.mapAll : List Statement → List Statement
  | [] => []
  | statement :: rest => Statement.mapLines statement :: Statement.mapAll rest
termination_by structural statements => statements

/-- A pipeline on other lines. -/
def Pipeline.mapLines : Pipeline → Pipeline
  | ⟨commands, negated⟩ => ⟨Command.mapAll commands, negated⟩
termination_by structural pipeline => pipeline

/-- Commands on other lines. -/
def Command.mapAll : List Command → List Command
  | [] => []
  | command :: rest => Command.mapLines command :: Command.mapAll rest
termination_by structural commands => commands

/-- A command on other lines. -/
def Command.mapLines : Command → Command
  | .simple c => .simple (c.mapLine f)
  | .compound body redirections => .compound (Compound.mapLines body) redirections
  | .function name body redirections => .function name (Compound.mapLines body) redirections
termination_by structural command => command

/-- A compound command on other lines. -/
def Compound.mapLines : Compound → Compound
  | .ifElse clauses none => .ifElse (Clause.mapAll clauses) none
  | .ifElse clauses (some orElse) =>
    .ifElse (Clause.mapAll clauses) (some (Statement.mapAll orElse))
  | .forEach name words body => .forEach name words (Statement.mapAll body)
  | .forArithmetic init condition update body =>
    .forArithmetic init condition update (Statement.mapAll body)
  | .loop kind condition body => .loop kind (Statement.mapAll condition) (Statement.mapAll body)
  | .case subject items => .case subject (CaseItem.mapAll items)
  | .group body => .group (Statement.mapAll body)
  | .arithmetic expression => .arithmetic expression
  | .test words => .test words
termination_by structural body => body

/-- The clauses of an `if` on other lines. -/
def Clause.mapAll : List Clause → List Clause
  | [] => []
  | ⟨condition, body⟩ :: rest =>
    ⟨Statement.mapAll condition, Statement.mapAll body⟩ :: Clause.mapAll rest
termination_by structural clauses => clauses

/-- The clauses of a `case` on other lines. -/
def CaseItem.mapAll : List CaseItem → List CaseItem
  | [] => []
  | ⟨patterns, body, ending⟩ :: rest =>
    ⟨patterns, Statement.mapAll body, ending⟩ :: CaseItem.mapAll rest
termination_by structural items => items

end

/-- A clause of an `if` on other lines. -/
def Clause.mapLines (clause : Clause) : Clause :=
  ⟨clause.condition.map (Statement.mapLines f), clause.body.map (Statement.mapLines f)⟩

/-- A clause of a `case` on other lines. -/
def CaseItem.mapLines (item : CaseItem) : CaseItem :=
  { item with body := item.body.map (Statement.mapLines f) }

end

/-! ## Every line where it was -/

theorem SimpleCommand.mapLine_id (c : SimpleCommand) : c.mapLine id = c := by
  cases c
  rfl

mutual

theorem Statement.mapLines_id : ∀ statement : Statement, statement.mapLines id = statement
  | ⟨first, rest, _⟩ => by
    rw [Statement.mapLines, Pipeline.mapLines_id first, Statement.mapRest_id rest]
termination_by structural statement => statement

theorem Statement.mapRest_id :
    ∀ rest : List (Connective × Pipeline), Statement.mapRest id rest = rest
  | [] => rfl
  | (_, pipeline) :: rest => by
    rw [Statement.mapRest, Pipeline.mapLines_id pipeline, Statement.mapRest_id rest]
termination_by structural rest => rest

theorem Statement.mapAll_id :
    ∀ statements : List Statement, Statement.mapAll id statements = statements
  | [] => rfl
  | statement :: rest => by
    rw [Statement.mapAll, Statement.mapLines_id statement, Statement.mapAll_id rest]
termination_by structural statements => statements

theorem Pipeline.mapLines_id : ∀ pipeline : Pipeline, pipeline.mapLines id = pipeline
  | ⟨commands, _⟩ => by rw [Pipeline.mapLines, Command.mapAll_id commands]
termination_by structural pipeline => pipeline

theorem Command.mapAll_id : ∀ commands : List Command, Command.mapAll id commands = commands
  | [] => rfl
  | command :: rest => by rw [Command.mapAll, Command.mapLines_id command, Command.mapAll_id rest]
termination_by structural commands => commands

theorem Command.mapLines_id : ∀ command : Command, command.mapLines id = command
  | .simple c => by rw [Command.mapLines, SimpleCommand.mapLine_id c]
  | .compound body _ => by rw [Command.mapLines, Compound.mapLines_id body]
  | .function _ body _ => by rw [Command.mapLines, Compound.mapLines_id body]
termination_by structural command => command

theorem Compound.mapLines_id : ∀ body : Compound, body.mapLines id = body
  | .ifElse clauses none => by rw [Compound.mapLines, Clause.mapAll_id clauses]
  | .ifElse clauses (some orElse) => by
    rw [Compound.mapLines, Clause.mapAll_id clauses, Statement.mapAll_id orElse]
  | .forEach _ _ body => by rw [Compound.mapLines, Statement.mapAll_id body]
  | .forArithmetic _ _ _ body => by rw [Compound.mapLines, Statement.mapAll_id body]
  | .loop _ condition body => by
    rw [Compound.mapLines, Statement.mapAll_id condition, Statement.mapAll_id body]
  | .case _ items => by rw [Compound.mapLines, CaseItem.mapAll_id items]
  | .group body => by rw [Compound.mapLines, Statement.mapAll_id body]
  | .arithmetic _ => rfl
  | .test _ => rfl
termination_by structural body => body

theorem Clause.mapAll_id : ∀ clauses : List Clause, Clause.mapAll id clauses = clauses
  | [] => rfl
  | ⟨condition, body⟩ :: rest => by
    rw [Clause.mapAll, Statement.mapAll_id condition, Statement.mapAll_id body,
      Clause.mapAll_id rest]
termination_by structural clauses => clauses

theorem CaseItem.mapAll_id : ∀ items : List CaseItem, CaseItem.mapAll id items = items
  | [] => rfl
  | ⟨_, body, _⟩ :: rest => by
    rw [CaseItem.mapAll, Statement.mapAll_id body, CaseItem.mapAll_id rest]
termination_by structural items => items

end

/-! ## Lists -/

@[simp] theorem Statement.mapAll_eq (f : Nat → Nat) (statements : List Statement) :
    mapAll f statements = statements.map (mapLines f) := by
  induction statements with
  | nil => rfl
  | cons statement rest ih => rw [mapAll, ih, List.map_cons]

theorem Statement.map_mapLines_id (statements : List Statement) :
    statements.map (mapLines id) = statements :=
  (List.map_congr_left fun statement _ => mapLines_id statement).trans (List.map_id _)

@[simp] theorem Statement.mapRest_eq (f : Nat → Nat) (rest : List (Connective × Pipeline)) :
    mapRest f rest = rest.map (Prod.map id (Pipeline.mapLines f)) := by
  induction rest with
  | nil => rfl
  | cons link rest ih =>
    rw [mapRest, ih, List.map_cons]
    rfl

@[simp] theorem Command.mapAll_eq (f : Nat → Nat) (commands : List Command) :
    mapAll f commands = commands.map (mapLines f) := by
  induction commands with
  | nil => rfl
  | cons command rest ih => rw [mapAll, ih, List.map_cons]

@[simp] theorem Clause.mapAll_eq (f : Nat → Nat) (clauses : List Clause) :
    mapAll f clauses = clauses.map (mapLines f) := by
  induction clauses with
  | nil => rfl
  | cons clause rest ih =>
    obtain ⟨condition, body⟩ := clause
    simp only [mapAll, ih, Statement.mapAll_eq, List.map_cons, mapLines]

@[simp] theorem CaseItem.mapAll_eq (f : Nat → Nat) (items : List CaseItem) :
    mapAll f items = items.map (mapLines f) := by
  induction items with
  | nil => rfl
  | cons item rest ih =>
    obtain ⟨patterns, body, ending⟩ := item
    simp only [mapAll, ih, Statement.mapAll_eq, List.map_cons, mapLines]

@[simp] theorem Compound.mapLines_ifElse (f : Nat → Nat) (clauses : List Clause)
    (orElse : Option (List Statement)) :
    (ifElse clauses orElse).mapLines f =
      .ifElse (clauses.map (Clause.mapLines f)) (orElse.map (List.map (Statement.mapLines f))) := by
  cases orElse <;> simp [mapLines]

open Reader

/-! ## Tokens -/

/-- A token on another line. -/
def Token.mapLine (f : Nat → Nat) (t : Token) : Token := { t with line := f t.line }

@[simp] theorem Token.mapLine_kind (f : Nat → Nat) (t : Token) : (t.mapLine f).kind = t.kind := rfl

@[simp] theorem Token.mapLine_text (f : Nat → Nat) (t : Token) : (t.mapLine f).text = t.text := rfl

@[simp] theorem Token.mapLine_line (f : Nat → Nat) (t : Token) :
    (t.mapLine f).line = f t.line := rfl

@[simp] theorem Token.mapLine_descriptor (f : Nat → Nat) (t : Token) :
    (t.mapLine f).descriptor = t.descriptor := rfl

@[simp] theorem Token.mapLine_hereDocument (f : Nat → Nat) (t : Token) :
    (t.mapLine f).hereDocument = t.hereDocument := rfl

namespace Token

/-- Tokens on other lines. Of line ends that stand together one is kept, and none after a line end
before the tokens. -/
def condenseFrom (f : Nat → Nat) : (after : Bool) → List Token → List Token
  | _, [] => []
  | after, t :: tokens =>
    if t.kind == .newline then
      if after then condenseFrom f true tokens else t.mapLine f :: condenseFrom f true tokens
    else t.mapLine f :: condenseFrom f false tokens

/-- **Tokens on other lines, without empty lines.** -/
def condense (f : Nat → Nat) (tokens : List Token) : List Token := condenseFrom f false tokens

variable {f : Nat → Nat} {t : Token} {tokens : List Token}

@[simp] theorem condense_nil : condense f [] = [] := rfl

theorem condenseFrom_true (tokens : List Token) :
    condenseFrom f true tokens = condense f (tokens.dropWhile fun t => t.kind == .newline) := by
  induction tokens with
  | nil => rfl
  | cons t tokens ih =>
    by_cases ht : t.kind == .newline
    · rw [List.dropWhile_cons, if_pos ht, ← ih, condenseFrom, if_pos ht]
      rfl
    · rw [List.dropWhile_cons, if_neg ht, condense, condenseFrom, condenseFrom, if_neg ht, if_neg ht]

theorem condense_cons (ht : t.kind ≠ .newline) :
    condense f (t :: tokens) = t.mapLine f :: condense f tokens :=
  if_neg (by simpa using ht)

theorem condense_lineEnd (ht : t.kind = .newline) :
    condense f (t :: tokens) =
      t.mapLine f :: condense f (tokens.dropWhile fun t => t.kind == .newline) := by
  rw [← condenseFrom_true]
  exact if_pos (by simp [ht])

/-- Tokens may be moved before their empty lines are left out. -/
theorem condense_map (f : Nat → Nat) (tokens : List Token) :
    condense f tokens = condense id (tokens.map (mapLine f)) := by
  suffices h : ∀ after, condenseFrom f after tokens = condenseFrom id after (tokens.map (mapLine f))
    from h false
  induction tokens with
  | nil => exact fun _ => rfl
  | cons t tokens ih =>
    intro after
    rw [List.map_cons, condenseFrom, condenseFrom, ih true, ih false]
    rfl

/-- A line end after another one is left out. -/
theorem condense_append_lineEnds {t t' : Token} (ht : t.kind = .newline) (ht' : t'.kind = .newline)
    (before rest : List Token) :
    condense f (before ++ t :: t' :: rest) = condense f (before ++ t :: rest) := by
  suffices h : ∀ after, condenseFrom f after (before ++ t :: t' :: rest) =
      condenseFrom f after (before ++ t :: rest) from h false
  induction before with
  | nil =>
    intro after
    simp [condenseFrom, ht, ht']
  | cons x before ih =>
    intro after
    rw [List.cons_append, List.cons_append, condenseFrom, condenseFrom, ih true, ih false]

/-- What comes after the next token is condensed too, unless line ends may be left out there. -/
theorem exists_condense (t : Token) (tokens : List Token) : ∃ rest,
    condense f (t :: tokens) = t.mapLine f :: rest ∧
      (t.kind ≠ .newline → rest = condense f tokens) := by
  by_cases ht : t.kind = .newline
  · exact ⟨_, condense_lineEnd ht, fun hne => absurd ht hne⟩
  · exact ⟨_, condense_cons ht, fun _ => rfl⟩

/-- Line ends are left out wherever they are passed over. -/
theorem condense_dropWhile {p : Token → Bool} (hp : ∀ t, p (t.mapLine f) = p t)
    (hline : ∀ t, t.kind = .newline → p t = true) (tokens : List Token) :
    (condense f tokens).dropWhile p = condense f (tokens.dropWhile p) := by
  suffices h : ∀ after, (condenseFrom f after tokens).dropWhile p =
      condense f (tokens.dropWhile p) from h false
  induction tokens with
  | nil => exact fun _ => rfl
  | cons t tokens ih =>
    intro after
    by_cases ht : t.kind = .newline
    · rw [List.dropWhile_cons_of_pos (hline t ht), condenseFrom, if_pos (by simp [ht])]
      cases after with
      | true => exact ih true
      | false =>
        exact (List.dropWhile_cons_of_pos ((hp t).trans (hline t ht))).trans (ih true)
    · rw [condenseFrom, if_neg (by simpa using ht)]
      by_cases hpt : p t = true
      · rw [List.dropWhile_cons_of_pos hpt, List.dropWhile_cons_of_pos ((hp t).trans hpt)]
        exact ih false
      · rw [List.dropWhile_cons_of_neg hpt, List.dropWhile_cons_of_neg (hp t ▸ hpt),
          condense_cons ht]
        rfl

/-- The next token is the next one on another line. -/
theorem head?_condense (tokens : List Token) :
    (condense f tokens).head? = tokens.head?.map (mapLine f) := by
  cases tokens with
  | nil => rfl
  | cons t tokens =>
    by_cases ht : t.kind = .newline
    · rw [condense_lineEnd ht]
      rfl
    · rw [condense_cons ht]
      rfl

end Token

/-! ## Readers -/

namespace Reader

open Token

variable {α β : Type} (f : Nat → Nat)

/-- **Two outcomes that are the same but for the layout.** -/
def OutcomesKeep (g : α → α) (first second : Except SyntaxError (α × List Token)) : Prop :=
  match first with
  | .error _ => ∃ e, second = .error e
  | .ok (a, rest) => second = .ok (g a, condense f rest)

/-- **The second reader keeps what the first one reads**: given the same tokens in another layout, it
gives the same and leaves the same. -/
def Keeps (g : α → α) (read read' : TokenReader α) : Prop :=
  ∀ tokens, OutcomesKeep f g (read.outcome tokens) (read'.outcome (condense f tokens))

/-- Two turns of a loop: there is none, or the second one keeps what the first one reads. -/
def TurnsKeep (g : α → α) : Option (TokenReader α) → Option (TokenReader α) → Prop
  | none, none => True
  | some read, some read' => Keeps f g read read'
  | _, _ => False

variable {f} {g : α → α} {h : β → β} {read read' : TokenReader α} {F F' : α → TokenReader β}

theorem TurnsKeep.ite {c : Prop} [Decidable c] {x y x' y' : Option (TokenReader α)}
    (hthen : c → TurnsKeep f g x x') (helse : ¬ c → TurnsKeep f g y y') :
    TurnsKeep f g (if c then x else y) (if c then x' else y') := by
  by_cases hc : c
  · rw [if_pos hc, if_pos hc]
    exact hthen hc
  · rw [if_neg hc, if_neg hc]
    exact helse hc

theorem OutcomesKeep.bind {x y : Except SyntaxError (α × List Token)}
    {k k' : α × List Token → Except SyntaxError (β × List Token)} (hxy : OutcomesKeep f g x y)
    (hk : ∀ a rest, x = .ok (a, rest) → OutcomesKeep f h (k (a, rest)) (k' (g a, condense f rest))) :
    OutcomesKeep f h (x >>= k) (y >>= k') := by
  rcases hx : x with e | ⟨a, rest⟩ <;> rw [hx] at hxy
  · obtain ⟨e', rfl⟩ := hxy
    exact ⟨e', rfl⟩
  · rw [show y = _ from hxy]
    exact hk a rest hx

theorem TurnsKeep.getD {x y : Option (TokenReader α)} (hxy : TurnsKeep f g x y)
    (hread : Keeps f g read read') : Keeps f g (x.getD read) (y.getD read') := by
  cases x <;> cases y
  case none.none => exact hread
  case some.some => exact hxy
  all_goals exact hxy.elim

theorem OutcomesKeep.ite {c : Prop} [Decidable c] {x y x' y' : Except SyntaxError (α × List Token)}
    (hthen : c → OutcomesKeep f g x x') (helse : ¬ c → OutcomesKeep f g y y') :
    OutcomesKeep f g (if c then x else y) (if c then x' else y') := by
  by_cases hc : c
  · rw [if_pos hc, if_pos hc]
    exact hthen hc
  · rw [if_neg hc, if_neg hc]
    exact helse hc

namespace Keeps

theorem congr {first second : TokenReader α} (hread : Keeps f g read read')
    (hfirst : first.outcome = read.outcome) (hsecond : second.outcome = read'.outcome) :
    Keeps f g first second := by
  unfold Keeps
  rw [hfirst, hsecond]
  exact hread

theorem ok {a b : α} (hab : b = g a) : Keeps f g (pure a) (pure b) := by
  subst hab
  exact fun _ => rfl

theorem fail (e e' : SyntaxError) : Keeps f g (Reader.fail e) (Reader.fail e') := fun _ => ⟨e', rfl⟩

theorem bind (hread : Keeps f g read read') (hF : ∀ a, Keeps f h (F a) (F' (g a))) :
    Keeps f h (read >>= F) (read' >>= F') := by
  intro tokens
  rw [outcome_bind, outcome_bind]
  exact (hread tokens).bind fun a rest _ => hF a rest

theorem pure_bind {a b : α} (hF : Keeps f h (F a) (F' b)) :
    Keeps f h (pure a >>= F) (pure b >>= F') := by
  refine hF.congr (funext fun items => ?_) (funext fun items => ?_) <;> exact outcome_bind _ _ items

theorem map (hread : Keeps f g read read') {k k' : α → β} (hk : ∀ a, k' (g a) = h (k a)) :
    Keeps f h (k <$> read) (k' <$> read') := by
  change Keeps f h (read >>= fun a => pure (k a)) (read' >>= fun a => pure (k' a))
  exact hread.bind fun a => ok (hk a)

theorem ite {c : Prop} [Decidable c] {other other' : TokenReader α}
    (hthen : c → Keeps f g read read') (helse : ¬ c → Keeps f g other other') :
    Keeps f g (if c then read else other) (if c then read' else other') := by
  by_cases hc : c
  · rw [if_pos hc, if_pos hc]
    exact hthen hc
  · rw [if_neg hc, if_neg hc]
    exact helse hc

theorem skipWhile {p : Token → Bool} (hp : ∀ t, p (t.mapLine f) = p t)
    (hline : ∀ t, t.kind = .newline → p t = true) :
    Keeps f id (skipWhile p) (skipWhile p) := by
  intro tokens
  rw [outcome_skipWhile, outcome_skipWhile, condense_dropWhile hp hline]
  rfl

theorem skipNewlines : Keeps f id skipNewlines skipNewlines :=
  skipWhile (fun _ => rfl) fun t ht => by simp [ht]

theorem skipSeparators : Keeps f id skipSeparators skipSeparators :=
  skipWhile (fun _ => rfl) fun t ht => by simp [ht]

/-- A look at the next token. -/
theorem peek {F F' : Option Token → TokenReader β}
    (hF : ∀ next, Keeps f h (F next) (F' (next.map (mapLine f)))) :
    Keeps f h (Reader.peek >>= F) (Reader.peek >>= F') := by
  intro tokens
  rw [outcome_bind, outcome_bind]
  change OutcomesKeep f h ((F tokens.head?).outcome tokens)
    ((F' (condense f tokens).head?).outcome (condense f tokens))
  rw [head?_condense]
  exact hF tokens.head? tokens

/-- A loop passes over line ends when its turns for them change nothing. -/
theorem outcome_repeatFrom_dropWhile {step : α → Token → Option (TokenReader α)}
    (hpass : ∀ s t, t.kind = .newline → step s t = some (pure s)) (s : α) (tokens : List Token) :
    (repeatFrom s step).outcome (tokens.dropWhile fun t => t.kind == .newline) =
      (repeatFrom s step).outcome tokens := by
  induction tokens with
  | nil => rfl
  | cons t tokens ih =>
    by_cases ht : t.kind == .newline
    · rw [List.dropWhile_cons, if_pos ht, outcome_repeatFrom_cons,
        hpass s t (by simpa using ht)]
      exact ih
    · rw [List.dropWhile_cons, if_neg ht]

/-- What loops do at a line end: they stop, they are refused, or they pass over it. -/
def AtLineEnds (step step' : α → Token → Option (TokenReader α)) : Prop :=
  (∀ s t, t.kind = .newline → step s t = none ∧ step' s t = none) ∨
    (∀ s t, t.kind = .newline →
      ∃ e e', step s t = some (Reader.fail e) ∧ step' s t = some (Reader.fail e')) ∨
    ∀ s t, t.kind = .newline → step s t = some (pure s) ∧ step' s t = some (pure s)

/-- **Loops keep what they read** when their turns do. -/
theorem repeatFrom {step step' : α → Token → Option (TokenReader α)}
    (hstep : ∀ s t, TurnsKeep f g (step s t) (step' (g s) (t.mapLine f)))
    (hline : AtLineEnds step step') (s : α) :
    Keeps f g (repeatFrom s step) (repeatFrom (g s) step') := by
  intro tokens
  induction hn : tokens.length using Nat.strongRecOn generalizing s tokens with
  | ind n ih =>
    subst hn
    cases tokens with
    | nil =>
      rw [outcome_repeatFrom_nil, condense_nil, outcome_repeatFrom_nil]
      rfl
    | cons t tokens =>
      by_cases ht : t.kind = .newline
      · have hfirst := outcome_repeatFrom_cons step s t tokens
        rw [condense_lineEnd ht, outcome_repeatFrom_cons step']
        rcases hline with hnone | hfail | hpass
        · rw [(hnone s t ht).1] at hfirst
          rw [hfirst, (hnone (g s) (t.mapLine f) ht).2]
          change Except.ok _ = _
          rw [condense_lineEnd ht]
        · obtain ⟨e, -, he, -⟩ := hfail s t ht
          obtain ⟨-, e', -, he'⟩ := hfail (g s) (t.mapLine f) ht
          rw [he] at hfirst
          rw [hfirst, he']
          exact ⟨e', rfl⟩
        · rw [(hpass s t ht).1] at hfirst
          rw [hfirst, (hpass (g s) (t.mapLine f) ht).2]
          change OutcomesKeep f g ((Reader.repeatFrom s step).outcome tokens)
            ((Reader.repeatFrom (g s) step').outcome _)
          rw [← outcome_repeatFrom_dropWhile (fun s t ht => (hpass s t ht).1)]
          have hle := (tokens.dropWhile_sublist fun t => t.kind == .newline).length_le
          exact ih _ (Nat.lt_succ_of_le hle) s _ rfl
      · have hturns := hstep s t
        rw [condense_cons ht, outcome_repeatFrom_cons, outcome_repeatFrom_cons]
        rcases hfirst : step s t with - | read <;>
          rcases hsecond : step' (g s) (t.mapLine f) with - | read' <;>
          rw [hfirst, hsecond] at hturns
        case none.none =>
          change Except.ok _ = _
          rw [condense_cons ht]
        case some.some =>
          refine (hturns tokens).bind fun s' rest hrest => ?_
          exact ih rest.length (Nat.lt_succ_of_le (outcome_length_le hrest)) s' rest rfl
        all_goals exact hturns.elim

end Keeps

end Reader

end VirtualShell
