import VirtualShell.Proofs.Session.Plain
import VirtualShell.Proofs.Session.Selection

/-!
# The bodies of a `case`

A `case` looks for the first clause one of whose patterns matches, and runs its body. The way in which
this clause ends says what comes after it: nothing, the body of the next clause without a look at its
patterns, or another search among the clauses after it. Here this is said as a recursion that gives
the bodies that are run. A `case` then does what these bodies do as one list of statements, as long as
its patterns can be expanded without an effect.

* `Word.IsEffectless` — a pattern that can be expanded without an effect.
* `CaseItem.search`, `CaseItem.execute` — the bodies that are run.
* `Course.run` — the run of some bodies one after another.
* **`Compound.run_case`** — the run of a `case`.
-/

namespace VirtualShell

open Run

/-! ## Patterns -/

/-- **A pattern without an effect**: its expansion leaves every shell as it is, also when it fails. -/
def Word.IsEffectless (x : Expander) (word : Word) : Prop :=
  ∀ shell, (word.pattern x shell).2 = shell

/-- A text between single quotes is a pattern without an effect, and so is a parameter. -/
theorem Word.isEffectless_inQuotes (x : Expander) (text : String) :
    (Word.inQuotes text).IsEffectless x := fun _ => rfl

theorem Word.isEffectless_parameter (x : Expander) (name raw : String) :
    (⟨[.parameter name none], raw⟩ : Word).IsEffectless x := by
  intro shell
  simp only [pattern, expand, Part.expandAll, Part.expand, expandParameter, Bool.false_and,
    bind_apply, get_apply]
  rcases shell.parameter? name with f | value <;> rfl

/-- Whether a text matches a pattern, or what keeps this from being told. -/
def Word.verdict (x : Expander) (subject : String) (shell : Shell) (word : Word) :
    Except Interrupt Bool := do
  let pattern ← (word.pattern x shell).1
  (Glob.isMatchOf pattern subject).mapError fun e => .fault (.pattern e)

/-- Whether a text matches a pattern of a clause. The first pattern that it matches counts, or that
keeps this from being told. -/
def CaseItem.verdict (x : Expander) (subject : String) (shell : Shell) (item : CaseItem) :
    Except Interrupt Bool :=
  item.patterns.anyM (Word.verdict x subject shell)

/-- A pattern without an effect is tried at a shell that stays. -/
theorem Word.IsEffectless.verdict_apply {x : Expander} {word : Word} (h : word.IsEffectless x)
    (subject : String) (shell : Shell) :
    (do let pattern ← word.pattern x
        orFault .pattern (Glob.isMatchOf pattern subject) : Run Bool) shell =
      (word.verdict x subject shell, shell) := by
  have hsame : (word.pattern x shell).2 = shell := h shell
  rw [bind_apply, verdict]
  rcases hpattern : word.pattern x shell with ⟨i | pattern, next⟩ <;> rw [hpattern] at hsame <;>
    obtain rfl : next = shell := hsame
  · rfl
  · change orFault .pattern (Glob.isMatchOf pattern subject) next =
      ((Glob.isMatchOf pattern subject).mapError fun e => .fault (.pattern e), next)
    cases Glob.isMatchOf pattern subject <;> rfl

/-- Patterns without an effect are all tried at the same shell. -/
theorem matchesAny_apply {x : Expander} {patterns : List Word}
    (hpatterns : ∀ word ∈ patterns, word.IsEffectless x) (subject : String) (shell : Shell) :
    matchesAny x subject patterns shell =
      (patterns.anyM (Word.verdict x subject shell), shell) := by
  induction patterns with
  | nil => rfl
  | cons word rest ih =>
    have hword := (hpatterns word List.mem_cons_self).verdict_apply subject shell
    have hmatches : matchesAny x subject (word :: rest) = (do
        let holds ← (do
          let pattern ← word.pattern x
          orFault .pattern (Glob.isMatchOf pattern subject))
        if holds then return true else matchesAny x subject rest) := by
      rw [bind_assoc]
      rfl
    rw [hmatches, bind_apply, hword, List.anyM]
    rcases word.verdict x subject shell with i | _ | _
    · rfl
    · exact ih fun word hword => hpatterns word (List.mem_cons_of_mem _ hword)
    · rfl

/-! ## The bodies -/

/-- **What a `case` does with its clauses**: the bodies that are run, one after another, and what keeps
it from looking for more of them when a pattern cannot be tried. -/
structure Course where
  bodies : List (List Statement)
  broken : Option Interrupt

namespace Course

/-- Nothing is run. -/
def ended : Course := ⟨[], none⟩

/-- A body is run before the others. -/
def after (body : List Statement) (c : Course) : Course := { c with bodies := body :: c.bodies }

/-- **Bodies are run** as one list of statements, after something was written already. -/
def run (r : Runner) (c : Course) (o : Outcome) : Run Outcome := do
  let o ← Statement.runAll r o c.bodies.flatten
  match c.broken with
  | none => return o
  | some i => throw i

end Course

namespace CaseItem

variable (r : Runner) (subject : String)

mutual

/-- **A search among clauses**: the first one that has a pattern which matches is executed. -/
def search : List CaseItem → Shell → Course
  | [], _ => .ended
  | item :: rest, shell =>
    match item.verdict r.expander subject shell with
    | .ok true => execute item rest shell
    | .ok false => search rest shell
    | .error i => ⟨[], some i⟩
termination_by items => (items.length, 0)

/-- **The execution of a clause**, with the clauses after it. A body that is left leaves the `case`. -/
def execute (item : CaseItem) (rest : List CaseItem) (shell : Shell) : Course :=
  .after item.body <|
    match Statement.runAll r .success item.body shell with
    | (.error _, _) => .ended
    | (.ok _, next) =>
      match item.ending, rest with
      | .stop, _ => .ended
      | .fallThrough, [] => .ended
      | .fallThrough, item :: rest => execute item rest next
      | .resume, rest => search rest next
termination_by (rest.length, 1)
decreasing_by
  · exact Prod.Lex.left _ _ (Nat.lt_succ_self _)
  · exact Prod.Lex.right _ Nat.zero_lt_one

end

end CaseItem

/-! ## Runs of bodies -/

/-- What was written before statements, and the status before them, do not matter for the way they
end and for the shell they leave. -/
theorem Statement.runAll_cases (r : Runner) (o o' : Outcome) (statements : List Statement)
    (shell : Shell) :
    (∃ i i' next, runAll r o statements shell = (.error i, next) ∧
        runAll r o' statements shell = (.error i', next)) ∨
      ∃ a a' next, runAll r o statements shell = (.ok a, next) ∧
        runAll r o' statements shell = (.ok a', next) := by
  induction statements generalizing o o' shell with
  | nil => exact .inr ⟨o, o', shell, rfl, rfl⟩
  | cons statement rest ih =>
    rw [runAll, runAll, bind_apply, bind_apply, after, after]
    rcases statement.run r shell with ⟨i | new, next⟩
    · exact .inl ⟨_, _, next, rfl, rfl⟩
    · exact ih (new.after o.output) (new.after o'.output) next

theorem Statement.runAll_append (r : Runner) (o : Outcome) (first second : List Statement) :
    runAll r o (first ++ second) = (do
      let o ← runAll r o first
      runAll r o second) := by
  induction first generalizing o with
  | nil => simp [runAll]
  | cons statement first ih => simp [runAll, ih]

/-- **Bodies run to their ends** one after another, and write something one after another. -/
inductive Course.Complete (r : Runner) (final : Shell) :
    List (List Statement) → Shell → (written : Output) → Prop
  | nil : Complete r final [] final .empty
  | cons {body : List Statement} {bodies : List (List Statement)} {shell next : Shell}
      {own written : Output} (hbody : Statement.Complete r next body shell own)
      (hrest : Complete r final bodies next written) :
      Complete r final (body :: bodies) shell (own ++ written)

namespace Course

variable {r : Runner}

theorem run_ended (o : Outcome) (shell : Shell) : ended.run r o shell = (.ok o, shell) := rfl

/-- A body is run, and then the others. -/
theorem run_after (body : List Statement) (c : Course) (o : Outcome) :
    (c.after body).run r o = (do
      let o ← Statement.runAll r o body
      c.run r o) := by
  simp [run, after, Statement.runAll_append]

/-- **What bodies write** that run to their ends. -/
theorem exists_complete {c : Course} {o o' : Outcome} {shell final : Shell}
    (h : c.run r o shell = (.ok o', final)) :
    c.broken = none ∧ ∃ written, Complete r final c.bodies shell written ∧
      o'.output = o.output ++ written := by
  obtain ⟨bodies, broken⟩ := c
  induction bodies generalizing o shell with
  | nil =>
    cases broken with
    | none =>
      cases h
      exact ⟨rfl, .empty, .nil, by simp⟩
    | some i => cases h
  | cons body bodies ih =>
    have hafter : (⟨body :: bodies, broken⟩ : Course) = Course.after body ⟨bodies, broken⟩ := rfl
    rw [hafter, run_after, bind_apply] at h
    rcases hbody : Statement.runAll r o body shell with ⟨i | a, next⟩ <;> rw [hbody] at h
    · cases h
    · obtain ⟨own, hown, ha⟩ := Statement.exists_complete hbody
      obtain ⟨hbroken, written, hwritten, ho'⟩ := ih h
      exact ⟨hbroken, own ++ written, .cons hown hwritten, by rw [ho', ha, Output.append_assoc]⟩

end Course

namespace CaseItem

variable {r : Runner} {subject : String} {item : CaseItem} {rest items : List CaseItem}

/-- A clause that is chosen is executed, when the recursion is right about the clauses after it. -/
theorem runFrom_of_chosen {through : Bool} {shell : Shell}
    (hchosen : choice r subject through item.patterns shell = (.ok true, shell))
    (hsearch : ∀ o shell,
      runFrom r subject false o rest shell = (search r subject rest shell).run r o shell)
    (hexecute : ∀ next rest', rest = next :: rest' → ∀ o shell,
      runFrom r subject true o rest shell = (execute r subject next rest' shell).run r o shell)
    (o : Outcome) :
    runFrom r subject through o (item :: rest) shell =
      (execute r subject item rest shell).run r o shell := by
  rw [runFrom_cons, hchosen, execute, Course.run_after, bind_apply]
  rcases Statement.runAll_cases r o .success item.body shell with
    ⟨i, i', next, hbody, hbody'⟩ | ⟨a, a', next, hbody, hbody'⟩
  · simp only [hbody]
  · simp only [hbody, hbody']
    cases item.ending with
    | stop => rfl
    | fallThrough =>
      cases rest with
      | nil => rfl
      | cons item' rest' => exact hexecute item' rest' rfl a next
    | resume => exact hsearch a next

/-- **The loop over the clauses does what the recursion says**: it searches, and after a clause that
fell through it executes the next one. -/
theorem runFrom_eq
    (hitems : ∀ item ∈ items, ∀ pattern ∈ item.patterns, pattern.IsEffectless r.expander) :
    (∀ o shell,
      runFrom r subject false o items shell = (search r subject items shell).run r o shell) ∧
    ∀ item rest, items = item :: rest → ∀ o shell,
      runFrom r subject true o items shell = (execute r subject item rest shell).run r o shell := by
  induction items with
  | nil =>
    refine ⟨fun o shell => ?_, nofun⟩
    rw [search]
    rfl
  | cons item rest ih =>
    obtain ⟨hsearch, hexecute⟩ := ih fun item hitem => hitems item (List.mem_cons_of_mem _ hitem)
    constructor
    · intro o shell
      have hchoice : choice r subject false item.patterns shell =
          (item.verdict r.expander subject shell, shell) :=
        matchesAny_apply (hitems item List.mem_cons_self) subject shell
      rw [search]
      rcases hverdict : item.verdict r.expander subject shell with i | _ | _ <;>
        rw [hverdict] at hchoice
      · rw [runFrom_cons, hchoice]
        rfl
      · rw [runFrom_cons, hchoice]
        exact hsearch o shell
      · exact runFrom_of_chosen hchoice hsearch hexecute o
    · rintro _ _ ⟨⟩ o shell
      exact runFrom_of_chosen rfl hsearch hexecute o

/-- Where no clause has a pattern that matches nothing is run. -/
theorem search_eq_ended {shell : Shell}
    (h : ∀ item ∈ items, item.verdict r.expander subject shell = .ok false) :
    search r subject items shell = .ended := by
  induction items with
  | nil => rw [search]
  | cons item rest ih =>
    rw [search, h item List.mem_cons_self]
    exact ih fun item hitem => h item (List.mem_cons_of_mem _ hitem)

end CaseItem

/-! ## The run -/

/-- **A `case` runs the right bodies.** Once its subject is expanded, a `case` whose patterns have no
effect does what the bodies do that the recursion gives, run as one list of statements. When it comes
to its end, each of them did, and what they wrote one after another is what it has written. When no
clause has a pattern that matches, nothing is written and the status is zero. -/
theorem Compound.run_case (r : Runner) (subject : Word) (items : List CaseItem)
    (hitems : ∀ item ∈ items, ∀ pattern ∈ item.patterns, pattern.IsEffectless r.expander)
    (shell : Shell) :
    (∀ i next, subject.text r.expander shell = (.error i, next) →
      Compound.run r (.case subject items) shell = (.error i, next)) ∧
    ∀ text next, subject.text r.expander shell = (.ok text, next) →
      let course := CaseItem.search r text items next
      Compound.run r (.case subject items) shell = course.run r .success next ∧
      (∀ o final, Compound.run r (.case subject items) shell = (.ok o, final) →
        course.broken = none ∧ Course.Complete r final course.bodies next o.output) ∧
      ((∀ item ∈ items, item.verdict r.expander text next = .ok false) →
        Compound.run r (.case subject items) shell = (.ok .success, next)) := by
  refine ⟨fun i next hsubject => ?_, fun text next hsubject => ?_⟩
  · rw [Compound.run, bind_apply, hsubject]
  · have hrun : Compound.run r (.case subject items) shell =
        (CaseItem.search r text items next).run r .success next := by
      rw [Compound.run, bind_apply, hsubject]
      exact (CaseItem.runFrom_eq hitems).1 .success next
    refine ⟨hrun, fun o final hok => ?_, fun hnone => ?_⟩
    · obtain ⟨hbroken, written, hcomplete, hwritten⟩ := Course.exists_complete (hrun.symm.trans hok)
      have hempty : Outcome.success.output = .empty := rfl
      rw [hempty, Output.empty_append] at hwritten
      exact ⟨hbroken, hwritten ▸ hcomplete⟩
    · rw [hrun, CaseItem.search_eq_ended hnone, Course.run_ended]

namespace Chain

/-- A runner and a shell without variables. -/
def runner : Runner := .ofLimits .standard Utility.all

def shell : Shell := .start .bare "/" (.ofGlobals [] []) (.ofClock ⟨0, 0⟩)

def echo (text : String) : Statement := Parser.statementOf (.simple (.plain "echo" [text]))

/-- The clauses of
`case a in a) x=a; echo 1 ;;& b) echo 2 ;; $x) echo 3 ;& b) echo 4 ;; a) echo 5 ;; esac`. -/
def items : List CaseItem :=
  let assign : SimpleCommand := ⟨[⟨"x", some (.inQuotes "a"), false⟩], none, [], [], 1⟩
  [⟨[.inQuotes "a"], [Parser.statementOf (.simple assign), echo "1"], .resume⟩,
    ⟨[.inQuotes "b"], [echo "2"], .stop⟩,
    ⟨[⟨[.parameter "x" none], "$x"⟩], [echo "3"], .fallThrough⟩,
    ⟨[.inQuotes "b"], [echo "4"], .stop⟩,
    ⟨[.inQuotes "a"], [echo "5"], .stop⟩]

end Chain

/-- The body of a clause makes the pattern of a later one match, which falls through. -/
theorem Compound.run_case_chain :
    (∀ item ∈ Chain.items, ∀ pattern ∈ item.patterns,
      pattern.IsEffectless Chain.runner.expander) ∧
    (CaseItem.search Chain.runner "a" Chain.items Chain.shell).bodies.length = 3 ∧
    ∃ o final, Compound.run Chain.runner (.case (.inQuotes "a") Chain.items) Chain.shell =
        (.ok o, final) ∧
      o = ⟨⟨"1\n3\n4\n", ""⟩, 0⟩ ∧
      Course.Complete Chain.runner final
        (CaseItem.search Chain.runner "a" Chain.items Chain.shell).bodies Chain.shell o.output := by
  have hitems : ∀ item ∈ Chain.items, ∀ pattern ∈ item.patterns,
      pattern.IsEffectless Chain.runner.expander := by
    simp [Chain.items, Word.isEffectless_inQuotes, Word.isEffectless_parameter]
  have hword : (Word.inQuotes "a").text Chain.runner.expander = pure "a" := Word.text_quoted ..
  have hsubject : (Word.inQuotes "a").text Chain.runner.expander Chain.shell =
      (.ok "a", Chain.shell) := by
    rw [hword]
    rfl
  have hrun : (Compound.run Chain.runner (.case (.inQuotes "a") Chain.items) Chain.shell).1 =
      .ok ⟨⟨"1\n3\n4\n", ""⟩, 0⟩ := by cbv
  obtain ⟨-, hcomplete, -⟩ :=
    (Compound.run_case Chain.runner (.inQuotes "a") Chain.items hitems Chain.shell).2 _ _ hsubject
  refine ⟨hitems, by cbv, _, _, Prod.ext hrun rfl, rfl, ?_⟩
  exact (hcomplete _ _ (Prod.ext hrun rfl)).2

end VirtualShell
