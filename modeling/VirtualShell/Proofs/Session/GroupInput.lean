import Mathlib
import VirtualShell.Proofs.Limits.Unfolding
import VirtualShell.Proofs.Step.Blind
import VirtualShell.Session

/-!
# What the commands of a group read

A compound command that is given a text hands it on: the first stage of every pipeline directly in
it reads this text. That is said by here-documents, which change nothing where they are put before
the redirections of these stages. What the group around the command reads makes no difference then.
An empty text is not handed on, and the commands read what the group around them reads.

* `Compound.fed` — a compound command whose first stages have a here-document.
* `Runner.inputOf?` — what the redirections of a command leave it to read.
* `SimpleCommand.Calling` — what the words, redirections and assignments of a call come to.
* **`Runner.reads_given`** — what is read in compound commands and functions.
-/

namespace VirtualShell

open Run Streams

/-! ## Here-documents -/

/-- A here-document of a text that is not expanded. -/
def Redirection.ofText (text : String) : Redirection where
  op := .hereDocument
  target := .hereDocument "EOF" ⟨[.quoted text], text⟩ true false
  descriptor := none

namespace Streams

variable (x : Expander)

theorem redirect_ofText (s : Streams) (text : String) :
    s.redirect x (.ofText text) = pure { s with input := text } := by
  simp only [redirect, Redirection.ofText, Word.text_quoted]
  rfl

/-- After a here-document the input that was there before is not read. -/
theorem ofRedirections_ofText (redirections : List Redirection) (text input : String) :
    ofRedirections x (.ofText text :: redirections) input = ofRedirections x redirections text := by
  rw [ofRedirections, List.foldlM_cons, redirect_ofText, pure_bind]
  rfl

/-! ## Outputs do not depend on the input -/

theorem reading_outputs (s : Streams) (descriptor : Option Nat) (content : String) :
    (s.reading descriptor content).outputs = s.outputs := by
  unfold reading
  split <;> rfl

theorem duplicate_outputs (s : Streams) (input : String) (descriptor : Nat) (name : String) :
    outputs <$> duplicate { s with input } descriptor name =
      outputs <$> duplicate s descriptor name := by
  unfold duplicate
  split
  · rfl
  · simp only [map_bind]
    congr 1
    funext source
    split
    · rfl
    · split <;> rfl

theorem redirectTo_outputs (s : Streams) (input : String) (op : RedirectOp)
    (descriptor : Option Nat) (name : String) :
    outputs <$> redirectTo { s with input } op descriptor name =
      outputs <$> redirectTo s op descriptor name := by
  cases op with
  | input | hereString | hereDocument | hereDocumentTabs =>
    simp only [redirectTo, map_bind, map_pure, reading_outputs]
  | output | clobber | append | bothOutput | bothAppend =>
    simp only [redirectTo, redirectTo.both, map_bind, map_pure, lead]
  | duplicateOutput =>
    simp only [redirectTo, redirectTo.both]
    split
    · exact duplicate_outputs s input _ name
    · split
      · simp only [map_bind, map_pure, lead]
      · rfl
  | duplicateInput =>
    simp only [redirectTo]
    split
    · exact duplicate_outputs s input _ name
    · rfl

/-- **The destinations of a command** are the same whatever it reads. -/
theorem ofRedirections_outputs (redirections : List Redirection) (input input' : String) :
    outputs <$> ofRedirections x redirections input =
      outputs <$> ofRedirections x redirections input' := by
  have hfold (s : Streams) (input : String) :
      outputs <$> redirections.foldlM (redirect x) { s with input } =
        outputs <$> redirections.foldlM (redirect x) s := by
    induction redirections generalizing s input with
    | nil => simp only [List.foldlM_nil, map_pure]
    | cons redirection rest ih =>
      -- what follows depends on the destinations only
      have hrest (s : Streams) : outputs <$> rest.foldlM (redirect x) s =
          outputs <$> rest.foldlM (redirect x) ⟨"", s.outputs⟩ := (ih s "").symm
      simp only [List.foldlM_cons, map_bind, redirect]
      simp only [bind_assoc]
      congr 1
      funext name
      have hredirect := congrArg (· >>= fun o => outputs <$> rest.foldlM (redirect x) ⟨"", o⟩)
        (redirectTo_outputs s input redirection.op redirection.descriptor name)
      simp only [bind_map_left] at hredirect
      simpa only [← hrest] using hredirect
  exact (hfold (ofInput input') input)

end Streams

/-- A command that does not look at its input does the same whatever the input is. -/
theorem Run.redirected_input (x : Expander) (redirections : List Redirection)
    {run : Streams → Run Outcome} (hrun : ∀ s input, run { s with input } = run s)
    (input input' : String) :
    redirected x redirections input run = redirected x redirections input' run := by
  have hredirected (input : String) : redirected x redirections input run =
      (outputs <$> Streams.ofRedirections x redirections input).run >>= fun result =>
        match result with
        | .ok outputs => run ⟨"", outputs⟩
        | .error e => return .failure (e.message ++ "\n") 1 := by
    rw [redirected, ExceptT.run_map, bind_map_left]
    congr 1
    funext result
    cases result with
    | ok streams => exact (hrun streams "").symm
    | error e => rfl
  rw [hredirected, hredirected, Streams.ofRedirections_outputs]

/-! ## Handing a text over -/

/-- A command that is handed a text: a here-document comes before its redirections. A definition of
a function reads nothing. -/
def Command.fed (text : String) : Command → Command
  | .simple c => .simple { c with redirections := .ofText text :: c.redirections }
  | .compound body redirections => .compound body (.ofText text :: redirections)
  | .function name body redirections => .function name body redirections

/-- A pipeline whose first stage is handed a text. -/
def Pipeline.fed (text : String) (pipeline : Pipeline) : Pipeline where
  commands :=
    match pipeline.commands with
    | [] => []
    | command :: rest => command.fed text :: rest
  negated := pipeline.negated

def Statement.fed (text : String) (statement : Statement) : Statement where
  first := statement.first.fed text
  rest := statement.rest.map fun (connective, pipeline) => (connective, pipeline.fed text)
  background := statement.background

def Clause.fed (text : String) (clause : Clause) : Clause where
  condition := clause.condition.map (Statement.fed text)
  body := clause.body.map (Statement.fed text)

def CaseItem.fed (text : String) (item : CaseItem) : CaseItem :=
  { item with body := item.body.map (Statement.fed text) }

/-- **A compound command that hands a text to the first stages** of the pipelines directly in it. -/
def Compound.fed (text : String) : Compound → Compound
  | .ifElse clauses orElse =>
    .ifElse (clauses.map (Clause.fed text)) (orElse.map (·.map (Statement.fed text)))
  | .forEach name words body => .forEach name words (body.map (Statement.fed text))
  | .forArithmetic init condition update body =>
    .forArithmetic init condition update (body.map (Statement.fed text))
  | .loop kind condition body =>
    .loop kind (condition.map (Statement.fed text)) (body.map (Statement.fed text))
  | .case subject items => .case subject (items.map (CaseItem.fed text))
  | .group body => .group (body.map (Statement.fed text))
  | .arithmetic expression => .arithmetic expression
  | .test words => .test words

theorem Runner.assignments_fed (r : Runner) (c : SimpleCommand) (text : String) :
    r.assignments { c with redirections := .ofText text :: c.redirections } = r.assignments c := by
  unfold assignments
  congr 1
  funext status
  rw [Run.redirected, Streams.ofRedirections_ofText]
  exact Run.redirected_input r.expander c.redirections (fun _ _ => rfl) text ""

/-- **A command that is handed a text** does what it does when it is given this text. -/
theorem Command.run_fed (r : Runner) (command : Command) (text input : String) :
    (command.fed text).run r input = command.run r text := by
  cases command with
  | simple c =>
    have hsimple : r.simple { c with redirections := .ofText text :: c.redirections } input =
        r.simple c text := by
      unfold Runner.simple
      congr 1
      funext words
      cases words with
      | nil => exact r.assignments_fed c text
      | cons name arguments => simp only [Run.redirected, Streams.ofRedirections_ofText]
    simp only [fed, Command.run, hsimple]
  | compound body redirections =>
    simp only [fed, Command.run, Run.redirected, Streams.ofRedirections_ofText]
  | function name body redirections => rfl

theorem Command.label_fed (command : Command) (text : String) :
    (command.fed text).label = command.label := by
  cases command <;> rfl

/-! ## The same input -/

namespace Run

variable {α β : Type} {input : Option String} {x y : Run α}

/-- **Two steps that are the same where the group reads an input**, and that leave it this input. -/
def SameReading (input : Option String) (x y : Run α) : Prop :=
  ∀ shell : Shell, shell.groupInput = input → x shell = y shell ∧ (x shell).2.groupInput = input

theorem Confined.sameReading {e : Escapes} (hx : Confined e x) (input : Option String) :
    SameReading input x x :=
  fun shell h => ⟨rfl, (congrArg Frame.groupInput (hx shell).1).trans h⟩

theorem Tame.sameReading (hx : Tame x) (input : Option String) : SameReading input x x :=
  (hx.confined Escapes.isRegular_calm).sameReading input

namespace SameReading

theorem bind {f g : α → Run β} (hxy : SameReading input x y)
    (hfg : ∀ a, SameReading input (f a) (g a)) : SameReading input (x >>= f) (y >>= g) := by
  intro shell h
  obtain ⟨heq, hkeep⟩ := hxy shell h
  rw [bind_apply, bind_apply, ← heq]
  rcases hx : x shell with ⟨i | a, next⟩
  · rw [hx] at hkeep
    exact ⟨rfl, hkeep⟩
  · rw [hx] at hkeep
    exact hfg a next hkeep

theorem handle {h : Interrupt → Run α} (hxy : SameReading input x y)
    (hh : ∀ i, SameReading input (h i) (h i)) :
    SameReading input (tryCatch x h) (tryCatch y h) := by
  intro shell hshell
  obtain ⟨heq, hkeep⟩ := hxy shell hshell
  rw [tryCatch_apply, tryCatch_apply, ← heq]
  rcases hx : x shell with ⟨i | a, next⟩
  · rw [hx] at hkeep
    exact hh i next hkeep
  · rw [hx] at hkeep
    exact ⟨rfl, hkeep⟩

theorem after (earlier : Output) (hxy : SameReading input x y) :
    SameReading input (after earlier x) (after earlier y) := by
  rw [after_eq_tryCatch, after_eq_tryCatch]
  exact hxy.handle fun i shell h => ⟨rfl, h⟩

theorem ite {c : Prop} [Decidable c] {x' y' : Run α} (hxy : SameReading input x y)
    (hxy' : SameReading input x' y') :
    SameReading input (if c then x else x') (if c then y else y') := by
  split
  · exact hxy
  · exact hxy'

theorem pure (a : α) : SameReading input (Pure.pure a : Run α) (Pure.pure a) :=
  (tame_pure a).sameReading input

end SameReading

end Run

/-! ## Loops -/

namespace Loop

variable {input : Option String}

theorem sameReading_inside {α : Type} {x y : Run α} (hxy : SameReading input x y) :
    SameReading input (inside x) (inside y) := by
  intro shell h
  obtain ⟨heq, hkeep⟩ := hxy
    { shell with loopDepth := shell.loopDepth + 1, usage := shell.usage.enterLoop } h
  simp only [inside, during, heq]
  exact ⟨trivial, heq ▸ hkeep⟩

theorem sameReading_part {body body' : Output → Run Outcome}
    (hbody : ∀ o, SameReading input (body o) (body' o)) (written : Output) :
    SameReading input (part written body) (part written body') := by
  refine ((hbody written).bind fun _ => .pure _).handle fun i shell h => ⟨rfl, ?_⟩
  have hpass (signal : Nat → Signal) (levels : Nat) (output : Output) (ending : Ending) :
      (passOn signal levels output ending shell).2.groupInput = input := by
    rw [(passOn_spec signal levels output ending shell).1, h]
  rcases i with ⟨levels | levels | status | status | excess, output⟩ | fault
  case signal.break => exact hpass .break levels output .left
  case signal.continue => exact hpass .continue levels output .skipped
  all_goals exact h

theorem sameReading_overValues (limits : Limits) (name : String)
    {body body' : Output → Run Outcome} (hbody : ∀ o, SameReading input (body o) (body' o))
    (left : Nat) (o : Outcome) (values : List String) :
    SameReading input (overValues limits name body left o values)
      (overValues limits name body' left o values) := by
  induction values generalizing left o with
  | nil => cases left <;> exact .pure o
  | cons value values ih =>
    cases left with
    | zero => exact (tame_excess _ _).sameReading input
    | succ left =>
      refine ((tame_setVariable name value).sameReading input).bind fun _ =>
        (confined_beginTurn.sameReading input).bind fun _ =>
          (sameReading_part hbody o.output).bind fun ⟨ending, written⟩ => ?_
      cases ending with
      | left => exact .pure _
      | complete status => exact ih _ _
      | skipped => exact ih _ _

/-- Two loops with a condition whose parts do the same where the group reads an input. -/
structure Conditional.SameReading (input : Option String) (l m : Conditional) : Prop where
  kind : l.kind = m.kind
  decide : ∀ o, Run.SameReading input (l.decide o) (m.decide o)
  body : ∀ o, Run.SameReading input (l.body o) (m.body o)
  step : Run.SameReading input l.step m.step

theorem Conditional.SameReading.turn {l m : Conditional} (hlm : l.SameReading input m)
    (decision : Decision) (o : Outcome) :
    Run.SameReading input (l.turn decision o) (m.turn decision o) := by
  cases decision with
  | stop => exact .pure _
  | skip => exact .pure _
  | enter =>
    refine (confined_beginTurn.sameReading input).bind fun _ =>
      (sameReading_part hlm.body o.output).bind fun ⟨ending, written⟩ => ?_
    exact .ite (.pure _) ((hlm.step.after written).bind fun _ => .pure _)

theorem Conditional.SameReading.go {l m : Conditional} (hlm : l.SameReading input m)
    (limits : Limits) (left : Nat) (o : Outcome) :
    Run.SameReading input (l.go limits left o) (m.go limits left o) := by
  induction left generalizing o with
  | zero =>
    refine (hlm.decide _).bind fun ⟨decision, written⟩ => .ite (.pure _) ?_
    rw [hlm.kind]
    exact (tame_excess _ _).sameReading input
  | succ left ih =>
    refine (hlm.decide _).bind fun ⟨decision, written⟩ =>
      (hlm.turn decision _).bind fun ⟨goesOn, next⟩ => .ite (ih next) (.pure _)

theorem Conditional.SameReading.run {l m : Conditional} (hlm : l.SameReading input m)
    (limits : Limits) : Run.SameReading input (l.run limits) (m.run limits) :=
  sameReading_inside (hlm.go limits _ _)

theorem sameReading_decideByStatus (untilTrue : Bool) {condition condition' : Output → Run Outcome}
    (hcondition : ∀ o, Run.SameReading input (condition o) (condition' o)) (written : Output) :
    Run.SameReading input (decideByStatus untilTrue condition written)
      (decideByStatus untilTrue condition' written) := by
  refine (sameReading_part hcondition written).bind fun ⟨ending, written⟩ => ?_
  cases ending with
  | left => exact .pure _
  | skipped => exact .pure _
  | complete status => exact .ite (.pure _) (.pure _)

end Loop

/-! ## What is directly in a compound command -/

section

variable {limits : Limits} {r : Runner} (hr : r.Related confinement limits r)
  (input : Option String)
include hr

theorem Pipeline.sameReading_fed (pipeline : Pipeline) :
    SameReading input (pipeline.run r) ((pipeline.fed (input.getD "")).run r) := by
  have hconfined : Confined .command (pipeline.run r) :=
    Pipeline.run_related (isClosed_confinement limits) hr pipeline
  intro shell h
  refine ⟨?_, (hconfined.sameReading input shell h).2⟩
  obtain ⟨commands, negated⟩ := pipeline
  cases commands with
  | nil => rfl
  | cons command rest =>
    simp only [Pipeline.run, Pipeline.fed, bind_apply, get_apply, h, Command.runStages,
      Command.run_fed, Command.label_fed, List.length_cons]

theorem Statement.sameReading_runRest (o : Outcome) (rest : List (Connective × Pipeline)) :
    SameReading input (Statement.runRest r o rest) (Statement.runRest r o
      (rest.map fun (connective, pipeline) => (connective, pipeline.fed (input.getD "")))) := by
  induction rest generalizing o with
  | nil => exact .pure o
  | cons next rest ih =>
    obtain ⟨connective, pipeline⟩ := next
    exact .ite (ih o) <| ((pipeline.sameReading_fed hr input).after o.output).bind fun _ => ih _

theorem Statement.sameReading_fed (statement : Statement) :
    SameReading input (statement.run r) ((statement.fed (input.getD "")).run r) := by
  obtain ⟨first, rest, background⟩ := statement
  rw [Statement.fed, Statement.run_eq, Statement.run_eq]
  exact ((confined_accept r.limits).sameReading input).bind fun _ =>
    (first.sameReading_fed hr input).bind fun o => Statement.sameReading_runRest hr input o rest

theorem Statement.sameReading_runAll (o : Outcome) (statements : List Statement) :
    SameReading input (Statement.runAll r o statements)
      (Statement.runAll r o (statements.map (Statement.fed (input.getD "")))) := by
  induction statements generalizing o with
  | nil => exact .pure o
  | cons statement rest ih =>
    exact ((statement.sameReading_fed hr input).after o.output).bind fun _ => ih _

theorem Clause.sameReading_runFirst {otherwise otherwise' : Output → Run Outcome}
    (hotherwise : ∀ o, SameReading input (otherwise o) (otherwise' o)) (written : Output)
    (clauses : List Clause) :
    SameReading input (Clause.runFirst r otherwise written clauses)
      (Clause.runFirst r otherwise' written (clauses.map (Clause.fed (input.getD "")))) := by
  induction clauses generalizing written with
  | nil => exact hotherwise written
  | cons clause rest ih =>
    obtain ⟨condition, body⟩ := clause
    exact (Statement.sameReading_runAll hr input _ condition).bind fun o =>
      .ite (Statement.sameReading_runAll hr input _ body) (ih _)

theorem CaseItem.sameReading_runFrom (subject : String) (through : Bool) (o : Outcome)
    (items : List CaseItem) :
    SameReading input (CaseItem.runFrom r subject through o items)
      (CaseItem.runFrom r subject through o (items.map (CaseItem.fed (input.getD "")))) := by
  induction items generalizing through o with
  | nil => exact .pure o
  | cons item rest ih =>
    obtain ⟨patterns, body, ending⟩ := item
    have hmatch : Confined .calm (matchesAny r.expander subject patterns) :=
      matchesAny_related (isClosed_confinement limits) hr.expander subject patterns
    have hbody := Statement.sameReading_runAll hr input o body
    simp only [List.map_cons, fed, CaseItem.runFrom]
    -- A clause that is fallen through to is not matched; what comes after that is the same.
    cases through
    case' true => refine (SameReading.pure true).bind fun _ => ?_
    case' false => refine (hmatch.sameReading input).bind fun _ => ?_
    all_goals
      refine .ite (ih false o) (hbody.bind fun o => ?_)
      cases ending with
      | stop => exact .pure o
      | fallThrough => exact ih true o
      | resume => exact ih false o

/-- **The first stages directly in a compound command read what the group reads**: a here-document
of it changes nothing. -/
theorem Compound.sameReading_fed (body : Compound) :
    SameReading input (body.run r) ((body.fed (input.getD "")).run r) := by
  have hclosed := isClosed_confinement limits
  have hbody (statements : List Statement) (o : Output) :=
    Statement.sameReading_runAll hr input ⟨o, 0⟩ statements
  have hvalue (word : Option Word) : Option.Rel confinement.word
      (word.map (Word.value r.expander)) (word.map (Word.value r.expander)) := by
    cases word with
    | none => exact .none
    | some word => exact .some (word.value_related hclosed hr.expander)
  cases body with
  | ifElse clauses orElse =>
    cases orElse with
    | none => exact Clause.sameReading_runFirst hr input (fun _ => .pure _) _ clauses
    | some orElse => exact Clause.sameReading_runFirst hr input (hbody orElse) _ clauses
  | forEach name words body =>
    have hloop (values : List String) := Loop.sameReading_inside <|
      Loop.sameReading_overValues r.limits name (hbody body) (Loop.turns r.limits) .success values
    refine .ite (.pure _) ?_
    cases words with
    | none => exact (tame_get.sameReading input).bind fun shell => hloop _
    | some words =>
      exact (Confined.sameReading (Word.allFields_related hclosed hr.expander words) input).bind hloop
  | forArithmetic init condition update body =>
    simp only [Compound.run, Compound.fed]
    refine (Confined.sameReading (Loop.workOut_related hclosed (hvalue init)) input).bind fun _ =>
      Loop.Conditional.SameReading.run ?_ r.limits
    exact {
      kind := rfl
      decide := fun o =>
        Confined.sameReading (Loop.decideByValue_related hclosed (hvalue condition) o) input
      body := hbody body
      step := Confined.sameReading (Loop.workOut_related hclosed (hvalue update)) input }
  | loop kind condition body =>
    simp only [Compound.run, Compound.fed]
    refine Loop.Conditional.SameReading.run ?_ r.limits
    exact {
      kind := rfl
      decide := Loop.sameReading_decideByStatus _ (hbody condition)
      body := hbody body
      step := .pure () }
  | case subject items =>
    exact (Confined.sameReading (subject.text_related hclosed hr.expander) input).bind fun text =>
      CaseItem.sameReading_runFrom hr input text false .success items
  | group body => exact Statement.sameReading_runAll hr input .success body
  | arithmetic expression =>
    exact Confined.sameReading (Runner.arithmetic_related hclosed hr expression) input
  | test words => exact Confined.sameReading (Runner.condition_related hclosed hr words) input

end

/-! ## What a command is given -/

/-- What the redirections of a command leave it to read, when they can be set up. -/
def Runner.inputOf? (r : Runner) (redirections : List Redirection) (input : String)
    (shell : Shell) : Option String :=
  match (Streams.ofRedirections r.expander redirections input).run
    { shell with expansionErrors := "" } with
  | (.ok (.ok streams), _) => some streams.input
  | _ => none

/-- What is read in a command that is given a text. An empty text is not handed on. -/
def Shell.given (shell : Shell) (text : String) : String :=
  if text = "" then shell.groupInput.getD "" else text

/-- A function whose first stages are handed a text. -/
def FunctionBody.fed (text : String) (function : FunctionBody) : FunctionBody :=
  { function with body := function.body.fed text }

/-- **A call of a function** by a simple command: what its words, redirections and assignments come
to, one after another. -/
structure SimpleCommand.Calling (c : SimpleCommand) (r : Runner) (input : String) (shell : Shell)
    where
  name : String
  arguments : List String
  afterWords : Shell
  words : r.wordsOf c { shell with expansionErrors := "" } = (.ok (name :: arguments), afterWords)
  streams : Streams
  afterRedirections : Shell
  redirections : (Streams.ofRedirections r.expander c.redirections input).run afterWords =
    (.ok (.ok streams), afterRedirections)
  bindings : Table String String
  afterAssignments : Shell
  assignments : Assignment.bindings r.expander c.assignments afterRedirections =
    (.ok bindings, afterAssignments)
  function : FunctionBody
  named : afterAssignments.functions.get? name = some function

namespace SimpleCommand.Calling

variable {c : SimpleCommand} {r : Runner} {input : String} {shell : Shell}
  (call : c.Calling r input shell)

/-- Words alone that come to the name of a function and to arguments. -/
def ofWords {word : Word} {words : List Word} {line : Nat} (name : String)
    (arguments : List String) (function : FunctionBody)
    (hwords : (r.wordsOf ⟨[], some word, words, [], line⟩ { shell with expansionErrors := "" }).1 =
      .ok (name :: arguments))
    (hnamed : (r.wordsOf ⟨[], some word, words, [], line⟩
      { shell with expansionErrors := "" }).2.functions.get? name = some function) :
    SimpleCommand.Calling ⟨[], some word, words, [], line⟩ r input shell where
  name := name
  arguments := arguments
  afterWords := _
  words := Prod.ext hwords rfl
  streams := .ofInput input
  afterRedirections := _
  redirections := rfl
  bindings := .empty
  afterAssignments := _
  assignments := rfl
  function := function
  named := hnamed

/-- The shell in which the function is called. -/
def start : Shell := call.afterAssignments.binding call.bindings

/-- What the function is given to read. -/
def input? : Option String :=
  r.inputOf? call.function.redirections call.streams.input (call.start.enterCall call.arguments)

/-- What the command does when it calls a function with some body. -/
def runBy (function : FunctionBody) : Run Outcome :=
  withExpansionErrors fun _ =>
    call.streams.around
      (Run.binding call.bindings (r.call call.name function call.arguments call.streams.input))
      call.afterAssignments

end SimpleCommand.Calling

/-! ## Commands -/

namespace Run

variable {x y : Run Outcome} {shell : Shell}

theorem withExpansionErrors_congr
    (h : x { shell with expansionErrors := "" } = y { shell with expansionErrors := "" }) :
    withExpansionErrors x shell = withExpansionErrors y shell := by
  simp only [withExpansionErrors, h]

theorem during_congr {enter : Shell → Shell} {leave : Shell → Shell → Shell}
    (h : x (enter shell) = y (enter shell)) :
    during enter leave x shell = during enter leave y shell := by
  simp only [during, h]

theorem around_congr (streams : Streams) (h : x shell = y shell) :
    streams.around x shell = streams.around y shell := by
  simp only [Streams.around, bind_apply, tryCatch_apply, h]

theorem calling_congr {arguments : List String}
    (h : x (shell.enterCall arguments) = y (shell.enterCall arguments)) :
    calling arguments x shell = calling arguments y shell := by
  refine during_congr ?_
  rw [tryCatch_apply, tryCatch_apply, h]

theorem binding_congr {bindings : Table String String}
    (h : x (shell.binding bindings) = y (shell.binding bindings)) :
    Run.binding bindings x shell = Run.binding bindings y shell := by
  unfold Shell.binding at h
  unfold binding
  split
  · next hnone =>
    rw [if_pos hnone] at h
    exact h
  · next hsome =>
    rw [if_neg hsome] at h
    exact during_congr h

end Run

section

variable {limits : Limits} {utilities : List (String × Utility)} {r : Runner}
  {input text : String} {shell : Shell}

/-- Scripts inside words do not know what a group reads. -/
theorem Runner.CallsItself.isBlind_expander (hr : r.CallsItself limits utilities) :
    r.expander.IsBlind := by
  rw [hr.expander_eq]
  refine Expander.blind_ofSubstitute fun body shell outer => ?_
  rw [hr.substitute, hr.substitute]
  change (if limits.substitutionDepth ≤ shell.substitutionDepth then _ else _) = _
  split
  · rfl
  · exact blind_substituting _ shell outer

/-- **A compound command that is given a text** does not know what the group around it reads. -/
theorem Command.blindAt_compound (hx : r.expander.IsBlind) (body : Compound)
    {redirections : List Redirection} (hgiven : r.inputOf? redirections input shell = some text)
    (htext : text ≠ "") : BlindAt (Command.run r (.compound body redirections) input) shell := by
  rw [Command.run]
  refine blindAt_withExpansionErrors ?_
  refine (Streams.blindOr_ofRedirections hx redirections input _).bind fun result next hsetup => ?_
  cases result with
  | error e => exact blind_pure _ next
  | ok streams =>
    rw [Runner.inputOf?, hsetup] at hgiven
    obtain rfl := Option.some.inj hgiven
    exact streams.blindAt_around (blind_withInput htext _ next)

/-- The body of a command that is given a text reads it, unless it is empty. -/
theorem Compound.withInput_fed (hr : r.Related confinement limits r) (body : Compound)
    (text : String) (shell : Shell) :
    withInput text (body.run r) shell =
      withInput text ((body.fed (shell.given text)).run r) shell := by
  have hsame (shell : Shell) := (body.sameReading_fed hr shell.groupInput shell rfl).1
  refine during_congr ?_
  by_cases htext : text = ""
  · rw [if_pos (by simpa using htext), Shell.given, if_pos htext]
    exact hsame shell
  · rw [if_neg (by simpa using htext), Shell.given, if_neg htext]
    exact hsame { shell with groupInput := some text }

/-- **What is read directly in a compound command** is the text that it is given, or what the group
around it reads when this text is empty. -/
theorem Command.run_compound_fed (hr : r.Related confinement limits r) (hx : r.expander.IsBlind)
    (body : Compound) {redirections : List Redirection}
    (hgiven : r.inputOf? redirections input shell = some text) :
    Command.run r (.compound body redirections) input shell =
      Command.run r (.compound (body.fed (shell.given text)) redirections) input shell := by
  rw [Command.run, Command.run]
  refine withExpansionErrors_congr ?_
  rw [Run.redirected, Run.redirected, bind_apply, bind_apply]
  have hkeep := (Streams.blindOr_ofRedirections hx redirections input).groupInput_eq
    { shell with expansionErrors := "" }
  rcases hsetup : (Streams.ofRedirections r.expander redirections input).run
    { shell with expansionErrors := "" } with ⟨i | ⟨e | streams⟩, next⟩
  · rfl
  · rfl
  · rw [hsetup] at hkeep
    replace hkeep : next.groupInput = shell.groupInput := hkeep
    rw [Runner.inputOf?, hsetup] at hgiven
    obtain rfl := Option.some.inj hgiven
    refine around_congr streams ?_
    have hgiven : next.given streams.input = shell.given streams.input := by
      rw [Shell.given, Shell.given, hkeep]
    rw [← hgiven]
    exact body.withInput_fed hr streams.input next

/-! ## Functions -/

/-- **A function that is given a text** does not know what the group around its call reads. -/
theorem Runner.CallsItself.blindAt_call (hr : r.CallsItself limits utilities) (name : String)
    {function : FunctionBody} {arguments : List String}
    (hgiven : r.inputOf? function.redirections input (shell.enterCall arguments) = some text)
    (htext : text ≠ "") : BlindAt (r.call name function arguments input) shell := by
  intro outer
  rw [hr.call, hr.call]
  change (if limits.callDepth ≤ shell.callDepth then _ else _) = _
  split
  · rfl
  · exact blindAt_calling
      (Command.blindAt_compound hr.isBlind_expander function.body hgiven htext) outer

theorem Runner.CallsItself.call_fed (hr : r.CallsItself limits utilities)
    (hconfined : r.Related confinement limits r) (name : String)
    {function : FunctionBody} {arguments : List String}
    (hgiven : r.inputOf? function.redirections input (shell.enterCall arguments) = some text) :
    r.call name function arguments input shell =
      r.call name (function.fed (shell.given text)) arguments input shell := by
  rw [hr.call, hr.call]
  split
  · rfl
  · exact calling_congr
      (Command.run_compound_fed hconfined hr.isBlind_expander function.body hgiven)

namespace SimpleCommand.Calling

variable {c : SimpleCommand} (call : c.Calling r input shell)

theorem named_eq (input : String) {next : Shell}
    (hnext : next.functions.get? call.name = some call.function) :
    r.named call.name call.arguments input next =
      r.call call.name call.function call.arguments input next := by
  rw [Runner.named, bind_apply, get_apply]
  dsimp only
  rw [hnext]

theorem start_functions : call.start.functions = call.afterAssignments.functions := by
  unfold start Shell.binding
  split <;> rfl

/-- The command does what the call of its function does. -/
theorem run_eq : Command.run r (.simple c) input shell = call.runBy call.function shell := by
  rw [Command.run]
  refine withExpansionErrors_congr ?_
  rw [Runner.simple, bind_apply, call.words]
  simp only [Run.redirected, bind_apply, call.redirections, call.assignments]
  refine around_congr call.streams (binding_congr ?_)
  exact call.named_eq _ (call.start_functions ▸ call.named)

theorem blind_wordsOf (hx : r.expander.IsBlind) (c : SimpleCommand) : Blind (r.wordsOf c) := by
  unfold Runner.wordsOf
  split
  · exact Word.blind_allFields hx _
  · exact blind_pure _

/-- What the group reads is the same where the function is called. -/
theorem start_groupInput (hx : r.expander.IsBlind) :
    call.start.groupInput = shell.groupInput := by
  have hwords := (blind_wordsOf hx c).groupInput_eq { shell with expansionErrors := "" }
  have hredirections := (Streams.blindOr_ofRedirections hx c.redirections input).groupInput_eq
    call.afterWords
  have hassignments := (Assignment.blind_bindings hx c.assignments).groupInput_eq
    call.afterRedirections
  rw [call.words] at hwords
  rw [call.redirections] at hredirections
  rw [call.assignments] at hassignments
  have hstart : call.start.groupInput = call.afterAssignments.groupInput := by
    unfold start Shell.binding
    split <;> rfl
  exact hstart.trans (hassignments.trans (hredirections.trans hwords))

/-- **A call that is given a text** does not know what the group around it reads. -/
theorem blindAt_run (hr : r.CallsItself limits utilities) (hgiven : call.input? = some text)
    (htext : text ≠ "") : BlindAt (Command.run r (.simple c) input) shell := by
  have hx := hr.isBlind_expander
  rw [Command.run]
  refine blindAt_withExpansionErrors ((blind_wordsOf hx c _).bind fun words next h => ?_)
  rw [call.words] at h
  cases h
  refine (Streams.blindOr_ofRedirections hx c.redirections input _).bind fun result next h => ?_
  rw [call.redirections] at h
  cases h
  refine (Assignment.blind_bindings hx c.assignments _).bind fun bindings next h => ?_
  rw [call.assignments] at h
  cases h
  refine call.streams.blindAt_around (blindAt_binding fun outer => ?_)
  have hfunction := call.start_functions ▸ call.named
  have houter : r.named call.name call.arguments call.streams.input (call.start.reading outer) = _ :=
    call.named_eq _ hfunction
  have hcall : r.named call.name call.arguments call.streams.input call.start = _ :=
    call.named_eq _ hfunction
  exact houter.trans (hcall ▸ hr.blindAt_call call.name hgiven htext outer)

/-- **What is read directly in a function that a command calls.** -/
theorem run_fed (hr : r.CallsItself limits utilities) (hconfined : r.Related confinement limits r)
    (hgiven : call.input? = some text) :
    Command.run r (.simple c) input shell =
      call.runBy (call.function.fed (shell.given text)) shell := by
  rw [call.run_eq]
  refine withExpansionErrors_congr (around_congr call.streams (binding_congr ?_))
  have hstart : call.start.given text = shell.given text := by
    rw [Shell.given, Shell.given, call.start_groupInput hr.isBlind_expander]
  rw [← hstart]
  exact hr.call_fed hconfined call.name hgiven

end SimpleCommand.Calling

end

/-! ## The main statement -/

/-- **What is given is read, and nothing else.** A compound command, a function and a call of a
function that are given a text hand it to the first stages of the pipelines directly in them, and do
not know what the group around them reads. An empty text is not handed on: what is read then is what
the group around them reads. -/
theorem Runner.reads_given (limits : Limits) (utilities : List (String × Utility))
    (input text : String) (shell : Shell) :
    let r := Runner.ofLimits limits utilities
    (∀ (body : Compound) (redirections : List Redirection),
      r.inputOf? redirections input shell = some text →
        (text ≠ "" → BlindAt (Command.run r (.compound body redirections) input) shell) ∧
        Command.run r (.compound body redirections) input shell =
          Command.run r (.compound (body.fed (shell.given text)) redirections) input shell) ∧
    (∀ (name : String) (function : FunctionBody) (arguments : List String),
      r.inputOf? function.redirections input (shell.enterCall arguments) = some text →
        (text ≠ "" → BlindAt (r.call name function arguments input) shell) ∧
        r.call name function arguments input shell =
          r.call name (function.fed (shell.given text)) arguments input shell) ∧
    ∀ (c : SimpleCommand) (call : c.Calling r input shell), call.input? = some text →
      (text ≠ "" → BlindAt (Command.run r (.simple c) input) shell) ∧
      Command.run r (.simple c) input shell =
        call.runBy (call.function.fed (shell.given text)) shell := by
  intro r
  have hr : r.CallsItself limits utilities := callsItself_ofLimits limits utilities
  have hconfined : r.Related confinement limits r := confined_ofLimits limits utilities
  refine ⟨fun body redirections hgiven => ⟨?_, ?_⟩, fun name function arguments hgiven => ⟨?_, ?_⟩,
    fun c call hgiven => ⟨?_, ?_⟩⟩
  · exact Command.blindAt_compound hr.isBlind_expander body hgiven
  · exact Command.run_compound_fed hconfined hr.isBlind_expander body hgiven
  · exact hr.blindAt_call name hgiven
  · exact hr.call_fed hconfined name hgiven
  · exact call.blindAt_run hr hgiven
  · exact call.run_fed hr hconfined hgiven

/-- A group, a function and a command that is the name of this function, each given a line. -/
theorem Runner.reads_given_line :
    let r := Runner.ofLimits .standard Utility.all
    let cat : Statement :=
      ⟨⟨[.simple ⟨[], some (.ofLiteral "cat"), [], [], 1⟩], false⟩, [], false⟩
    let function : FunctionBody := ⟨.group [cat], []⟩
    let shell := { Shell.start .bare "/" (.ofGlobals [] []) (.ofClock ⟨0, 0⟩) with
      functions := Table.empty.insert "f" function }
    BlindAt (Command.run r (.compound (.group [cat]) []) "a\n") shell ∧
      BlindAt (r.call "f" function [] "a\n") shell ∧
      BlindAt (Command.run r (.simple ⟨[], some (.ofLiteral "f"), [], [], 1⟩) "a\n") shell := by
  intro r cat function shell
  have hreads := reads_given .standard Utility.all "a\n" "a\n" shell
  refine ⟨(hreads.1 _ [] rfl).1 (by decide), (hreads.2.1 "f" function [] rfl).1 (by decide), ?_⟩
  refine (hreads.2.2 _ (.ofWords "f" [] function ?_ ?_) rfl).1 (by decide)
  · cbv
  · cbv

/-- A group that is given nothing to read reads what the group around it reads. -/
theorem Runner.reads_outer :
    let r := Runner.ofLimits .standard Utility.all
    let shell := Shell.start .bare "/" (.ofGlobals [] []) (.ofClock ⟨0, 0⟩)
    let cat : Statement :=
      ⟨⟨[.simple ⟨[], some (.ofLiteral "cat"), [], [], 1⟩], false⟩, [], false⟩
    (Command.run r (.compound (.group [cat]) []) "" shell).1 = .ok ⟨⟨"", ""⟩, 0⟩ ∧
      (Command.run r (.compound (.group [cat]) []) "" (shell.reading (some "outer\n"))).1 =
        .ok ⟨⟨"outer\n", ""⟩, 0⟩ := by
  cbv

end VirtualShell
