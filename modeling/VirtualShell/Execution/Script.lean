import VirtualShell.Execution.Loop
import VirtualShell.Execution.Runner

/-!
# Running scripts

Statements run one after another and their outputs are joined. The pipelines of a statement run
when their connectives say so. The commands of a pipeline run one after another, each with the
output of the one before it as its input; a pipeline of several commands is not left by `exit`, and
no pipeline by a fault.

All of this is recursion on the tree of a script. Loops take the running of their parts and repeat
it a limited number of times, so every run comes to an end.
-/

namespace VirtualShell

/-! ## Around commands -/

/-- What a command is called in messages about it. -/
def Command.label : Command → String
  | .simple c => (c.name.map (·.raw)).getD "simplecommand"
  | .function .. => "functiondef"
  | .compound body _ =>
    match body with
    | .ifElse .. => "if"
    | .forEach .. => "for"
    | .forArithmetic .. => "cstylefor"
    | .loop .whileTrue .. => "while"
    | .loop .untilTrue .. => "until"
    | .case .. => "case"
    | .group _ => "group"
    | .arithmetic _ => "arithmeticcommand"
    | .test _ => "conditionalcommand"

namespace Run

/-- **Run a command with its own expansions.** What command substitutions write to the error stream
while its words are expanded comes before its own errors, also when a signal leaves it. -/
def withExpansionErrors (run : Run Outcome) : Run Outcome := fun shell =>
  let (result, final) := run { shell with expansionErrors := "" }
  let errors := Output.ofError final.expansionErrors
  let result := match result with
    | .ok o => .ok (o.after errors)
    | .error i => .error (i.after errors)
  (result, { final with expansionErrors := shell.expansionErrors })

/-- Run commands that read an input; without one they read what the commands around them read. -/
def withInput (input : String) (run : Run Outcome) : Run Outcome :=
  during (fun shell => if input.isEmpty then shell else { shell with groupInput := some input })
    (fun initial final => { final with groupInput := initial.groupInput }) run

/-- Run a command as one stage of a pipeline. A fault ends it with a message, and among several
stages `exit` ends its own stage only. -/
def stage (several : Bool) (label : String) (run : Run Outcome) : Run Outcome :=
  tryCatch run fun
    | .fault f => return .failure ("bash: " ++ label ++ ": " ++ f.message ++ "\n") 1
    | .signal (.exit status) output =>
      if several then return ⟨output, status⟩ else signal (.exit status) output
    | i => throw i

/-- Count a statement; there is a most that may run. -/
def countStatement (limits : Limits) : Run Unit := do
  modify fun shell => { shell with statementCount := shell.statementCount + 1 }
  if ((← get).statementCount : Int) > limits.statements then
    signal (.excess (.statements limits.statements)) .empty

/-- Write down that a statement is let run. -/
def letRun : Run Unit := modify fun shell => { shell with usage := shell.usage.letRun }

/-- Keep the status of a pipeline, and turn it round when the pipeline is negated. -/
def conclude (negated : Bool) (o : Outcome) : Run Outcome := do
  let status := if negated then (if o.status = 0 then 1 else 0) else o.status
  modify fun shell => { shell with status }
  return { o with status }

end Run

/-- The pipeline after a connective does not run. -/
def Connective.skips (c : Connective) (status : Int) : Bool :=
  match c with
  | .and => status != 0
  | .or => status == 0

/-- One of some words is a pattern that a text matches. They are tried in turn. -/
def matchesAny (x : Expander) (subject : String) : List Word → Run Bool
  | [] => return false
  | word :: rest => do
    let pattern ← word.pattern x
    if ← Run.orFault .pattern (Glob.isMatchOf pattern subject) then return true
    else matchesAny x subject rest

/-- The two words of the loops that a status controls. -/
def LoopKind.word : LoopKind → String
  | .whileTrue => "while"
  | .untilTrue => "until"

/-! ## The recursion -/

mutual

/-- **Run a statement.** -/
def Statement.run (r : Runner) : Statement → Run Outcome
  | ⟨first, rest, _⟩ => do
    Run.countStatement r.limits
    Run.letRun
    let o ← Pipeline.run r first
    Statement.runRest r o rest
termination_by structural statement => statement

/-- Run the pipelines after the first one, as their connectives say. -/
def Statement.runRest (r : Runner) : Outcome → List (Connective × Pipeline) → Run Outcome
  | o, [] => return o
  | o, (connective, pipeline) :: rest => do
    if connective.skips o.status then Statement.runRest r o rest
    else
      let new ← Run.after o.output (Pipeline.run r pipeline)
      Statement.runRest r (new.after o.output) rest
termination_by structural _ rest => rest

/-- **Run statements one after another**, after something was written already. -/
def Statement.runAll (r : Runner) : Outcome → List Statement → Run Outcome
  | o, [] => return o
  | o, statement :: rest => do
    let new ← Run.after o.output (Statement.run r statement)
    Statement.runAll r (new.after o.output) rest
termination_by structural _ statements => statements

/-- **Run a pipeline.** -/
def Pipeline.run (r : Runner) : Pipeline → Run Outcome
  | ⟨commands, negated⟩ => do
    let input := (← get).groupInput.getD ""
    let o ← Command.runStages r (commands.length > 1) input .success commands
    Run.conclude negated o
termination_by structural pipeline => pipeline

/-- Run the stages of a pipeline. What they write to the error stream is joined, and the output and
the status are those of the last one. -/
def Command.runStages (r : Runner) (several : Bool) :
    (input : String) → Outcome → List Command → Run Outcome
  | _, o, [] => return o
  | input, o, command :: rest => do
    let errors := Output.ofError o.output.stderr
    let new ← Run.after errors (Run.stage several command.label (Command.run r command input))
    Command.runStages r several new.output.stdout (new.after errors) rest
termination_by structural _ _ commands => commands

/-- **Run a command.** -/
def Command.run (r : Runner) : Command → (input : String) → Run Outcome
  | .simple c, input => Run.withExpansionErrors (r.simple c input)
  | .compound body redirections, input =>
    Run.withExpansionErrors <|
      Run.redirected r.expander redirections input fun streams =>
        streams.around (Run.withInput streams.input (Compound.run r body))
  | .function name body redirections, _ => do
    modify fun shell =>
      { shell with functions := shell.functions.insert name ⟨body, redirections⟩ }
    return .success
termination_by structural command => command

/-- **Run a compound command.** -/
def Compound.run (r : Runner) : Compound → Run Outcome
  | .ifElse clauses none => Clause.runFirst r (fun written => return ⟨written, 0⟩) .empty clauses
  | .ifElse clauses (some orElse) =>
    Clause.runFirst r (fun written => Statement.runAll r ⟨written, 0⟩ orElse) .empty clauses
  | .forEach name words body => do
    if !isValidName name then
      return .failure ("bash: \x60" ++ name ++ "': not a valid identifier\n") 1
    else
      let values ← match words with
        | none => do pure (← get).parameters
        | some words => Word.allFields r.expander words
      Loop.forEach r.limits name values fun written => Statement.runAll r ⟨written, 0⟩ body
  | .forArithmetic init condition update body => do
    let value (word : Option Word) : Option (Run Int) := word.map (Word.value r.expander)
    Loop.workOut (value init)
    let loop : Loop.Conditional := {
      kind := "for"
      decide := Loop.decideByValue (value condition)
      body := fun written => Statement.runAll r ⟨written, 0⟩ body
      step := Loop.workOut (value update) }
    loop.run r.limits
  | .loop kind condition body =>
    let loop : Loop.Conditional := {
      kind := kind.word
      decide := Loop.decideByStatus (kind == .untilTrue) fun written =>
        Statement.runAll r ⟨written, 0⟩ condition
      body := fun written => Statement.runAll r ⟨written, 0⟩ body
      step := return () }
    loop.run r.limits
  | .case subject items => do
    let subject ← subject.text r.expander
    CaseItem.runFrom r subject false .success items
  | .group body => Statement.runAll r .success body
  | .arithmetic expression => r.arithmetic expression
  | .test words => r.condition words
termination_by structural body => body

/-- Run the body of the first clause whose condition holds, or what is to be done otherwise. -/
def Clause.runFirst (r : Runner) (otherwise : Output → Run Outcome) :
    (written : Output) → List Clause → Run Outcome
  | written, [] => otherwise written
  | written, ⟨condition, body⟩ :: rest => do
    let o ← Statement.runAll r .success condition
    let written := written ++ o.output
    if o.status = 0 then Statement.runAll r ⟨written, 0⟩ body
    else Clause.runFirst r otherwise written rest
termination_by structural _ clauses => clauses

/-- Run the bodies of the clauses of a `case`. The first one is run untested when the clause before
it fell through. -/
def CaseItem.runFrom (r : Runner) (subject : String) :
    (through : Bool) → Outcome → List CaseItem → Run Outcome
  | _, o, [] => return o
  | through, o, ⟨patterns, body, ending⟩ :: rest => do
    let chosen ← if through then pure true else matchesAny r.expander subject patterns
    if !chosen then CaseItem.runFrom r subject false o rest
    else
      let o ← Statement.runAll r o body
      match ending with
      | .stop => return o
      | .fallThrough => CaseItem.runFrom r subject true o rest
      | .resume => CaseItem.runFrom r subject false o rest
termination_by structural _ _ items => items

end

end VirtualShell
