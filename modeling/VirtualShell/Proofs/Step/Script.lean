import VirtualShell.Proofs.Step.Command

/-!
# Relations between runs of scripts

Loops are taken apart into their turns, and everything else is recursion on the tree of a script.

* `Loop.forEach_related`, `Loop.Conditional.run_related` — loops of related parts.
* **`Command.run_related`**, `Statement.runAll_related` and the others of the recursion — related
  runners run everything in related ways.
* `Runner.forDepth_related`, `Runner.ofLimits_related` — so do the runners for all depths and shells.
-/

namespace VirtualShell

open Run StepRelation.IsClosed

section

variable {R : StepRelation} {limits : Limits} {r s : Runner}

/-! ## Loops -/

namespace Loop

theorem overValues_related (h : R.IsClosed limits) (name : String) {body body' : Output → Run Outcome}
    (hbody : ∀ o, R.command (body o) (body' o)) (left : Nat) (o : Outcome) (values : List String) :
    R.loop left (overValues limits name body left o values)
      (overValues limits name body' left o values) := by
  induction values generalizing left o with
  | nil =>
    cases left with
    | zero => exact h.loop_pure _ _
    | succ left => exact h.loop_pure _ _
  | cons value values ih =>
    cases left with
    | zero => exact h.loop_turn _ (h.turn_word (h.word_tame (tame_excess _ _)))
    | succ left =>
      refine h.loop_bind _ (h.turn_word (h.word_tame (tame_setVariable _ _))) fun _ => ?_
      refine h.loop_begin _ (h.loop_bind _ (h.turn_part _ hbody) fun ⟨ending, written⟩ => ?_)
      cases ending with
      | left => exact h.loop_pure _ _
      | complete status => exact ih _ _
      | skipped => exact ih _ _

theorem forEach_related (h : R.IsClosed limits) (name : String) (values : List String)
    {body body' : Output → Run Outcome} (hbody : ∀ o, R.command (body o) (body' o)) :
    R.command (forEach limits name values body) (forEach limits name values body') :=
  h.command_inside (overValues_related h name hbody _ _ values)

/-- Two loops with a condition, between whose parts a relation holds. -/
structure Conditional.Related (R : StepRelation) (l m : Conditional) : Prop where
  kind : l.kind = m.kind
  decide : ∀ o, R.turn (l.decide o) (m.decide o)
  body : ∀ o, R.command (l.body o) (m.body o)
  step : R.word l.step m.step

namespace Conditional

variable {l m : Conditional}

/-- A turn and what follows it. The turn is counted when it is entered. -/
theorem turn_related (h : R.IsClosed limits) (hlm : l.Related R m) (decision : Decision)
    (o : Outcome) (left : Nat) {f g : Bool × Outcome → Run Outcome}
    (hfg : ∀ next, R.loop left (f next) (g next)) :
    R.loop (left + 1) (l.turn decision o >>= f) (m.turn decision o >>= g) := by
  cases decision with
  | stop => simpa [turn] using h.loop_succ _ (hfg (false, o))
  | skip => simpa [turn] using h.loop_succ _ (hfg (true, o))
  | enter =>
    simp only [turn, bind_assoc]
    refine h.loop_begin _ (h.loop_bind _ (h.turn_part _ hlm.body) fun ⟨ending, written⟩ => ?_)
    dsimp only
    split
    · simpa using hfg (false, ⟨written, 0⟩)
    · simp only [bind_assoc, pure_bind]
      exact h.loop_bind _ (h.turn_word (h.word_after written hlm.step)) fun _ => hfg _

theorem go_related (h : R.IsClosed limits) (hlm : l.Related R m) (left : Nat) (o : Outcome) :
    R.loop left (l.go limits left o) (m.go limits left o) := by
  induction left generalizing o with
  | zero =>
    refine h.loop_bind _ (hlm.decide _) fun ⟨decision, written⟩ => ?_
    dsimp only
    split
    · exact h.loop_pure _ _
    · rw [hlm.kind]
      exact h.loop_turn _ (h.turn_word (h.word_tame (tame_excess _ _)))
  | succ left ih =>
    refine h.loop_bind _ (hlm.decide _) fun ⟨decision, written⟩ =>
      turn_related h hlm decision _ left fun ⟨goesOn, next⟩ => ?_
    dsimp only
    split
    · exact ih _
    · exact h.loop_pure _ _

theorem run_related (h : R.IsClosed limits) (hlm : l.Related R m) :
    R.command (l.run limits) (m.run limits) :=
  h.command_inside (go_related h hlm _ _)

end Conditional

theorem workOut_related (h : R.IsClosed limits) {value value' : Option (Run Int)}
    (hvalue : Option.Rel R.word value value') : R.word (workOut value) (workOut value') := by
  cases hvalue with
  | none => exact h.word_pure ()
  | some hvalue => exact h.word_bind hvalue fun _ => h.word_pure ()

theorem decideByValue_related (h : R.IsClosed limits) {condition condition' : Option (Run Int)}
    (hcondition : Option.Rel R.word condition condition') (written : Output) :
    R.turn (decideByValue condition written) (decideByValue condition' written) := by
  cases hcondition with
  | none => exact h.turn_pure _
  | some hvalue =>
    exact h.turn_bind (h.turn_word (h.word_after written hvalue)) fun _ =>
      turn_ite (h.turn_pure _) (h.turn_pure _)

theorem decideByStatus_related (h : R.IsClosed limits) (untilTrue : Bool)
    {condition condition' : Output → Run Outcome}
    (hcondition : ∀ o, R.command (condition o) (condition' o)) (written : Output) :
    R.turn (decideByStatus untilTrue condition written)
      (decideByStatus untilTrue condition' written) := by
  refine h.turn_bind (h.turn_part written hcondition) fun ⟨ending, written⟩ => ?_
  cases ending with
  | left => exact h.turn_pure _
  | skipped => exact h.turn_pure _
  | complete status => exact turn_ite (h.turn_pure _) (h.turn_pure _)

end Loop

/-! ## Pipelines and choices -/

/-- **A stage answers** some of what leaves its command, and every fault. -/
theorem Run.stage_eq_tryCatch (several : Bool) (label : String) :
    ∃ h : Interrupt → Run Outcome, IsAnswer h ∧ (∀ f, ∃ o, h (.fault f) = pure o) ∧
      ∀ x, stage several label x = tryCatch x h := by
  refine ⟨_, fun i => ?_, fun f => ?_, fun x => rfl⟩
  · rcases i with ⟨levels | levels | status | status | excess, output⟩ | fault
    case fault => exact .inl ⟨_, rfl⟩
    case signal.exit =>
      cases several with
      | true => exact .inl ⟨_, rfl⟩
      | false => exact .inr rfl
    all_goals exact .inr rfl
  · exact ⟨_, rfl⟩

theorem Run.stage_related (h : R.IsClosed limits) (several : Bool) (label : String)
    {x y : Run Outcome} (hxy : R.command x y) :
    R.command (stage several label x) (stage several label y) := by
  obtain ⟨handler, hanswer, -, hstage⟩ := stage_eq_tryCatch several label
  rw [hstage, hstage]
  exact h.command_handle hxy hanswer.isHandler

theorem tame_conclude (negated : Bool) (o : Outcome) : Tame (conclude negated o) := by
  refine Tame.bind (tame_modify ?_) fun _ => tame_pure _
  exact fun _ => .of_place rfl rfl rfl rfl

theorem matchesAny_related {x y : Expander} (h : R.IsClosed limits) (hxy : x.Related R y)
    (subject : String) (words : List Word) :
    R.word (matchesAny x subject words) (matchesAny y subject words) := by
  induction words with
  | nil => exact h.word_pure _
  | cons word rest ih =>
    refine h.word_bind (word.pattern_related h hxy) fun pattern =>
      h.word_bind (h.word_tame (tame_orFault _ _)) fun found => ?_
    split
    · exact h.word_pure _
    · exact ih

/-! ## The recursion -/

mutual

theorem Statement.run_related (h : R.IsClosed limits) (hrs : r.Related R limits s) :
    ∀ statement : Statement, R.command (statement.run r) (statement.run s)
  | ⟨first, rest, _⟩ => by
    simp only [Statement.run_eq, hrs.limits_left, hrs.limits_right]
    exact h.command_bind h.command_accept fun _ =>
      h.command_bind (Pipeline.run_related h hrs first) fun _ => Statement.runRest_related h hrs _ rest

theorem Statement.runRest_related (h : R.IsClosed limits) (hrs : r.Related R limits s) :
    ∀ (o : Outcome) (rest : List (Connective × Pipeline)),
      R.command (Statement.runRest r o rest) (Statement.runRest s o rest)
  | o, [] => h.command_pure o
  | o, (connective, pipeline) :: rest => by
    simp only [Statement.runRest]
    split
    · exact Statement.runRest_related h hrs o rest
    · exact h.command_bind (h.command_after _ (Pipeline.run_related h hrs pipeline)) fun _ =>
        Statement.runRest_related h hrs _ rest

theorem Statement.runAll_related (h : R.IsClosed limits) (hrs : r.Related R limits s) :
    ∀ (o : Outcome) (statements : List Statement),
      R.command (Statement.runAll r o statements) (Statement.runAll s o statements)
  | o, [] => h.command_pure o
  | _, statement :: rest =>
    h.command_bind (h.command_after _ (Statement.run_related h hrs statement)) fun _ =>
      Statement.runAll_related h hrs _ rest

theorem Pipeline.run_related (h : R.IsClosed limits) (hrs : r.Related R limits s) :
    ∀ pipeline : Pipeline, R.command (pipeline.run r) (pipeline.run s)
  | ⟨commands, negated⟩ =>
    h.command_bind (h.command_tame tame_get) fun _ =>
      h.command_bind (Command.runStages_related h hrs _ _ _ commands) fun _ =>
        h.command_tame (tame_conclude negated _)

theorem Command.runStages_related (h : R.IsClosed limits) (hrs : r.Related R limits s)
    (several : Bool) : ∀ (input : String) (o : Outcome) (commands : List Command),
      R.command (Command.runStages r several input o commands)
        (Command.runStages s several input o commands)
  | _, o, [] => h.command_pure o
  | input, _, command :: rest =>
    h.command_bind (h.command_after _ (Run.stage_related h several command.label
      (Command.run_related h hrs command input))) fun _ =>
        Command.runStages_related h hrs several _ _ rest

theorem Command.run_related (h : R.IsClosed limits) (hrs : r.Related R limits s) :
    ∀ (command : Command) (input : String), R.command (command.run r input) (command.run s input)
  | .simple c, input => h.command_withExpansionErrors (Runner.simple_related h hrs c input)
  | .compound body redirections, input =>
    h.command_withExpansionErrors <| Run.redirected_related h hrs.expander redirections input
      fun streams => streams.around_related h <| h.command_withInput streams.input <|
        Compound.run_related h hrs body
  | .function _ _ _, _ => by
    refine h.command_tame (Tame.bind (tame_modify ?_) fun _ => tame_pure _)
    exact fun _ => .of_place rfl rfl rfl rfl

theorem Compound.run_related (h : R.IsClosed limits) (hrs : r.Related R limits s) :
    ∀ body : Compound, R.command (body.run r) (body.run s)
  | .ifElse clauses none => Clause.runFirst_related h hrs (fun _ => h.command_pure _) _ clauses
  | .ifElse clauses (some orElse) =>
    Clause.runFirst_related h hrs (fun _ => Statement.runAll_related h hrs _ orElse) _ clauses
  | .forEach name words body => by
    simp only [Compound.run, hrs.limits_left, hrs.limits_right]
    have hbody (o : Output) := Statement.runAll_related h hrs ⟨o, 0⟩ body
    split
    · exact h.command_pure _
    · cases words with
      | none =>
        exact h.command_bind (h.command_tame tame_get) fun _ =>
          h.command_bind (h.command_pure _) fun _ => Loop.forEach_related h _ _ hbody
      | some words =>
        exact h.command_bind (h.command_word (Word.allFields_related h hrs.expander words))
          fun _ => Loop.forEach_related h _ _ hbody
  | .forArithmetic init condition update body => by
    simp only [Compound.run, hrs.limits_left, hrs.limits_right]
    have hvalue (word : Option Word) : Option.Rel R.word (word.map (Word.value r.expander))
        (word.map (Word.value s.expander)) := by
      cases word with
      | none => exact .none
      | some word => exact .some (word.value_related h hrs.expander)
    refine h.command_bind (h.command_word (Loop.workOut_related h (hvalue init))) fun _ =>
      Loop.Conditional.run_related h ⟨rfl, fun o => ?_, fun o => ?_, ?_⟩
    · exact Loop.decideByValue_related h (hvalue condition) o
    · exact Statement.runAll_related h hrs ⟨o, 0⟩ body
    · exact Loop.workOut_related h (hvalue update)
  | .loop kind condition body => by
    simp only [Compound.run, hrs.limits_left, hrs.limits_right]
    refine Loop.Conditional.run_related h ⟨rfl, fun o => ?_, fun o => ?_, h.word_pure ()⟩
    · exact Loop.decideByStatus_related h _
        (fun o => Statement.runAll_related h hrs ⟨o, 0⟩ condition) o
    · exact Statement.runAll_related h hrs ⟨o, 0⟩ body
  | .case subject items =>
    h.command_bind (h.command_word (subject.text_related h hrs.expander)) fun _ =>
      CaseItem.runFrom_related h hrs _ _ _ items
  | .group body => Statement.runAll_related h hrs _ body
  | .arithmetic expression => Runner.arithmetic_related h hrs expression
  | .test words => Runner.condition_related h hrs words

theorem Clause.runFirst_related (h : R.IsClosed limits) (hrs : r.Related R limits s)
    {otherwise otherwise' : Output → Run Outcome}
    (hotherwise : ∀ o, R.command (otherwise o) (otherwise' o)) :
    ∀ (written : Output) (clauses : List Clause),
      R.command (Clause.runFirst r otherwise written clauses)
        (Clause.runFirst s otherwise' written clauses)
  | written, [] => hotherwise written
  | written, ⟨condition, body⟩ :: rest => by
    simp only [Clause.runFirst]
    refine h.command_bind (Statement.runAll_related h hrs _ condition) fun o => ?_
    split
    · exact Statement.runAll_related h hrs _ body
    · exact Clause.runFirst_related h hrs hotherwise _ rest

theorem CaseItem.runFrom_related (h : R.IsClosed limits) (hrs : r.Related R limits s)
    (subject : String) : ∀ (through : Bool) (o : Outcome) (items : List CaseItem),
      R.command (CaseItem.runFrom r subject through o items)
        (CaseItem.runFrom s subject through o items)
  | _, o, [] => h.command_pure o
  | through, o, ⟨patterns, body, ending⟩ :: rest => by
    have hrun : R.command
        (Statement.runAll r o body >>= fun o => match ending with
          | .stop => return o
          | .fallThrough => CaseItem.runFrom r subject true o rest
          | .resume => CaseItem.runFrom r subject false o rest)
        (Statement.runAll s o body >>= fun o => match ending with
          | .stop => return o
          | .fallThrough => CaseItem.runFrom s subject true o rest
          | .resume => CaseItem.runFrom s subject false o rest) := by
      refine h.command_bind (Statement.runAll_related h hrs o body) fun o => ?_
      cases ending with
      | stop => exact h.command_pure o
      | fallThrough => exact CaseItem.runFrom_related h hrs subject true o rest
      | resume => exact CaseItem.runFrom_related h hrs subject false o rest
    have hskip := CaseItem.runFrom_related h hrs subject false o rest
    simp only [CaseItem.runFrom]
    cases through with
    | true => exact h.command_bind (h.command_pure true) fun _ => command_ite hskip hrun
    | false =>
      exact h.command_bind (h.command_word (matchesAny_related h hrs.expander subject patterns))
        fun _ => command_ite hskip hrun

end

end

/-! ## Every depth

A runner for some depth of calls and substitutions rests on runners for less. A family of relations,
one for each pair of depths, holds of all of them when a call leads from one depth of calls to the
next and a substitution from one depth of substitutions to the next. -/

/-- **A relation for each depth** of calls and of substitutions that is left, which running a
function and running a substitution respect. -/
structure IsGraded (R : (calls substitutions : Nat) → StepRelation) (limits : Limits)
    (utilities : List (String × Utility)) : Prop where
  closed : ∀ c d, (R c d).IsClosed limits
  utility {c d : Nat} {name : String} {utility : Utility} (call : Call) :
    (name, utility) ∈ utilities → (R c d).command (utility.step call) (utility.step call)
  calling {c d : Nat} {x y : Run Outcome} (arguments : List String) :
    (R c d).command x y → (R (c + 1) d).command (Run.calling arguments x) (Run.calling arguments y)
  substituting {c d : Nat} {x y : Run Outcome} :
    (R c d).command x y → (R c (d + 1)).word (Run.substituting x) (Run.substituting y)

namespace Runner

variable {R : Nat → Nat → StepRelation} {limits : Limits} {utilities : List (String × Utility)}

theorem callBy_related (h : IsGraded R limits utilities) {c d : Nat} {runner : Option Runner}
    (hrunner : ∀ r ∈ runner, ∃ less, c = less + 1 ∧ r.Related (R less d) limits r)
    (name : String) (function : FunctionBody) (arguments : List String) (input : String) :
    (R c d).command (callBy limits runner name function arguments input)
      (callBy limits runner name function arguments input) := by
  cases runner with
  | none => exact (h.closed c d).command_tame (tame_excess _ _)
  | some r =>
    obtain ⟨less, rfl, hr⟩ := hrunner r rfl
    exact h.calling arguments (Command.run_related (h.closed less d) hr _ input)

/-- Runners that differ in the depth of substitutions only. -/
theorem within_related (h : IsGraded R limits utilities) {c : Nat} {calls : Nat → Option Runner}
    (hcalls : ∀ d, ∀ r ∈ calls d, ∃ less, c = less + 1 ∧ r.Related (R less d) limits r) (d : Nat) :
    (within limits utilities calls d).Related (R c d) limits (within limits utilities calls d) := by
  induction d with
  | zero => exact {
      limits_left := rfl
      limits_right := rfl
      utilities := rfl
      utility _ _ call hmem := h.utility call hmem
      expander := Expander.related_ofSubstitute (h.closed c 0) fun _ =>
        (h.closed c 0).word_tame (tame_excess _ _)
      call := callBy_related h (hcalls 0) }
  | succ d ih => exact {
      limits_left := rfl
      limits_right := rfl
      utilities := rfl
      utility _ _ call hmem := h.utility call hmem
      expander := Expander.related_ofSubstitute (h.closed c (d + 1)) fun body =>
        h.substituting (Statement.runAll_related (h.closed c d) ih _ body.statements)
      call := callBy_related h (hcalls (d + 1)) }

/-- **A graded relation holds of the runners for all depths.** -/
theorem forDepth_related (h : IsGraded R limits utilities) (c d : Nat) :
    (forDepth limits utilities c d).Related (R c d) limits (forDepth limits utilities c d) := by
  induction c generalizing d with
  | zero =>
    unfold forDepth
    exact within_related h (by simp) d
  | succ c ih =>
    unfold forDepth
    refine within_related h (fun d r hr => ?_) d
    cases hr
    exact ⟨c, rfl, ih d⟩

/-- **The runner of shells with some limits** chooses the runner for the depths that a shell has left.
A relation that is the same at all depths holds of it if it may be told for each shell alone. -/
theorem ofLimits_related {R : StepRelation} (h : IsGraded (fun _ _ => R) limits utilities)
    (hword : ∀ x : Shell → Run Outcome, (∀ shell, R.word (x shell) (x shell)) →
      R.word (fun shell => x shell shell : Run Outcome) (fun shell => x shell shell))
    (hcommand : ∀ x : Shell → Run Outcome, (∀ shell, R.command (x shell) (x shell)) →
      R.command (fun shell => x shell shell : Run Outcome) (fun shell => x shell shell)) :
    (ofLimits limits utilities).Related R limits (ofLimits limits utilities) where
  limits_left := rfl
  limits_right := rfl
  utilities := rfl
  utility _ _ call hmem := h.utility (c := 0) (d := 0) call hmem
  expander := Expander.related_ofSubstitute (h.closed 0 0) fun body =>
    hword (fun shell => (leftIn limits utilities shell).expander.substitute body) fun _ =>
      (forDepth_related h _ _).expander.substitute body
  call name function arguments input :=
    hcommand (fun shell => (leftIn limits utilities shell).call name function arguments input)
      fun _ => (forDepth_related h _ _).call name function arguments input

end Runner

end VirtualShell
