import VirtualShell.Execution.Script
import VirtualShell.Proofs.Step.Relation

/-!
# Relations between runs of commands

**Related runners run every command, pipeline, statement and script in related ways.** The recursion
is the one by which scripts are run; loops are taken apart into their turns.
-/

namespace VirtualShell

open Run

/-- **Two ways of running commands**, which a relation holds between. -/
structure Runner.Related (R : StepRelation) (limits : Limits) (r s : Runner) : Prop where
  limits_left : r.limits = limits
  limits_right : s.limits = limits
  utilities : r.utilities = s.utilities
  utility : ∀ (name : String) (utility : Utility) (call : Call), (name, utility) ∈ s.utilities →
    R.command (utility.step call) (utility.step call)
  expander : r.expander.Related R s.expander
  call : ∀ name function arguments input,
    R.command (r.call name function arguments input) (s.call name function arguments input)

section

variable {R : StepRelation} {limits : Limits} {x y : Expander} {r s : Runner}

/-! ## Redirections -/

namespace Streams

theorem redirect_related (h : R.IsClosed limits) (hxy : x.Related R y) (streams : Streams)
    (redirection : Redirection) :
    R.word (streams.redirect x redirection).run (streams.redirect y redirection).run := by
  unfold redirect
  extract_lets word
  rw [ExceptT.run_bind, ExceptT.run_bind]
  refine h.word_bind (h.word_map Except.ok (word.text_related h hxy)) fun result => ?_
  cases result with
  | ok name =>
    exact h.word_tame (streams.tameOr_redirectTo redirection.op redirection.descriptor name)
  | error e => exact h.word_pure _

theorem ofRedirections_related (h : R.IsClosed limits) (hxy : x.Related R y)
    (redirections : List Redirection) (input : String) :
    R.word (ofRedirections x redirections input).run (ofRedirections y redirections input).run := by
  unfold ofRedirections
  generalize ofInput input = streams
  induction redirections generalizing streams with
  | nil => exact h.word_pure _
  | cons redirection rest ih =>
    simp only [List.foldlM_cons, ExceptT.run_bind]
    refine h.word_bind (redirect_related h hxy streams redirection) fun result => ?_
    cases result with
    | ok next => exact ih next
    | error e => exact h.word_pure _

theorem isHandler_around (streams : Streams) :
    IsHandler fun i : Interrupt => match i with
      | .signal s output => do Run.signal s (← streams.deliver output)
      | .fault f => (Run.fault f : Run Outcome) := by
  rintro (⟨s, output⟩ | f) shell
  · obtain ⟨hsame, hcalm⟩ := tame_deliver streams output shell
    simp only [bind_apply]
    rcases hdeliver : streams.deliver output shell with ⟨i | sent, next⟩
    · rw [hdeliver] at hsame hcalm
      exact ⟨hsame, fun j hj => .inl (hcalm j (by cases hj; rfl))⟩
    · rw [hdeliver] at hsame
      refine ⟨hsame, fun j hj => .inr ⟨s, output, sent, rfl, ?_⟩⟩
      cases hj
      rfl
  · exact ⟨.refl shell, fun j hj => .inl (by cases hj; trivial)⟩

theorem around_related (h : R.IsClosed limits) (streams : Streams) {a b : Run Outcome}
    (hab : R.command a b) : R.command (streams.around a) (streams.around b) :=
  h.command_bind (h.command_handle hab (isHandler_around streams)) fun _ =>
    h.command_tame ((tame_deliver _ _).bind fun _ => tame_pure _)

end Streams

theorem Run.redirected_related (h : R.IsClosed limits) (hxy : x.Related R y)
    (redirections : List Redirection) (input : String) {f g : Streams → Run Outcome}
    (hfg : ∀ streams, R.command (f streams) (g streams)) :
    R.command (redirected x redirections input f) (redirected y redirections input g) := by
  refine h.command_bind (h.command_word (Streams.ofRedirections_related h hxy _ _)) fun result => ?_
  cases result with
  | ok streams => exact hfg streams
  | error e => exact h.command_pure _

/-! ## Simple commands -/

namespace Assignment

theorem result_related (h : R.IsClosed limits) (hxy : x.Related R y) (a : Assignment) :
    R.word (a.result x) (a.result y) := by
  obtain ⟨name, value, append⟩ := a
  have hjoin (new : String) : Tame (if append = true then
      do return (← variableOr name "") ++ new else pure new : Run String) :=
    Tame.ite ((tame_variableOr _ _).bind fun _ => tame_pure _) (tame_pure _)
  cases value with
  | some word => exact h.word_bind (word.text_related h hxy) fun new => h.word_tame (hjoin new)
  | none => exact h.word_tame ((tame_pure "").bind hjoin)

theorem runAll_related (h : R.IsClosed limits) (hxy : x.Related R y) (status : Int)
    (assignments : List Assignment) :
    R.word (runAll x status assignments) (runAll y status assignments) := by
  induction assignments generalizing status with
  | nil => exact h.word_pure _
  | cons a rest ih =>
    simp only [runAll]
    refine h.word_bind (a.result_related h hxy) fun value =>
      h.word_bind (h.word_tame (tame_setVariable _ _)) fun _ => ?_
    split
    · exact h.word_bind (h.word_tame tame_get) fun shell => ih shell.status
    · exact ih status

theorem bindings_related (h : R.IsClosed limits) (hxy : x.Related R y)
    (assignments : List Assignment) :
    R.word (bindings x assignments) (bindings y assignments) :=
  h.word_bind (h.word_mapM (fun a => h.word_bind (a.result_related h hxy) fun _ => h.word_pure _) _)
    fun _ => h.word_pure _

end Assignment

/-- A utility is given the files and nothing else of the shell, and it may do anything to them. -/
theorem Utility.calm_step (utility : Utility) (call : Call) : Calm (utility.step call) where
  frame _ := rfl
  account _ := rfl
  interrupt shell i hi := by
    simp only [step] at hi
    rcases h : (utility call).run shell.files with ⟨f | o, files⟩
    · rw [h] at hi
      cases hi
      trivial
    · rw [h] at hi
      cases hi

namespace Runner

theorem named_related (h : R.IsClosed limits) (hrs : r.Related R limits s) (name : String)
    (arguments : List String) (input : String) :
    R.command (r.named name arguments input) (s.named name arguments input) := by
  unfold named
  rw [hrs.utilities]
  refine h.command_bind (h.command_tame tame_get) fun shell => ?_
  split
  · exact hrs.call _ _ _ _
  split
  · next builtin hbuiltin =>
    rcases Builtin.tame_or_leaving hbuiltin with htame | hleaving
    · exact h.command_tame (htame arguments)
    · exact h.command_leaving arguments hleaving
  · split
    next utility hutility =>
      obtain ⟨before, rest, hall, -⟩ := List.lookup_eq_some_iff.1 hutility
      exact hrs.utility name utility _ (by simp [hall])
    · exact h.command_pure _

theorem assignments_related (h : R.IsClosed limits) (hrs : r.Related R limits s)
    (c : SimpleCommand) : R.command (r.assignments c) (s.assignments c) :=
  h.command_bind (h.command_word (Assignment.runAll_related h hrs.expander _ _)) fun _ =>
    Run.redirected_related h hrs.expander _ _ fun streams =>
      streams.around_related h (h.command_pure _)

theorem wordsOf_related (h : R.IsClosed limits) (hrs : r.Related R limits s) (c : SimpleCommand) :
    R.word (r.wordsOf c) (s.wordsOf c) := by
  unfold wordsOf
  split
  · exact Word.allFields_related h hrs.expander _
  · exact h.word_pure _

theorem simple_related (h : R.IsClosed limits) (hrs : r.Related R limits s) (c : SimpleCommand)
    (input : String) : R.command (r.simple c input) (s.simple c input) := by
  refine h.command_bind (h.command_word (wordsOf_related h hrs c)) fun words => ?_
  cases words with
  | nil => exact assignments_related h hrs c
  | cons name arguments =>
    refine Run.redirected_related h hrs.expander _ _ fun streams => ?_
    refine h.command_bind (h.command_word (Assignment.bindings_related h hrs.expander _))
      fun bindings => streams.around_related h (h.command_binding bindings ?_)
    exact named_related h hrs name arguments streams.input

theorem condition_related (h : R.IsClosed limits) (hrs : r.Related R limits s)
    (words : List Word) : R.command (r.condition words) (s.condition words) := by
  have hoperand (word : Word) := h.word_bind (word.expand_related h hrs.expander false)
    fun segments => h.word_pure (⟨Segment.textOf segments, some (Segment.patternOf segments)⟩ :
      Condition.Operand)
  refine h.command_bind (h.command_word (h.word_mapM hoperand words)) fun operands => ?_
  refine h.command_tame ((Condition.tame_status _ _).bind fun ⟨status, error⟩ => ?_)
  cases error with
  | some e => exact tame_pure _
  | none => exact tame_pure _

theorem arithmetic_related (h : R.IsClosed limits) (hrs : r.Related R limits s)
    (expression : Word) : R.command (r.arithmetic expression) (s.arithmetic expression) := by
  refine h.command_word (h.word_handle
    (h.word_bind (expression.value_related h hrs.expander) fun _ => h.word_pure _)
    (IsAnswer.isHandler fun i => ?_))
  split
  · exact .inl ⟨_, rfl⟩
  · exact .inr rfl

end Runner

end

end VirtualShell
