import VirtualShell.Execution.Depth
import VirtualShell.Proofs.Confinement
import VirtualShell.Proofs.Quoting.HereDocument
import VirtualShell.Proofs.Session.Restoration
import VirtualShell.Proofs.Session.Selection

/-!
# The recursion of a loop

What a loop does is known from its next decision, and what a statement does that is a compound
command and nothing else is known from the command.

* `Loop.overValues_cons`, `Loop.Conditional.go_enter` — a loop up to its next decision.
* `Runner.KeepsLoops` — statements and words leave the depth of loops as it was, and so do the parts
  of a loop.
* `Statement.run_compound` — the run of a statement that is a compound command.
-/

namespace VirtualShell

open Run

/-! ## A loop by its next decision -/

namespace Loop

theorem passOn_apply (signal : Nat → Signal) (levels : Nat) (output : Output)
    (ending : Ending) (shell : Shell) :
    passOn signal levels output ending shell =
      if 1 < levels ∧ 1 < shell.loopDepth then
        (.error (.signal (signal (levels - 1)) output), shell)
      else (.ok (ending, output), shell) := by
  simp only [passOn, bind_apply, get_apply, gt_iff_lt, Bool.and_eq_true, decide_eq_true_eq]
  split <;> rfl

/-- A loop over no values has ended. -/
theorem overValues_nil (limits : Limits) (name : String) (body : Output → Run Outcome) (left : Nat)
    (o : Outcome) (shell : Shell) :
    overValues limits name body left o [] shell = (.ok o, shell) := by
  cases left <;> rfl

/-- What a loop over values does with the next of them. -/
theorem overValues_cons (limits : Limits) (name : String) (body : Output → Run Outcome) (left : Nat)
    (o : Outcome) (value : String) (values : List String) (shell : Shell) :
    overValues limits name body (left + 1) o (value :: values) shell =
      (do
        let (ending, written) ← part o.output body
        match ending with
        | .left => return ⟨written, 0⟩
        | ending => overValues limits name body left ⟨written, ending.status⟩ values : Run Outcome)
      { shell with
        «variables» := shell.variables.set name value
        usage := shell.usage.beginTurn } := rfl

namespace Conditional

variable {l : Conditional} {limits : Limits} {o : Outcome} {shell next : Shell} {written : Output}

theorem go_error {i : Interrupt} (left : Nat) (h : l.decide o.output shell = (.error i, next)) :
    l.go limits left o shell = (.error i, next) := by
  cases left <;> rw [go, bind_apply, h]

theorem go_stop (left : Nat) (h : l.decide o.output shell = (.ok (.stop, written), next)) :
    l.go limits left o shell = (.ok { o with output := written }, next) := by
  cases left <;> rw [go, bind_apply, h] <;> rfl

theorem go_zero {decision : Decision} (hne : decision ≠ .stop)
    (h : l.decide o.output shell = (.ok (decision, written), next)) :
    l.go limits 0 o shell = exhausted l.kind limits written next := by
  rw [go, bind_apply, h]
  exact congrFun (if_neg hne) next

theorem go_skip (left : Nat) (h : l.decide o.output shell = (.ok (.skip, written), next)) :
    l.go limits (left + 1) o shell = l.go limits left { o with output := written } next := by
  rw [go, bind_apply, h]
  rfl

theorem go_enter (left : Nat) (h : l.decide o.output shell = (.ok (.enter, written), next)) :
    l.go limits (left + 1) o shell =
      (do
        let (ending, written) ← part written l.body
        match ending with
        | .left => return ⟨written, 0⟩
        | ending => do
          Run.after written l.step
          l.go limits left ⟨written, ending.status⟩ : Run Outcome)
      { next with usage := next.usage.beginTurn } := by
  rw [go, bind_apply, h]
  simp only [turn, beginTurn, bind_assoc]
  rw [bind_apply, modify_apply]
  dsimp only
  rw [bind_apply, bind_apply]
  rcases part written l.body _ with ⟨i | ⟨status | _ | _, written⟩, final⟩
  · rfl
  · simp only [reduceCtorEq, if_false, bind_assoc, pure_bind, if_true]
  · rfl
  · simp only [reduceCtorEq, if_false, bind_assoc, pure_bind, if_true]

end Conditional

/-- The decision that the end of some statements makes, and what was written by then. -/
theorem decideByStatus_apply (untilTrue : Bool) (condition : Output → Run Outcome)
    (written : Output) (shell : Shell) :
    decideByStatus untilTrue condition written shell =
      match part written condition shell with
      | (.ok (.left, written), next) => (.ok (.stop, written), next)
      | (.ok (.skipped, written), next) => (.ok (.skip, written), next)
      | (.ok (.complete status, written), next) =>
        (.ok (if (status == 0) != untilTrue then .enter else .stop, written), next)
      | (.error i, next) => (.error i, next) := by
  rw [decideByStatus, bind_apply]
  rcases part written condition shell with ⟨i | ⟨status | _ | _, written⟩, next⟩
  · rfl
  · cases h : (status == 0) == untilTrue <;> simp only [h, bne] <;> rfl
  · rfl
  · rfl

end Loop

/-! ## The depth of loops -/

/-- A runner whose statements and words leave the depth of loops as it was. -/
structure Runner.KeepsLoops (r : Runner) : Prop where
  statement (statement : Statement) (shell : Shell) :
    (statement.run r shell).2.loopDepth = shell.loopDepth
  value (word : Word) (shell : Shell) : (word.value r.expander shell).2.loopDepth = shell.loopDepth
  fields (words : List Word) (shell : Shell) :
    (Word.allFields r.expander words shell).2.loopDepth = shell.loopDepth

theorem Runner.keepsLoops_ofLimits (limits : Limits) (utilities : List (String × Utility)) :
    (ofLimits limits utilities).KeepsLoops where
  statement statement shell :=
    congrArg Frame.loopDepth (Statement.restoring_run limits utilities statement shell).frame
  value word shell :=
    congrArg Frame.loopDepth (word.value_related (isClosed_confinement limits)
      (confined_ofLimits limits utilities).expander shell).1
  fields words shell :=
    congrArg Frame.loopDepth (Word.allFields_related (isClosed_confinement limits)
      (confined_ofLimits limits utilities).expander words shell).1

namespace Runner.KeepsLoops

variable {r : Runner} (hr : r.KeepsLoops)
include hr

theorem runAll (o : Outcome) (statements : List Statement) (shell : Shell) :
    (Statement.runAll r o statements shell).2.loopDepth = shell.loopDepth := by
  induction statements generalizing o shell with
  | nil => rfl
  | cons statement rest ih =>
    have hkept := hr.statement statement shell
    rw [Statement.runAll, bind_apply, Run.after]
    rcases hrun : statement.run r shell with ⟨i | new, next⟩ <;> rw [hrun] at hkept
    · exact hkept
    · exact (ih _ next).trans hkept

theorem part (written : Output) (status : Int) (statements : List Statement) (shell : Shell) :
    (Loop.part written (fun written => Statement.runAll r ⟨written, status⟩ statements)
      shell).2.loopDepth = shell.loopDepth := by
  have hkept := hr.runAll ⟨written, status⟩ statements shell
  rw [Loop.part, tryCatch_apply, bind_apply]
  rcases hrun : Statement.runAll r ⟨written, status⟩ statements shell with ⟨i | o, next⟩ <;>
    rw [hrun] at hkept
  · rcases i with ⟨levels | levels | status | status | excess, own⟩ | f
    case signal.break | signal.continue =>
      dsimp only
      rw [Loop.passOn_apply]
      split <;> exact hkept
    all_goals exact hkept
  · exact hkept

end Runner.KeepsLoops

/-! ## A statement that is a compound command -/

/-- Without redirections output goes where it would go. -/
theorem Streams.around_ofInput (input : String) (run : Run Outcome) :
    (ofInput input).around run = run := by
  funext shell
  rw [around, bind_apply, tryCatch_apply]
  rcases run shell with ⟨(⟨s, output⟩ | f) | o, next⟩
  · dsimp only
    rw [deliver_eq input rfl]
    rfl
  · rfl
  · dsimp only
    rw [deliver_eq input rfl]
    rfl

theorem Run.redirected_nil (x : Expander) (input : String) (run : Streams → Run Outcome) :
    redirected x [] input run = run (Streams.ofInput input) := rfl

/-- Reading what is read anyway. -/
theorem Run.withInput_getD (run : Run Outcome) (shell : Shell) :
    withInput (shell.groupInput.getD "") run shell =
      ((run shell).1, { (run shell).2 with groupInput := shell.groupInput }) := by
  have henter : (if (shell.groupInput.getD "").isEmpty then shell
      else { shell with groupInput := some (shell.groupInput.getD "") }) = shell := by
    split
    · rfl
    · rename_i hinput
      rcases hread : shell.groupInput with _ | input
      · rw [hread] at hinput
        exact absurd rfl hinput
      · rw [Option.getD_some, ← hread]
  rw [withInput, during, henter]
  rfl

/-- The result of a statement that is a compound command, from that of the command. -/
def Run.concluding (label : String) (negated : Bool) (outside : Shell) :
    Except Interrupt Outcome × Shell → Except Interrupt Outcome × Shell
  | (.ok o, final) =>
    let status := if negated then (if o.status = 0 then 1 else 0) else o.status
    (.ok ⟨Output.ofError final.expansionErrors ++ o.output, status⟩,
      { final with
        groupInput := outside.groupInput, expansionErrors := outside.expansionErrors, status })
  | (.error (.signal s output), final) =>
    (.error (.signal s (Output.ofError final.expansionErrors ++ output)),
      { final with
        groupInput := outside.groupInput, expansionErrors := outside.expansionErrors })
  | (.error (.fault f), final) =>
    let status := if negated then 0 else 1
    (.ok ⟨.ofError ("bash: " ++ label ++ ": " ++ f.message ++ "\n"), status⟩,
      { final with
        groupInput := outside.groupInput, expansionErrors := outside.expansionErrors, status })

theorem Statement.run_compound (r : Runner) (c : Compound) (negated background : Bool)
    {shell counted : Shell} (hcount : accept r.limits shell = (.ok (), counted)) :
    Statement.run r ⟨⟨[.compound c []], negated⟩, [], background⟩ shell =
      Run.concluding (Command.compound c []).label negated counted
        (c.run r { counted with expansionErrors := "" }) := by
  have hcommand : Command.run r (.compound c []) (counted.groupInput.getD "") =
      withExpansionErrors (withInput (counted.groupInput.getD "") (c.run r)) := by
    rw [Command.run, redirected_nil, Streams.around_ofInput]
    rfl
  rw [Statement.run_eq, bind_apply, hcount]
  simp only [Statement.runRest, bind_pure]
  rw [Pipeline.run, bind_apply, get_apply]
  simp only [Command.runStages, bind_assoc, pure_bind]
  rw [bind_apply, Run.after, stage, tryCatch_apply, hcommand, withExpansionErrors]
  have hinput := Run.withInput_getD (c.run r) { counted with expansionErrors := "" }
  dsimp only at hinput ⊢
  rw [hinput]
  rcases hrun : c.run r { counted with expansionErrors := "" } with ⟨(⟨s, output⟩ | f) | o, final⟩
  · have hafter : Interrupt.after (.ofError Outcome.success.output.stderr)
        (.signal s (Output.ofError final.expansionErrors ++ output)) =
        .signal s (Output.ofError final.expansionErrors ++ output) :=
      congrArg (Interrupt.signal s) (Output.empty_append _)
    cases s <;> exact congrArg (fun i => (Except.error i, _)) hafter
  · exact congrArg (fun o => Run.conclude negated o _) (Outcome.after_empty _)
  · exact congrArg (fun o => Run.conclude negated o _) (Outcome.after_empty _)

end VirtualShell
