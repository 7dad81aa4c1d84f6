import VirtualShell.Proofs.Limits.Unfolding
import VirtualShell.Proofs.Session.Restoration

/-!
# What a script uses of its limits

A run writes down what it uses: the statements it was let run, the depths that calls and
substitutions reached, and the turns of the loop with the most of them. None of this passes the
limits, since every step keeps the accounts in order for the depth that is left to it.

* `Shell.Accounted` — what is written down keeps to the limits, and every statement was counted.
* `Frame.HasLeft` — calls and substitutions may still stand so deep inside one another.
* `accounting` — the relation of steps that keep the accounts, for some depth that is left.
* **`Session.runs_within_limits`** — every script comes to an end, and keeps to the limits.
-/

namespace VirtualShell

open Run

/-! ## Accounts -/

/-- **The accounts are in order**: no more was used than the limits allow, and only counted
statements were let run. -/
structure Shell.Accounted (limits : Limits) (shell : Shell) : Prop where
  counted : shell.usage.statements ≤ shell.statementCount
  statements : shell.usage.statements ≤ limits.statements.toNat
  calls : shell.usage.callDepth ≤ limits.callDepth.toNat
  substitutions : shell.usage.substitutionDepth ≤ limits.substitutionDepth.toNat
  turns : shell.usage.loopTurns ≤ limits.loopTurns.toNat

/-- Accounts are told by the count and the usage. -/
theorem Shell.Accounted.congr {limits : Limits} {a b : Shell} (h : a.Accounted limits)
    (hab : b.account = a.account) : b.Accounted limits := by
  have hcount : b.statementCount = a.statementCount := congrArg Prod.fst hab
  have husage : b.usage = a.usage := congrArg Prod.snd hab
  obtain ⟨hcounted, hstatements, hcalls, hsubstitutions, hturns⟩ := h
  rw [← husage] at hcounted hstatements hcalls hsubstitutions hturns
  exact ⟨hcount ▸ hcounted, hstatements, hcalls, hsubstitutions, hturns⟩

/-- Going back from a function changes parameters only. -/
theorem Shell.account_leaveCall (initial final : Shell) :
    (Shell.leaveCall initial final).account = final.account := by
  rw [leaveCall, dropParameters]
  split <;> rfl

/-- **So many calls and substitutions** may still stand inside one another. -/
structure Frame.HasLeft (limits : Limits) (calls substitutions : Nat) (frame : Frame) : Prop where
  calls : frame.callDepth + calls ≤ limits.callDepth.toNat
  substitutions : frame.substitutionDepth + substitutions ≤ limits.substitutionDepth.toNat

namespace Run

variable {α β : Type} {limits : Limits} {c d : Nat} {e : Escapes} {x : Run α}

/-- **A step that keeps the accounts** where so much depth is left, and begins no turn of the loop
it stands in. -/
def Accounts (limits : Limits) (c d : Nat) (x : Run α) : Prop :=
  ∀ shell : Shell, shell.frame.HasLeft limits c d → shell.Accounted limits →
    (x shell).2.Accounted limits ∧ (x shell).2.usage.turns = shell.usage.turns

/-- The rest of a loop that has some turns left keeps the accounts. -/
def AccountsTurns (limits : Limits) (c d n : Nat) (x : Run α) : Prop :=
  ∀ shell : Shell, shell.frame.HasLeft limits c d → shell.Accounted limits →
    shell.usage.turns + n ≤ limits.loopTurns.toNat → (x shell).2.Accounted limits

theorem Calm.accounts (hx : Calm x) : Accounts limits c d x := by
  intro shell _ h
  have haccount := hx.account shell
  exact ⟨h.congr haccount, congrArg (·.2.turns) haccount⟩

namespace Accounts

theorem bind {f : α → Run β} (hconfined : Confined e x) (hx : Accounts limits c d x)
    (hf : ∀ a, Accounts limits c d (f a)) : Accounts limits c d (x >>= f) := by
  intro shell hleft haccounted
  have hframe := (hconfined shell).1
  obtain ⟨hnext, hturns⟩ := hx shell hleft haccounted
  rw [bind_apply]
  rcases h : x shell with ⟨i | a, next⟩
  · rw [h] at hnext hturns
    exact ⟨hnext, hturns⟩
  · rw [h] at hframe hnext hturns
    dsimp only at hframe hnext hturns
    obtain ⟨hfinal, hkept⟩ := hf a next (hframe ▸ hleft) hnext
    exact ⟨hfinal, hkept.trans hturns⟩

theorem handle {h : Interrupt → Run α} (hx : Accounts limits c d x)
    (hh : ∀ i shell, (h i shell).2.account = shell.account) :
    Accounts limits c d (tryCatch x h) := by
  intro shell hleft haccounted
  obtain ⟨hnext, hturns⟩ := hx shell hleft haccounted
  rw [tryCatch_apply]
  rcases hx' : x shell with ⟨i | a, next⟩
  · rw [hx'] at hnext hturns
    exact ⟨hnext.congr (hh i next), (congrArg (·.2.turns) (hh i next)).trans hturns⟩
  · rw [hx'] at hnext hturns
    exact ⟨hnext, hturns⟩

theorem answer {h : Interrupt → Run α} (hx : Accounts limits c d x) (hh : IsAnswer h) :
    Accounts limits c d (tryCatch x h) :=
  hx.handle fun i shell => congrArg Shell.account (hh.state_eq i shell)

/-- What is set up for the time of a step may leave less depth for it. -/
theorem during {enter : Shell → Shell} {leave : Shell → Shell → Shell} {c' d' : Nat}
    (hx : Accounts limits c' d' x)
    (hleft : ∀ shell : Shell, shell.frame.HasLeft limits c d →
      (enter shell).frame.HasLeft limits c' d')
    (hreach : ∀ shell : Shell, shell.frame.HasLeft limits c d → shell.Accounted limits →
      (enter shell).Accounted limits)
    (hturns : ∀ shell, (enter shell).usage.turns = shell.usage.turns)
    (hleave : ∀ initial final, (leave initial final).account = final.account) :
    Accounts limits c d (Run.during enter leave x) := by
  intro shell hshell haccounted
  obtain ⟨hfinal, hkept⟩ := hx (enter shell) (hleft shell hshell) (hreach shell hshell haccounted)
  refine ⟨hfinal.congr (hleave _ _), ?_⟩
  exact (congrArg (·.2.turns) (hleave _ _)).trans (hkept.trans (hturns shell))

/-- What is set up without any use of the limits. -/
theorem around {enter : Shell → Shell} {leave : Shell → Shell → Shell}
    (hx : Accounts limits c d x)
    (henter : ∀ shell, (enter shell).account = shell.account ∧
      (enter shell).callDepth = shell.callDepth ∧
      (enter shell).substitutionDepth = shell.substitutionDepth)
    (hleave : ∀ initial final, (leave initial final).account = final.account) :
    Accounts limits c d (Run.during enter leave x) := by
  refine hx.during (fun shell h => ?_) (fun shell _ h => h.congr (henter shell).1)
    (fun shell => congrArg (·.2.turns) (henter shell).1) hleave
  obtain ⟨-, hcalls, hsubstitutions⟩ := henter shell
  exact ⟨le_of_eq_of_le (congrArg (· + c) hcalls) h.calls,
    le_of_eq_of_le (congrArg (· + d) hsubstitutions) h.substitutions⟩

end Accounts

/-! ## The constructs -/

theorem accounts_leaving {builtin : Builtin} (h : builtin ∈ Builtin.leaving.map (·.2))
    (arguments : List String) : Accounts limits c d (builtin arguments) := by
  intro shell _ haccounted
  have haccount := (leaving_spec h arguments shell).1.account
  exact ⟨haccounted.congr haccount, congrArg (·.2.turns) haccount⟩

/-- A statement is let run only when the count has not passed the limit. -/
theorem accounts_accept : Accounts limits c d (accept limits) := by
  intro shell _ h
  obtain ⟨hcounted, hstatements, hcalls, hsubstitutions, hturns⟩ := h
  rw [accept_apply]
  split
  · exact ⟨⟨Nat.le_succ_of_le hcounted, hstatements, hcalls, hsubstitutions, hturns⟩, rfl⟩
  · next hlimit =>
    refine ⟨⟨Nat.succ_le_succ hcounted, ?_, hcalls, hsubstitutions, hturns⟩, rfl⟩
    have hcount : shell.statementCount + 1 ≤ limits.statements.toNat := by omega
    exact Nat.le_trans (Nat.succ_le_succ hcounted) hcount

theorem accounts_binding {x : Run Outcome} (hx : Accounts limits c d x)
    (bindings : Table String String) : Accounts limits c d (binding bindings x) := by
  unfold binding
  split
  · exact hx
  · exact hx.around (fun _ => ⟨rfl, rfl, rfl⟩) fun _ _ => rfl

theorem accounts_withInput {x : Run Outcome} (hx : Accounts limits c d x) (input : String) :
    Accounts limits c d (withInput input x) := by
  refine hx.around (fun shell => ?_) fun _ _ => rfl
  split <;> exact ⟨rfl, rfl, rfl⟩

theorem accounts_withExpansionErrors {x : Run Outcome} (hx : Accounts limits c d x) :
    Accounts limits c d (withExpansionErrors x) := by
  intro shell hleft h
  obtain ⟨hfinal, hturns⟩ := hx { shell with expansionErrors := "" } hleft (h.congr rfl)
  exact ⟨hfinal.congr rfl, hturns⟩

/-- A loop starts with all its turns left, and the turns of the loop around it stay as they are. -/
theorem accounts_inside (hx : AccountsTurns limits c d (Loop.turns limits) x) :
    Accounts limits c d (Loop.inside x) := by
  intro shell hleft h
  obtain ⟨hcounted, hstatements, hcalls, hsubstitutions, hturns⟩ := h
  -- The turns of this loop are counted from zero; those of the loop around it come back after it.
  obtain ⟨hcounted, hstatements, hcalls, hsubstitutions, hturns⟩ := hx { shell with
    loopDepth := shell.loopDepth + 1
    usage := shell.usage.enterLoop } ⟨hleft.calls, hleft.substitutions⟩
    ⟨hcounted, hstatements, hcalls, hsubstitutions, hturns⟩
    (Nat.le_of_eq (Nat.zero_add _))
  exact ⟨⟨hcounted, hstatements, hcalls, hsubstitutions, hturns⟩, rfl⟩

theorem accounts_part {body : Output → Run Outcome} (hconfined : ∀ o, Confined .command (body o))
    (hbody : ∀ o, Accounts limits c d (body o)) (written : Output) :
    Accounts limits c d (Loop.part written body) := by
  refine (Accounts.bind (hconfined written) (hbody written) fun _ => (tame_pure _).calm.accounts).handle
    fun i shell => ?_
  rcases i with ⟨levels | levels | status | status | excess, output⟩ | fault
  case signal.break =>
    exact congrArg Shell.account (passOn_spec .break levels output .left shell).1
  case signal.continue =>
    exact congrArg Shell.account (passOn_spec .continue levels output .skipped shell).1
  all_goals rfl

theorem accounts_calling {x : Run Outcome} (hx : Accounts limits c d x) (arguments : List String) :
    Accounts limits (c + 1) d (calling arguments x) := by
  obtain ⟨handler, hanswer, -, hcalling⟩ := calling_eq_during
  rw [hcalling]
  refine (hx.answer hanswer).during (fun shell hleft => ?_) (fun shell hleft h => ?_)
    (fun _ => rfl) Shell.account_leaveCall
  · have hcalls : shell.callDepth + (c + 1) ≤ limits.callDepth.toNat := hleft.calls
    have hinner : shell.callDepth + 1 + c ≤ limits.callDepth.toNat := by omega
    exact ⟨hinner, hleft.substitutions⟩
  · have hcalls : shell.callDepth + (c + 1) ≤ limits.callDepth.toNat := hleft.calls
    have hdepth : shell.callDepth + 1 ≤ limits.callDepth.toNat := by omega
    exact ⟨h.counted, h.statements, Nat.max_le.2 ⟨h.calls, hdepth⟩, h.substitutions, h.turns⟩

theorem accounts_substituting {x : Run Outcome} (hx : Accounts limits c d x) :
    Accounts limits c (d + 1) (substituting x) := by
  obtain ⟨handler, hanswer, -, hsubstituting⟩ := substituting_eq_during
  rw [hsubstituting]
  refine (hx.answer hanswer).during (fun shell hleft => ?_) (fun shell hleft h => ?_)
    (fun _ => rfl) fun _ _ => rfl
  · have hdepths : shell.substitutionDepth + (d + 1) ≤ limits.substitutionDepth.toNat :=
      hleft.substitutions
    have hinner : shell.substitutionDepth + 1 + d ≤ limits.substitutionDepth.toNat := by omega
    exact ⟨hleft.calls, hinner⟩
  · have hdepths : shell.substitutionDepth + (d + 1) ≤ limits.substitutionDepth.toNat :=
      hleft.substitutions
    have hdepth : shell.substitutionDepth + 1 ≤ limits.substitutionDepth.toNat := by omega
    exact ⟨h.counted, h.statements, h.calls, Nat.max_le.2 ⟨h.substitutions, hdepth⟩, h.turns⟩

/-! ## Turns -/

namespace AccountsTurns

theorem bind {n : Nat} {f : α → Run β} (hconfined : Confined e x) (hx : Accounts limits c d x)
    (hf : ∀ a, AccountsTurns limits c d n (f a)) : AccountsTurns limits c d n (x >>= f) := by
  intro shell hleft haccounted hn
  have hframe := (hconfined shell).1
  obtain ⟨hnext, hturns⟩ := hx shell hleft haccounted
  rw [bind_apply]
  rcases h : x shell with ⟨i | a, next⟩
  · rw [h] at hnext
    exact hnext
  · rw [h] at hframe hnext hturns
    dsimp only at hframe hnext hturns
    exact hf a next (hframe ▸ hleft) hnext (hturns ▸ hn)

/-- A loop with a turn left may begin one. -/
theorem begin {n : Nat} (hx : AccountsTurns limits c d n x) :
    AccountsTurns limits c d (n + 1) (Loop.beginTurn >>= fun _ => x) := by
  intro shell hleft h hn
  have hturn : shell.usage.turns + 1 ≤ limits.loopTurns.toNat := by omega
  have hrest : shell.usage.turns + 1 + n ≤ limits.loopTurns.toNat := by omega
  exact hx { shell with usage := shell.usage.beginTurn } ⟨hleft.calls, hleft.substitutions⟩
    ⟨h.counted, h.statements, h.calls, h.substitutions, Nat.max_le.2 ⟨h.turns, hturn⟩⟩ hrest

theorem succ {n : Nat} (hx : AccountsTurns limits c d n x) :
    AccountsTurns limits c d (n + 1) x :=
  fun shell hleft h hn => hx shell hleft h (by omega)

end AccountsTurns

end Run

/-! ## The relation -/

/-- **Steps that keep the accounts** where so much depth is left, in the frames that they keep. -/
def accounting (limits : Limits) (c d : Nat) : StepRelation where
  word x _ := Confined .calm x ∧ Accounts limits c d x
  command x _ := Confined .command x ∧ Accounts limits c d x
  turn x _ := Confined .turn x ∧ Accounts limits c d x
  loop n _ x _ := Confined .turn x ∧ AccountsTurns limits c d n x

theorem isClosed_accounting (limits : Limits) (c d : Nat) :
    (accounting limits c d).IsClosed limits where
  word_tame hx := ⟨hx.confined Escapes.isRegular_calm, hx.calm.accounts⟩
  word_bind hx hf := ⟨hx.1.bind fun a => (hf a).1, hx.2.bind hx.1 fun a => (hf a).2⟩
  word_handle hx hh :=
    ⟨hx.1.handle Escapes.isRegular_calm hh, hx.2.handle fun i shell => (hh i shell).1.account⟩
  command_word hx := ⟨hx.1.mono Escapes.waiting_of_calm, hx.2⟩
  command_bind hx hf := ⟨hx.1.bind fun a => (hf a).1, hx.2.bind hx.1 fun a => (hf a).2⟩
  command_handle hx hh :=
    ⟨hx.1.handle Escapes.isRegular_command hh, hx.2.handle fun i shell => (hh i shell).1.account⟩
  command_leaving arguments h := ⟨confined_leaving h arguments, accounts_leaving h arguments⟩
  command_accept := ⟨confined_accept limits, accounts_accept⟩
  command_binding bindings hx := ⟨confined_binding hx.1 bindings, accounts_binding hx.2 bindings⟩
  command_withInput input hx := ⟨confined_withInput hx.1 input, accounts_withInput hx.2 input⟩
  command_withExpansionErrors hx :=
    ⟨confined_withExpansionErrors hx.1, accounts_withExpansionErrors hx.2⟩
  command_inside hx := ⟨confined_inside hx.1, accounts_inside hx.2⟩
  turn_word hx := ⟨hx.1.mono Escapes.waiting_of_calm, hx.2⟩
  turn_bind hx hf := ⟨hx.1.bind fun a => (hf a).1, hx.2.bind hx.1 fun a => (hf a).2⟩
  turn_part written hbody := ⟨confined_part (fun o => (hbody o).1) written,
    accounts_part (fun o => (hbody o).1) (fun o => (hbody o).2) written⟩
  loop_turn _ hx := ⟨hx.1, fun shell hleft h _ => (hx.2 shell hleft h).1⟩
  loop_bind _ hx hf := ⟨hx.1.bind fun a => (hf a).1, .bind hx.1 hx.2 fun a => (hf a).2⟩
  loop_begin _ hx := ⟨confined_beginTurn.bind fun _ => hx.1, hx.2.begin⟩
  loop_succ _ hx := ⟨hx.1, hx.2.succ⟩

/-- Utilities run no scripts. -/
theorem accounting_step {limits : Limits} {c d : Nat} (utility : Utility) (call : Call) :
    (accounting limits c d).command (utility.step call) (utility.step call) :=
  have hcalm := utility.calm_step call
  ⟨hcalm.confined Escapes.isRegular_command, hcalm.accounts⟩

theorem isGraded_accounting (limits : Limits) (utilities : List (String × Utility)) :
    IsGraded (accounting limits) limits utilities where
  closed := isClosed_accounting limits
  utility call _ := accounting_step _ call
  calling arguments hx := ⟨confined_calling hx.1 arguments, accounts_calling hx.2 arguments⟩
  substituting hx := ⟨confined_substituting hx.1, accounts_substituting hx.2⟩

/-- How much depth a shell has left is what its runner is made for. -/
theorem Shell.hasLeft {limits : Limits} {shell : Shell} (h : shell.frame.HasLeft limits 0 0) :
    shell.frame.HasLeft limits (limits.callDepth.toNat - shell.callDepth)
      (limits.substitutionDepth.toNat - shell.substitutionDepth) where
  calls := Nat.le_of_eq (Nat.add_sub_cancel' h.calls)
  substitutions := Nat.le_of_eq (Nat.add_sub_cancel' h.substitutions)

/-- **The runner of shells with some limits keeps the accounts.** -/
theorem Runner.accounting_ofLimits (limits : Limits) (utilities : List (String × Utility)) :
    (ofLimits limits utilities).Related (accounting limits 0 0) limits
      (ofLimits limits utilities) where
  limits_left := rfl
  limits_right := rfl
  utilities := rfl
  utility _ utility call _ := accounting_step utility call
  expander := by
    refine Expander.related_ofSubstitute (isClosed_accounting limits 0 0) fun body => ⟨?_, ?_⟩
    · exact (confined_ofLimits limits utilities).expander.substitute body
    · intro shell hleft h
      exact ((forDepth_related (isGraded_accounting limits utilities) _ _).expander.substitute body).2 shell
        (Shell.hasLeft hleft) h
  call name function arguments input := by
    refine ⟨(confined_ofLimits limits utilities).call name function arguments input, ?_⟩
    intro shell hleft h
    exact ((forDepth_related (isGraded_accounting limits utilities) _ _).call name function arguments input).2
      shell (Shell.hasLeft hleft) h

/-! ## Sessions -/

namespace Session

/-- **A script keeps to the limits**, counted from its start. -/
theorem accounted_scriptBody (limits : Limits) (utilities : List (String × Utility))
    (script : Script) {shell : Shell} (h : shell.AtRest) :
    (scriptBody (.ofLimits limits utilities) script shell).2.Accounted limits := by
  rw [scriptBody, bind_apply, modify_apply]
  dsimp only
  rw [concluding_state]
  have hrun := Statement.runAll_related (isClosed_accounting limits 0 0)
    (Runner.accounting_ofLimits limits utilities) .success script.statements
  refine (hrun.2 _ ⟨?_, ?_⟩ ⟨?_, ?_, ?_, ?_, ?_⟩).1
  · exact le_of_eq_of_le h.calls (Nat.zero_le _)
  · exact le_of_eq_of_le h.substitutions (Nat.zero_le _)
  all_goals exact Nat.zero_le _

/-- **Every script comes to an end and keeps to the limits.** A shell that calls itself is the one
that goes down through the depths that are left, so it never calls itself for ever; and on the way
no limit is passed, by the script, its functions and its substitutions together. Below zero a limit
allows as much as zero. -/
theorem runs_within_limits (s : Session) (h : s.Reachable) (script : Script) :
    (∀ r : Runner, r.CallsItself s.limits s.utilities ↔ r = .ofLimits s.limits s.utilities) ∧
    let usage := (runScript (.ofLimits s.limits s.utilities) script s.shell).2.usage
    (usage.statements : Int) ≤ max 0 s.limits.statements ∧
      (usage.callDepth : Int) ≤ max 0 s.limits.callDepth ∧
      (usage.substitutionDepth : Int) ≤ max 0 s.limits.substitutionDepth ∧
      (usage.loopTurns : Int) ≤ max 0 s.limits.loopTurns := by
  refine ⟨Runner.callsItself_iff s.limits s.utilities, ?_⟩
  intro usage
  have haccounted := accounted_scriptBody s.limits s.utilities script h.atRest.shell
  rw [← runScript_eq s.limits s.utilities script h.atRest.shell] at haccounted
  have hstatements : usage.statements ≤ s.limits.statements.toNat := haccounted.statements
  have hcalls : usage.callDepth ≤ s.limits.callDepth.toNat := haccounted.calls
  have hsubstitutions : usage.substitutionDepth ≤ s.limits.substitutionDepth.toNat :=
    haccounted.substitutions
  have hturns : usage.loopTurns ≤ s.limits.loopTurns.toNat := haccounted.turns
  refine ⟨?_, ?_, ?_, ?_⟩ <;> omega

/-- `f() { while true; do f; done; }; f`, which only the limits can stop. -/
theorem runs_within_limits_recursion :
    let s := Session.start .bare "/home/user" [] (.ofClock ⟨0, 1⟩) .standard [] false
    let call (name : String) : Statement :=
      ⟨⟨[.simple ⟨[], some (.ofLiteral name), [], [], 1⟩], false⟩, [], false⟩
    let body : Compound := .group [⟨⟨[.compound (.loop .whileTrue [call "true"] [call "f"]) []],
      false⟩, [], false⟩]
    let script : Script := ⟨[⟨⟨[.function "f" body []], false⟩, [], false⟩, call "f"]⟩
    let usage := (runScript (.ofLimits s.limits s.utilities) script s.shell).2.usage
    (usage.statements : Int) ≤ 10000 ∧ (usage.callDepth : Int) ≤ 50 ∧
      (usage.substitutionDepth : Int) ≤ 20 ∧ (usage.loopTurns : Int) ≤ 10000 :=
  (runs_within_limits (.start .bare "/home/user" [] (.ofClock ⟨0, 1⟩) .standard [] false)
    (.start .bare "/home/user" [] (.ofClock ⟨0, 1⟩) .standard [] false) _).2

end Session

end VirtualShell
