import Mathlib
import VirtualShell.Proofs.Limits.Usage
import VirtualShell.Proofs.Session.Containment
import VirtualShell.Utility.Registry

/-!
# Captured output

What the body of a command substitution writes becomes the value of the word it stands in. It should
get out in no other way: neither when the body comes to its end, nor when it is left by `exit`, nor
when it passes a limit. The last is not so, since a passed limit takes along what was written before
it, through the substitution and everything around it.

To say that nothing else gets out, the shell is compared with one whose substitutions are sealed: no
signal takes standard output out of them. Both do the same until a limit is passed in a substitution
that has already written something. The sealed shell makes a note of this, so that there is something
to go by afterwards; what such a run still does may differ in every way, since files may be written
with the output and may not be written without it.

* `Run.sealed` — a step that lets no standard output out with a signal.
* `Shell.HasLeaked` — the note that there was some to be let out.
* `sealing` — the relation of steps that do the same unless this is noted.
* `Run.Captures` — what a substitution makes of the end of its body.
* **`Session.Reachable.run_eq_runSealed_iff`** — when sealing makes no difference.
-/

namespace VirtualShell

open Run

/-! ## Sealed substitutions -/

/-- **Captured output has got out.** This is noted as a depth of substitutions that none may reach. -/
def Shell.HasLeaked (limits : Limits) (shell : Shell) : Prop :=
  limits.substitutionDepth.toNat < shell.usage.substitutionDepth

/-- Note that captured output has got out. -/
def Shell.noteLeak (limits : Limits) (shell : Shell) : Shell :=
  { shell with usage := shell.usage.reachSubstitution (limits.substitutionDepth.toNat + 1) }

/-- **A sealed step.** The signal that leaves it takes no standard output along; when a passed limit
would have taken some, this is noted. -/
def Run.sealed (limits : Limits) (run : Run Outcome) : Run Outcome := fun shell =>
  match run shell with
  | (.error (.signal (.excess e) output), final) =>
    (.error (.signal (.excess e) (.ofError output.stderr)),
      if output.stdout = "" then final else final.noteLeak limits)
  | (.error (.signal s output), final) => (.error (.signal s (.ofError output.stderr)), final)
  | ended => ended

namespace Runner

/-- A runner for some depth of substitutions, which are sealed. -/
def sealedWithin (limits : Limits) (utilities : List (String × Utility))
    (calls : Nat → Option Runner) : Nat → Runner
  | 0 => within limits utilities calls 0
  | depth + 1 => {
      limits, utilities
      expander := .ofSubstitute fun body =>
        Run.sealed limits (substituteBy (sealedWithin limits utilities calls depth) body)
      call := fun name function arguments input =>
        callBy limits (calls (depth + 1)) name function arguments input }

/-- A runner for some depth of calls and of sealed substitutions. -/
def sealedForDepth (limits : Limits) (utilities : List (String × Utility)) :
    (calls substitutions : Nat) → Runner
  | 0, substitutions => sealedWithin limits utilities (fun _ => none) substitutions
  | calls + 1, substitutions =>
    sealedWithin limits utilities (fun depth => some (sealedForDepth limits utilities calls depth))
      substitutions

/-- The sealed runner for the depths that a shell has left. -/
def sealedLeftIn (limits : Limits) (utilities : List (String × Utility)) (shell : Shell) : Runner :=
  sealedForDepth limits utilities (limits.callDepth.toNat - shell.callDepth)
    (limits.substitutionDepth.toNat - shell.substitutionDepth)

/-- **The runner of shells with some limits whose substitutions are sealed.** -/
def sealedOfLimits (limits : Limits) (utilities : List (String × Utility)) : Runner where
  limits := limits
  utilities := utilities
  expander := .ofSubstitute fun body shell =>
    (sealedLeftIn limits utilities shell).expander.substitute body shell
  call := fun name function arguments input shell =>
    (sealedLeftIn limits utilities shell).call name function arguments input shell

end Runner

/-- **Run a script with sealed substitutions.** -/
def Session.runSealed (s : Session) (text : String) : Except Interrupt Outcome × Session :=
  let text := if s.restoresOperators then Text.restoreOperators text else text
  let (result, shell) := runText (.sealedOfLimits s.limits s.utilities) text s.shell
  (result, { s with shell })

/-! ## What gets out -/

namespace Run

/-- A return and an exit of its body are answered by a substitution. -/
def answered : Except Interrupt Outcome → Except Interrupt Outcome
  | .error (.signal (.return status) output) | .error (.signal (.exit status) output) =>
    .ok ⟨output, status⟩
  | ended => ended

theorem substituting_fst (x : Run Outcome) (shell : Shell) :
    (substituting x shell).1 = answered (x shell.enterSubstitution).1 := by
  simp only [substituting, during, tryCatch_apply]
  rcases x shell.enterSubstitution with ⟨i | o, final⟩
  · rcases i with ⟨levels | levels | status | status | excess, output⟩ | fault <;> rfl
  · rfl

theorem answered_ne_exit (ended : Except Interrupt Outcome) (status : Int) (output : Output) :
    answered ended ≠ .error (.signal (.exit status) output) := by
  rcases ended with i | o
  · rcases i with ⟨levels | levels | status | status | excess, output⟩ | fault <;> exact nofun
  · exact nofun

/-- Nothing but a passed limit leaves a substitution as a signal. -/
theorem exists_excess_of_substituting {x : Run Outcome} (hx : Confined .command x) {shell : Shell}
    {s : Signal} {output : Output} (h : (substituting x shell).1 = .error (.signal s output)) :
    ∃ e, s = .excess e := by
  have hcalm := (confined_substituting hx shell).2 _ h
  cases s with
  | excess e => exact ⟨e, rfl⟩
  | exit status =>
    rw [substituting_fst] at h
    exact absurd h (answered_ne_exit _ status output)
  | _ => exact hcalm.elim

end Run

/-! ## The same until something leaks -/

namespace Run

variable {α β : Type} {limits : Limits}

/-- The note is all that sealing changes in the state. -/
theorem depth_le_sealed (limits : Limits) (run : Run Outcome) (shell : Shell) :
    (run shell).2.usage.substitutionDepth ≤
      (Run.sealed limits run shell).2.usage.substitutionDepth := by
  rw [Run.sealed]
  split
  next h =>
    rw [h]
    split
    · exact Nat.le_refl _
    · exact Nat.le_max_left _ _
  next h => exact h ▸ Nat.le_refl _
  · exact Nat.le_refl _

/-- A step that nothing but a passed limit leaves is the same when it is sealed, or this is noted. -/
theorem eq_sealed_or_hasLeaked {run : Run Outcome} {shell : Shell}
    (h : ∀ s output, (run shell).1 = .error (.signal s output) → ∃ e, s = .excess e) :
    run shell = Run.sealed limits run shell ∨ (Run.sealed limits run shell).2.HasLeaked limits := by
  rw [Run.sealed]
  rcases hrun : run shell with ⟨i | o, final⟩
  · cases i with
    | fault f => exact .inl rfl
    | signal s output =>
      obtain ⟨stdout, stderr⟩ := output
      obtain ⟨e, rfl⟩ := h s ⟨stdout, stderr⟩ (by rw [hrun])
      by_cases hnone : stdout = ""
      · subst hnone
        exact .inl rfl
      · right
        dsimp only
        rw [if_neg hnone]
        exact Nat.lt_of_lt_of_le (Nat.lt_succ_self _) (Nat.le_max_right _ _)
  · exact .inl rfl

/-- **Two steps do the same** unless the second one leaks, and a note of that stays. -/
structure SameUntilLeak (limits : Limits) (x y : Run α) : Prop where
  keeps : ∀ shell : Shell, shell.usage.substitutionDepth ≤ (y shell).2.usage.substitutionDepth
  same : ∀ shell : Shell, x shell = y shell ∨ (y shell).2.HasLeaked limits

namespace SameUntilLeak

variable {x y : Run α}

theorem refl_of_account (h : ∀ shell, (x shell).2.account = shell.account) :
    SameUntilLeak limits x x where
  keeps shell := Nat.le_of_eq (congrArg (·.2.substitutionDepth) (h shell)).symm
  same _ := .inl rfl

theorem bind {f g : α → Run β} (hxy : SameUntilLeak limits x y)
    (hfg : ∀ a, SameUntilLeak limits (f a) (g a)) :
    SameUntilLeak limits (x >>= f) (y >>= g) := by
  refine ⟨fun shell => ?_, fun shell => ?_⟩
  · have hkeeps := hxy.keeps shell
    rw [bind_apply]
    rcases hy : y shell with ⟨i | a, next⟩ <;> rw [hy] at hkeeps
    · exact hkeeps
    · exact Nat.le_trans hkeeps ((hfg a).keeps next)
  · rw [bind_apply, bind_apply]
    rcases hxy.same shell with hsame | hleaked
    · rw [hsame]
      rcases y shell with ⟨i | a, next⟩
      · exact .inl rfl
      · exact (hfg a).same next
    · refine .inr ?_
      rcases hy : y shell with ⟨i | a, next⟩ <;> rw [hy] at hleaked
      · exact hleaked
      · exact Nat.lt_of_lt_of_le hleaked ((hfg a).keeps next)

theorem handle {h : Interrupt → Run α} (hxy : SameUntilLeak limits x y)
    (hh : ∀ i shell, (h i shell).2.account = shell.account) :
    SameUntilLeak limits (tryCatch x h) (tryCatch y h) := by
  have hdepth (i : Interrupt) (shell : Shell) :
      (h i shell).2.usage.substitutionDepth = shell.usage.substitutionDepth :=
    congrArg (·.2.substitutionDepth) (hh i shell)
  have hfinal (shell : Shell) : (tryCatch y h shell).2.usage.substitutionDepth =
      (y shell).2.usage.substitutionDepth := by
    rw [tryCatch_apply]
    rcases y shell with ⟨i | a, next⟩
    · exact hdepth i next
    · rfl
  refine ⟨fun shell => le_of_le_of_eq (hxy.keeps shell) (hfinal shell).symm, fun shell => ?_⟩
  rcases hxy.same shell with hsame | hleaked
  · rw [tryCatch_apply, tryCatch_apply, hsame]
    exact .inl rfl
  · exact .inr (Nat.lt_of_lt_of_eq hleaked (hfinal shell).symm)

/-- What is set up for the time of a step, and undone however it ends. -/
theorem during {enter : Shell → Shell} {leave : Shell → Shell → Shell}
    (hxy : SameUntilLeak limits x y)
    (henter : ∀ shell, shell.usage.substitutionDepth ≤ (enter shell).usage.substitutionDepth)
    (hleave : ∀ initial final,
      (leave initial final).usage.substitutionDepth = final.usage.substitutionDepth) :
    SameUntilLeak limits (Run.during enter leave x) (Run.during enter leave y) := by
  refine ⟨fun shell => ?_, fun shell => ?_⟩
  · exact le_of_le_of_eq (Nat.le_trans (henter shell) (hxy.keeps _)) (hleave shell _).symm
  · rcases hxy.same (enter shell) with hsame | hleaked
    · simp only [Run.during, hsame, true_or]
    · exact .inr (Nat.lt_of_lt_of_eq hleaked (hleave shell _).symm)

theorem binding {x y : Run Outcome} (hxy : SameUntilLeak limits x y)
    (bindings : Table String String) :
    SameUntilLeak limits (binding bindings x) (binding bindings y) := by
  unfold Run.binding
  split
  · exact hxy
  · exact hxy.during (fun _ => Nat.le_refl _) fun _ _ => rfl

theorem withInput {x y : Run Outcome} (hxy : SameUntilLeak limits x y) (input : String) :
    SameUntilLeak limits (withInput input x) (withInput input y) := by
  refine hxy.during (fun shell => ?_) fun _ _ => rfl
  split <;> exact Nat.le_refl _

theorem withExpansionErrors {x y : Run Outcome} (hxy : SameUntilLeak limits x y) :
    SameUntilLeak limits (withExpansionErrors x) (withExpansionErrors y) where
  keeps shell := hxy.keeps { shell with expansionErrors := "" }
  same shell := by
    rcases hxy.same { shell with expansionErrors := "" } with hsame | hleaked
    · simp only [Run.withExpansionErrors, hsame, true_or]
    · exact .inr hleaked

theorem inside (hxy : SameUntilLeak limits x y) :
    SameUntilLeak limits (Loop.inside x) (Loop.inside y) :=
  hxy.during (fun _ => Nat.le_refl _) fun _ _ => rfl

theorem part {body body' : Output → Run Outcome}
    (hbody : ∀ o, SameUntilLeak limits (body o) (body' o)) (written : Output) :
    SameUntilLeak limits (Loop.part written body) (Loop.part written body') := by
  refine ((hbody written).bind fun _ => refl_of_account fun _ => rfl).handle fun i shell => ?_
  rcases i with ⟨levels | levels | status | status | excess, output⟩ | fault
  case signal.break =>
    exact congrArg Shell.account (passOn_spec .break levels output .left shell).1
  case signal.continue =>
    exact congrArg Shell.account (passOn_spec .continue levels output .skipped shell).1
  all_goals rfl

theorem calling {x y : Run Outcome} (hxy : SameUntilLeak limits x y) (arguments : List String) :
    SameUntilLeak limits (calling arguments x) (calling arguments y) := by
  obtain ⟨handler, hanswer, -, hcalling⟩ := calling_eq_during
  rw [hcalling, hcalling]
  refine (hxy.handle fun i shell => congrArg Shell.account (hanswer.state_eq i shell)).during
    (fun _ => Nat.le_refl _) fun initial final => ?_
  exact congrArg (·.2.substitutionDepth) (Shell.account_leaveCall initial final)

theorem substituting {x y : Run Outcome} (hxy : SameUntilLeak limits x y) :
    SameUntilLeak limits (substituting x) (substituting y) := by
  obtain ⟨handler, hanswer, -, hsubstituting⟩ := substituting_eq_during
  rw [hsubstituting, hsubstituting]
  exact (hxy.handle fun i shell => congrArg Shell.account (hanswer.state_eq i shell)).during
    (fun _ => Nat.le_max_left _ _) fun _ _ => rfl

/-- **Sealing makes a difference only at a leak** if nothing but a passed limit gets out. -/
theorem sealed {x y : Run Outcome} (hxy : SameUntilLeak limits x y)
    (hends : ∀ shell s output, (x shell).1 = .error (.signal s output) → ∃ e, s = .excess e) :
    SameUntilLeak limits x (Run.sealed limits y) := by
  refine ⟨fun shell => Nat.le_trans (hxy.keeps shell) (depth_le_sealed limits y shell),
    fun shell => ?_⟩
  rcases hxy.same shell with hsame | hleaked
  · rw [hsame]
    exact eq_sealed_or_hasLeaked (hsame ▸ hends shell)
  · exact .inr (Nat.lt_of_lt_of_le hleaked (depth_le_sealed limits y shell))

end SameUntilLeak

end Run

/-- **Steps that do the same until something leaks**, in the frames that they keep. -/
def sealing (limits : Limits) : StepRelation where
  word x y := Confined .calm x ∧ SameUntilLeak limits x y
  command x y := Confined .command x ∧ SameUntilLeak limits x y
  turn x y := Confined .turn x ∧ SameUntilLeak limits x y
  loop _ _ x y := Confined .turn x ∧ SameUntilLeak limits x y

theorem isClosed_sealing (limits : Limits) : (sealing limits).IsClosed limits where
  word_tame hx :=
    ⟨hx.confined Escapes.isRegular_calm, .refl_of_account hx.calm.account⟩
  word_bind hx hf := ⟨hx.1.bind fun a => (hf a).1, hx.2.bind fun a => (hf a).2⟩
  word_handle hx hh :=
    ⟨hx.1.handle Escapes.isRegular_calm hh, hx.2.handle fun i shell => (hh i shell).1.account⟩
  command_word hx := ⟨hx.1.mono Escapes.waiting_of_calm, hx.2⟩
  command_bind hx hf := ⟨hx.1.bind fun a => (hf a).1, hx.2.bind fun a => (hf a).2⟩
  command_handle hx hh :=
    ⟨hx.1.handle Escapes.isRegular_command hh, hx.2.handle fun i shell => (hh i shell).1.account⟩
  command_leaving arguments h := ⟨confined_leaving h arguments,
    .refl_of_account fun shell => (leaving_spec h arguments shell).1.account⟩
  command_accept := by
    refine ⟨confined_accept limits, fun shell => ?_, fun shell => .inl rfl⟩
    rw [accept_apply]
    split <;> exact Nat.le_refl _
  command_binding bindings hx := ⟨confined_binding hx.1 bindings, hx.2.binding bindings⟩
  command_withInput input hx := ⟨confined_withInput hx.1 input, hx.2.withInput input⟩
  command_withExpansionErrors hx := ⟨confined_withExpansionErrors hx.1, hx.2.withExpansionErrors⟩
  command_inside hx := ⟨confined_inside hx.1, hx.2.inside⟩
  turn_word hx := ⟨hx.1.mono Escapes.waiting_of_calm, hx.2⟩
  turn_bind hx hf := ⟨hx.1.bind fun a => (hf a).1, hx.2.bind fun a => (hf a).2⟩
  turn_part written hbody := ⟨confined_part (fun o => (hbody o).1) written,
    .part (fun o => (hbody o).2) written⟩
  loop_turn _ hx := hx
  loop_bind _ hx hf := ⟨hx.1.bind fun a => (hf a).1, hx.2.bind fun a => (hf a).2⟩
  loop_begin _ hx := ⟨confined_beginTurn.bind fun _ => hx.1,
    .bind ⟨fun _ => Nat.le_refl _, fun _ => .inl rfl⟩ fun _ => hx.2⟩
  loop_succ _ hx := hx

/-! ## The runners -/

namespace Runner

variable {limits : Limits} {utilities : List (String × Utility)}

/-- Utilities do the same, since they run no scripts. -/
theorem sealing_step (utility : Utility) (call : Call) :
    (sealing limits).command (utility.step call) (utility.step call) :=
  have hcalm := utility.calm_step call
  ⟨hcalm.confined Escapes.isRegular_command, .refl_of_account hcalm.account⟩

theorem within_sealing {calls calls' : Nat → Option Runner}
    (hcalls : ∀ d name function arguments input, (sealing limits).command
      (callBy limits (calls d) name function arguments input)
      (callBy limits (calls' d) name function arguments input)) (d : Nat) :
    (within limits utilities calls d).Related (sealing limits) limits
      (sealedWithin limits utilities calls' d) := by
  induction d with
  | zero => exact {
      limits_left := rfl
      limits_right := rfl
      utilities := rfl
      utility _ utility call _ := sealing_step utility call
      expander := Expander.related_ofSubstitute (isClosed_sealing limits) fun _ =>
        (isClosed_sealing limits).word_tame (tame_excess _ _)
      call := hcalls 0 }
  | succ d ih => exact {
      limits_left := rfl
      limits_right := rfl
      utilities := rfl
      utility _ utility call _ := sealing_step utility call
      expander := by
        refine Expander.related_ofSubstitute (isClosed_sealing limits) fun body => ?_
        obtain ⟨hconfined, hsame⟩ :=
          Statement.runAll_related (isClosed_sealing limits) ih .success body.statements
        exact ⟨confined_substituting hconfined, hsame.substituting.sealed fun _ _ _ =>
          exists_excess_of_substituting hconfined⟩
      call := hcalls (d + 1) }

/-- The runners for all depths do the same until something leaks. -/
theorem forDepth_sealing (c d : Nat) : (forDepth limits utilities c d).Related (sealing limits)
    limits (sealedForDepth limits utilities c d) := by
  induction c generalizing d with
  | zero =>
    unfold forDepth sealedForDepth
    refine within_sealing (fun _ name _ _ _ => ?_) d
    exact (isClosed_sealing limits).command_tame
      (tame_excess (.callDepth name limits.callDepth) .empty)
  | succ c ih =>
    unfold forDepth sealedForDepth
    refine within_sealing (fun d name function arguments input => ?_) d
    obtain ⟨hconfined, hsame⟩ := Command.run_related (isClosed_sealing limits) (ih d)
      (.compound function.body function.redirections) input
    exact ⟨confined_calling hconfined arguments, hsame.calling arguments⟩

theorem leftIn_sealing (limits : Limits) (utilities : List (String × Utility)) (shell : Shell) :
    (leftIn limits utilities shell).Related (sealing limits) limits
      (sealedLeftIn limits utilities shell) :=
  forDepth_sealing _ _

/-- **The runners of shells with some limits do the same until something leaks.** -/
theorem ofLimits_sealing (limits : Limits) (utilities : List (String × Utility)) :
    (ofLimits limits utilities).Related (sealing limits) limits
      (sealedOfLimits limits utilities) where
  limits_left := rfl
  limits_right := rfl
  utilities := rfl
  utility _ utility call _ := sealing_step utility call
  expander := Expander.related_ofSubstitute (isClosed_sealing limits) fun body => by
    have hbody (shell : Shell) := (leftIn_sealing limits utilities shell).expander.substitute body
    exact ⟨fun shell => (hbody shell).1 shell, fun shell => (hbody shell).2.keeps shell,
      fun shell => (hbody shell).2.same shell⟩
  call name function arguments input := by
    have hcall (shell : Shell) :=
      (leftIn_sealing limits utilities shell).call name function arguments input
    exact ⟨fun shell => (hcall shell).1 shell, fun shell => (hcall shell).2.keeps shell,
      fun shell => (hcall shell).2.same shell⟩

end Runner

/-! ## Substitutions -/

namespace Run

/-- **What a substitution makes of the end of its body.** A body that comes to its end, or is left by
`exit` or `return`, gives an outcome with all that it wrote. Only a passed limit leaves a
substitution: that of the depth, with nothing written, or the one that left the body, with all that
the body wrote. -/
structure Captures (limits : Limits) (depth : Nat) (ended result : Except Interrupt Outcome) :
    Prop where
  value : ∀ o, result = .ok o ↔ (depth : Int) < limits.substitutionDepth ∧
    (ended = .ok o ∨ ended = .error (.signal (.exit o.status) o.output) ∨
      ended = .error (.signal (.return o.status) o.output))
  leaves : ∀ i, result = .error i ↔
    (limits.substitutionDepth ≤ depth ∧
      i = .signal (.excess (.substitutionDepth limits.substitutionDepth)) .empty) ∨
    (depth : Int) < limits.substitutionDepth ∧ ended = .error i ∧
      ∃ e output, i = .signal (.excess e) output

/-- Outside all loops and without a fault, nothing but a passed limit is left over. -/
theorem answered_cases {ended : Except Interrupt Outcome} {frame : Frame}
    (hescape : ∀ i, ended = .error i → Escapes.command frame i) (hloops : frame.loopDepth = 0)
    (hfault : ∀ f, ended ≠ .error (.fault f)) :
    (∀ o, answered ended = .ok o ↔ ended = .ok o ∨
      ended = .error (.signal (.exit o.status) o.output) ∨
      ended = .error (.signal (.return o.status) o.output)) ∧
    ∀ i, answered ended = .error i ↔
      ended = .error i ∧ ∃ e output, i = .signal (.excess e) output := by
  rcases ended with i | o
  · rcases i with ⟨levels | levels | status | status | excess, output⟩ | fault
    case signal.break | signal.continue => exact absurd hloops (hescape _ rfl)
    case signal.exit | signal.return =>
      refine ⟨fun o => ?_, fun i => ?_⟩
      · cases o
        simp [answered, and_comm]
      · refine iff_of_false (fun h => by cases h) ?_
        rintro ⟨⟨⟩, e, output, ⟨⟩⟩
    case signal.excess =>
      refine ⟨fun o => by simp [answered], fun i => ⟨fun h => ⟨h, excess, output, ?_⟩, And.left⟩⟩
      cases h
      rfl
    case fault => exact absurd rfl (hfault fault)
  · refine ⟨fun o => by simp [answered], fun i => iff_of_false (fun h => by cases h) ?_⟩
    rintro ⟨⟨⟩, -⟩

end Run

namespace Runner

/-- **Substitutions capture what their bodies write**, unless a limit is passed. -/
theorem captures_substitute (limits : Limits) (utilities : List (String × Utility)) (body : Script)
    (shell : Shell) :
    Captures limits shell.substitutionDepth
      (Statement.runAll (ofLimits limits utilities) .success body.statements
        shell.enterSubstitution).1
      ((ofLimits limits utilities).expander.substitute body shell).1 := by
  rw [(callsItself_ofLimits limits utilities).substitute body shell]
  by_cases hdepth : limits.substitutionDepth ≤ shell.substitutionDepth
  · have hnot : ¬ (shell.substitutionDepth : Int) < limits.substitutionDepth := Int.not_lt.2 hdepth
    rw [if_pos hdepth]
    refine ⟨fun _ => iff_of_false nofun fun h => hnot h.1, fun i => ?_⟩
    simp only [hdepth, hnot, false_and, or_false, true_and]
    exact ⟨fun h => by cases h; rfl, fun h => h ▸ rfl⟩
  · have hless : (shell.substitutionDepth : Int) < limits.substitutionDepth := Int.not_le.1 hdepth
    have hescape := (Statement.runAll_related (isClosed_confinement limits)
      (confined_ofLimits limits utilities) .success body.statements shell.enterSubstitution).2
    have hfault := Statement.faultless_runAll (ofLimits limits utilities) .success body.statements
      shell.enterSubstitution
    obtain ⟨hvalue, hleaves⟩ := answered_cases hescape rfl hfault
    rw [if_neg hdepth, substituting_fst]
    refine ⟨fun o => ?_, fun i => ?_⟩
    · simp only [hvalue, hless, true_and]
    · simp only [hleaves, hdepth, hless, false_and, false_or, true_and]

end Runner

/-! ## Sessions -/

namespace Session

variable {limits : Limits} {utilities : List (String × Utility)}

/-- A script leaves the shell that its statements leave. -/
theorem scriptBody_state (r : Runner) (script : Script) (shell : Shell) :
    (scriptBody r script shell).2 = (Statement.runAll r .success script.statements
      { shell with statementCount := 0, usage := .none }).2 := by
  rw [scriptBody, bind_apply, modify_apply]
  exact concluding_state _ _

/-- What a text uses of the limits, its script uses. -/
theorem usage_runText {text : String} {script : Script} (h : Script.parse text = .ok script)
    (r : Runner) (shell : Shell) :
    (runText r text shell).2.usage = (scriptBody r script shell).2.usage := by
  rw [runText, h]
  dsimp only
  rw [bind_apply, runScript, during]
  dsimp only [id]
  rcases scriptBody r script shell with ⟨i | o, final⟩ <;> rfl

/-- A text that cannot be read uses nothing of the limits, whatever would run it. -/
theorem runText_of_error {text : String} {e : SyntaxError} (h : Script.parse text = .error e)
    (r r' : Runner) (shell : Shell) :
    runText r text shell = runText r' text shell ∧ (runText r text shell).2.usage = shell.usage := by
  rw [runText, runText, h]
  cases e <;> exact ⟨rfl, rfl⟩

/-- A text is run in the same way with sealed substitutions, unless something leaks. -/
theorem runText_same (limits : Limits) (utilities : List (String × Utility)) (text : String)
    (shell : Shell) :
    runText (.ofLimits limits utilities) text shell =
        runText (.sealedOfLimits limits utilities) text shell ∨
      (runText (.sealedOfLimits limits utilities) text shell).2.HasLeaked limits := by
  cases h : Script.parse text with
  | error e => exact .inl (runText_of_error h _ _ shell).1
  | ok script =>
    have hstatements := (Statement.runAll_related (isClosed_sealing limits)
      (Runner.ofLimits_sealing limits utilities) .success script.statements).2
    rcases hstatements.same { shell with statementCount := 0, usage := .none } with hsame | hleaked
    · have hbody : scriptBody (.ofLimits limits utilities) script shell =
          scriptBody (.sealedOfLimits limits utilities) script shell := by
        rw [scriptBody, scriptBody, bind_apply, bind_apply, modify_apply]
        dsimp only
        rw [concluding, concluding, tryCatch_apply, tryCatch_apply, hsame]
      have hscript : runScript (.ofLimits limits utilities) script shell =
          runScript (.sealedOfLimits limits utilities) script shell := by
        simp only [runScript, during, id, hbody]
      left
      rw [runText, runText, h]
      dsimp only
      rw [bind_apply, bind_apply, hscript]
    · right
      rw [Shell.HasLeaked, usage_runText h, scriptBody_state]
      exact hleaked

/-- **Nothing is noted without sealing**: no substitution stands so deep. -/
theorem Reachable.not_hasLeaked {s : Session} (h : s.Reachable) : ¬ s.shell.HasLeaked s.limits := by
  induction h with
  | start => exact Nat.not_lt_zero _
  | @run s text hs ih =>
    let text := if s.restoresOperators then Text.restoreOperators text else text
    change ¬ (runText (.ofLimits s.limits s.utilities) text s.shell).2.HasLeaked s.limits
    cases h : Script.parse text with
    | error e =>
      rw [Shell.HasLeaked, (runText_of_error h _ (.ofLimits s.limits s.utilities) s.shell).2]
      exact ih
    | ok script =>
      have haccounted := accounted_scriptBody s.limits s.utilities script hs.atRest.shell
      rw [Shell.HasLeaked, usage_runText h]
      exact Nat.not_lt.2 haccounted.substitutions
  | reset => exact Nat.not_lt_zero _
  | files _ _ ih => exact ih

/-- **Captured output stays captured** until a limit is passed in a substitution that has written
something, and then it does not. Until this is noted, a session does the same with sealed
substitutions; and what leaves a substitution is always a passed limit, with all that the body
wrote. -/
theorem Reachable.run_eq_runSealed_iff {s : Session} (h : s.Reachable) :
    (∀ text : String,
      s.run text = s.runSealed text ↔ ¬ (s.runSealed text).2.shell.HasLeaked s.limits) ∧
    ∀ (body : Script) (shell : Shell),
      let r := Runner.ofLimits s.limits s.utilities
      Captures s.limits shell.substitutionDepth
        (Statement.runAll r .success body.statements shell.enterSubstitution).1
        (r.expander.substitute body shell).1 := by
  refine ⟨fun text => ⟨fun hsame => ?_, fun hkept => ?_⟩,
    Runner.captures_substitute s.limits s.utilities⟩
  · rw [← hsame]
    exact (h.run text).not_hasLeaked
  · rw [Session.run, (runText_same _ _ _ _).resolve_right hkept]
    rfl

/-- `echo a; exit 3` in a new session: the line is the value, and nothing leaves the substitution. -/
theorem Reachable.run_eq_runSealed_iff_exit :
    let s := Session.start .bare "/" [] (.ofClock ⟨0, 0⟩) .standard Utility.all false
    let run (name argument : String) : Statement :=
      ⟨⟨[.simple ⟨[], some (.ofLiteral name), [.ofLiteral argument], [], 1⟩], false⟩, [], false⟩
    let body : Script := ⟨[run "echo" "a", run "exit" "3"]⟩
    s.Reachable ∧
      (∀ text : String,
        s.run text = s.runSealed text ↔ ¬ (s.runSealed text).2.shell.HasLeaked s.limits) ∧
      ((Runner.ofLimits s.limits s.utilities).expander.substitute body s.shell).1 =
        .ok ⟨⟨"a\n", ""⟩, 3⟩ := by
  intro s run body
  have hs : s.Reachable := .start .bare "/" [] (.ofClock ⟨0, 0⟩) .standard Utility.all false
  obtain ⟨hsame, hcaptures⟩ := run_eq_runSealed_iff hs
  refine ⟨hs, hsame, ((hcaptures body s.shell).value _).2 ⟨by decide, .inr (.inl ?_)⟩⟩
  cbv

end Session

/-- **A body that passes a limit**: `x=$(echo a; :)` is left with the line that the body has
written. -/
theorem Command.run_leaks :
    let shell := Shell.start .bare "/" (.ofGlobals [] []) (.ofClock ⟨0, 0⟩)
    let run (name : String) (arguments : List String) : Statement :=
      ⟨⟨[.simple ⟨[], some (.ofLiteral name), arguments.map .ofLiteral, [], 1⟩], false⟩, [], false⟩
    let body : Script := ⟨[run "echo" ["a"], run ":" []]⟩
    let value : Word := ⟨[.substitution body false], "$(echo a; :)"⟩
    (Command.run (.ofLimits ⟨10000, 1, 50, 20⟩ Utility.all)
      (.simple ⟨[⟨"x", some value, false⟩], none, [], [], 1⟩) "" shell).1 =
        .error (.signal (.excess (.statements 1)) ⟨"a\n", ""⟩) := by
  cbv

end VirtualShell
