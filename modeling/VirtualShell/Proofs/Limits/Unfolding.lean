import VirtualShell.Proofs.Confinement
import VirtualShell.Proofs.Expansion.Bound

/-!
# Scripts call themselves

Functions and substitutions run scripts, which call functions and run substitutions: a shell calls
itself, as often as its limits allow. A runner that is written down in this way, with nothing but
the limits to stop it, is the runner that goes down from depth to depth, and the other way round.
So every run of the shell that calls itself comes to an end.

* `Runner.CallsItself` — a runner that runs functions and substitutions by itself.
* `agreement` — the relation of steps that are the same where so much depth is left.
* **`Runner.callsItself_iff`** — there is exactly one runner that calls itself.
-/

namespace VirtualShell

open Run

/-- **A runner that calls itself**: functions, substitutions and the bounds of substrings are run
by the runner that they are run for, unless a limit is passed. -/
structure Runner.CallsItself (limits : Limits) (utilities : List (String × Utility)) (r : Runner) :
    Prop where
  limits_eq : r.limits = limits
  utilities_eq : r.utilities = utilities
  bound : ∀ text, r.expander.bound text = r.expander.readBound text
  substitute : ∀ (body : Script) (shell : Shell), r.expander.substitute body shell =
    if limits.substitutionDepth ≤ shell.substitutionDepth then
      Run.signal (.excess (.substitutionDepth limits.substitutionDepth)) .empty shell
    else Run.substituting (Statement.runAll r .success body.statements) shell
  call : ∀ (name : String) (function : FunctionBody) (arguments : List String) (input : String)
    (shell : Shell), r.call name function arguments input shell =
      if limits.callDepth ≤ shell.callDepth then
        Run.signal (.excess (.callDepth name limits.callDepth)) .empty shell
      else
        Run.calling arguments
          (Command.run r (.compound function.body function.redirections) input) shell

/-! ## Agreement -/

/-- So many calls and substitutions are left, and no more. -/
structure Frame.IsLeft (limits : Limits) (calls substitutions : Nat) (frame : Frame) : Prop where
  calls : limits.callDepth.toNat - frame.callDepth = calls
  substitutions : limits.substitutionDepth.toNat - frame.substitutionDepth = substitutions

namespace Run

variable {α β : Type} {limits : Limits} {c d : Nat} {e : Escapes} {x y : Run α}

/-- **Two steps that are the same** where so much depth is left. -/
def Agree (limits : Limits) (c d : Nat) (x y : Run α) : Prop :=
  ∀ shell : Shell, shell.frame.IsLeft limits c d → x shell = y shell

namespace Agree

theorem refl (x : Run α) : Agree limits c d x x := fun _ _ => rfl

theorem bind {f g : α → Run β} (hconfined : Confined e x) (hxy : Agree limits c d x y)
    (hfg : ∀ a, Agree limits c d (f a) (g a)) : Agree limits c d (x >>= f) (y >>= g) := by
  intro shell hleft
  have hframe := (hconfined shell).1
  rw [bind_apply, bind_apply, ← hxy shell hleft]
  rcases h : x shell with ⟨i | a, next⟩
  · rfl
  · rw [h] at hframe
    dsimp only at hframe
    exact hfg a next (hframe ▸ hleft)

theorem handle (hxy : Agree limits c d x y) (h : Interrupt → Run α) :
    Agree limits c d (tryCatch x h) (tryCatch y h) := by
  intro shell hleft
  rw [tryCatch_apply, tryCatch_apply, hxy shell hleft]

/-- What is set up for the time of a step may leave less depth for it. -/
theorem during {enter : Shell → Shell} {leave : Shell → Shell → Shell} {c' d' : Nat}
    (hxy : Agree limits c' d' x y) (henter : ∀ shell : Shell, shell.frame.IsLeft limits c d →
      (enter shell).frame.IsLeft limits c' d') :
    Agree limits c d (Run.during enter leave x) (Run.during enter leave y) := by
  intro shell hleft
  simp only [Run.during, hxy (enter shell) (henter shell hleft)]

theorem binding {x y : Run Outcome} (hxy : Agree limits c d x y)
    (bindings : Table String String) :
    Agree limits c d (binding bindings x) (binding bindings y) := by
  unfold Run.binding
  split
  · exact hxy
  · exact hxy.during fun shell hleft => ⟨hleft.calls, hleft.substitutions⟩

theorem withInput {x y : Run Outcome} (hxy : Agree limits c d x y) (input : String) :
    Agree limits c d (withInput input x) (withInput input y) := by
  refine hxy.during fun shell hleft => ?_
  split
  · exact hleft
  · exact ⟨hleft.calls, hleft.substitutions⟩

theorem withExpansionErrors {x y : Run Outcome} (hxy : Agree limits c d x y) :
    Agree limits c d (withExpansionErrors x) (withExpansionErrors y) := by
  intro shell hleft
  simp only [Run.withExpansionErrors,
    hxy { shell with expansionErrors := "" } ⟨hleft.calls, hleft.substitutions⟩]

theorem inside (hxy : Agree limits c d x y) :
    Agree limits c d (Loop.inside x) (Loop.inside y) :=
  hxy.during fun _ hleft => ⟨hleft.calls, hleft.substitutions⟩

theorem part {body body' : Output → Run Outcome} (hconfined : ∀ o, Confined .command (body o))
    (hbody : ∀ o, Agree limits c d (body o) (body' o)) (written : Output) :
    Agree limits c d (Loop.part written body) (Loop.part written body') :=
  ((hbody written).bind (hconfined written) fun _ => refl _).handle _

theorem calling {x y : Run Outcome} (hxy : Agree limits c d x y) (arguments : List String) :
    Agree limits (c + 1) d (calling arguments x) (calling arguments y) := by
  refine (hxy.handle _).during fun shell hleft => ⟨?_, hleft.substitutions⟩
  have hcalls : limits.callDepth.toNat - shell.callDepth = c + 1 := hleft.calls
  change limits.callDepth.toNat - (shell.callDepth + 1) = c
  omega

theorem substituting {x y : Run Outcome} (hxy : Agree limits c d x y) :
    Agree limits c (d + 1) (substituting x) (substituting y) := by
  refine (hxy.handle _).during fun shell hleft => ⟨hleft.calls, ?_⟩
  have hdepth : limits.substitutionDepth.toNat - shell.substitutionDepth = d + 1 :=
    hleft.substitutions
  change limits.substitutionDepth.toNat - (shell.substitutionDepth + 1) = d
  omega

end Agree

end Run

/-- **Steps that are the same** where so much depth is left, in the frames that they keep. -/
def agreement (limits : Limits) (c d : Nat) : StepRelation where
  word x y := Confined .calm x ∧ Agree limits c d x y
  command x y := Confined .command x ∧ Agree limits c d x y
  turn x y := Confined .turn x ∧ Agree limits c d x y
  loop _ _ x y := Confined .turn x ∧ Agree limits c d x y

theorem isClosed_agreement (limits : Limits) (c d : Nat) :
    (agreement limits c d).IsClosed limits where
  word_tame hx := ⟨hx.confined Escapes.isRegular_calm, .refl _⟩
  word_bind hx hf := ⟨hx.1.bind fun a => (hf a).1, hx.2.bind hx.1 fun a => (hf a).2⟩
  word_handle hx hh := ⟨hx.1.handle Escapes.isRegular_calm hh, hx.2.handle _⟩
  command_word hx := ⟨hx.1.mono Escapes.waiting_of_calm, hx.2⟩
  command_bind hx hf := ⟨hx.1.bind fun a => (hf a).1, hx.2.bind hx.1 fun a => (hf a).2⟩
  command_handle hx hh := ⟨hx.1.handle Escapes.isRegular_command hh, hx.2.handle _⟩
  command_leaving arguments h := ⟨confined_leaving h arguments, .refl _⟩
  command_accept := ⟨confined_accept limits, .refl _⟩
  command_binding bindings hx := ⟨confined_binding hx.1 bindings, hx.2.binding bindings⟩
  command_withInput input hx := ⟨confined_withInput hx.1 input, hx.2.withInput input⟩
  command_withExpansionErrors hx := ⟨confined_withExpansionErrors hx.1, hx.2.withExpansionErrors⟩
  command_inside hx := ⟨confined_inside hx.1, hx.2.inside⟩
  turn_word hx := ⟨hx.1.mono Escapes.waiting_of_calm, hx.2⟩
  turn_bind hx hf := ⟨hx.1.bind fun a => (hf a).1, hx.2.bind hx.1 fun a => (hf a).2⟩
  turn_part written hbody := ⟨confined_part (fun o => (hbody o).1) written,
    Agree.part (fun o => (hbody o).1) (fun o => (hbody o).2) written⟩
  loop_turn _ hx := hx
  loop_bind _ hx hf := ⟨hx.1.bind fun a => (hf a).1, hx.2.bind hx.1 fun a => (hf a).2⟩
  loop_begin _ hx := ⟨confined_beginTurn.bind fun _ => hx.1,
    (Agree.refl _).bind confined_beginTurn fun _ => hx.2⟩
  loop_succ _ hx := hx

/-- Utilities run no scripts, so no depth matters to them. -/
theorem agreement_step {limits : Limits} {c d : Nat} (utility : Utility) (call : Call) :
    (agreement limits c d).command (utility.step call) (utility.step call) :=
  ⟨(utility.calm_step call).confined Escapes.isRegular_command, .refl _⟩

namespace Runner

variable {limits : Limits} {utilities : List (String × Utility)} {r : Runner}

/-! ## Going down is calling oneself -/

theorem CallsItself.expander_eq (hr : r.CallsItself limits utilities) :
    r.expander = .ofSubstitute r.expander.substitute :=
  (Expander.eq_ofSubstitute_iff r.expander).2 hr.bound

namespace CallsItself

/-- Where no call is left, the limit is passed. -/
theorem agrees_none (hr : r.CallsItself limits utilities) (d : Nat) (name : String)
    (function : FunctionBody) (arguments : List String) (input : String) :
    (agreement limits 0 d).command (callBy limits none name function arguments input)
      (r.call name function arguments input) := by
  refine ⟨(tame_excess _ _).confined Escapes.isRegular_command, fun shell hleft => ?_⟩
  have hnone : limits.callDepth.toNat - shell.callDepth = 0 := hleft.calls
  rw [hr.call, if_pos (by omega)]
  rfl

theorem agrees_some (hr : r.CallsItself limits utilities) {c d : Nat} {less : Runner}
    (hless : less.Related (agreement limits c d) limits r) (name : String)
    (function : FunctionBody) (arguments : List String) (input : String) :
    (agreement limits (c + 1) d).command (callBy limits (some less) name function arguments input)
      (r.call name function arguments input) := by
  obtain ⟨hconfined, hagree⟩ := Command.run_related (isClosed_agreement limits c d) hless
    (.compound function.body function.redirections) input
  refine ⟨confined_calling hconfined arguments, fun shell hleft => ?_⟩
  have hsome : limits.callDepth.toNat - shell.callDepth = c + 1 := hleft.calls
  rw [hr.call, if_neg (by omega)]
  exact hagree.calling arguments shell hleft

theorem agrees_within (hr : r.CallsItself limits utilities) {c : Nat} {calls : Nat → Option Runner}
    (hcalls : ∀ d name function arguments input, (agreement limits c d).command
      (callBy limits (calls d) name function arguments input)
      (r.call name function arguments input)) (d : Nat) :
    (within limits utilities calls d).Related (agreement limits c d) limits r := by
  induction d with
  | zero => exact {
      limits_left := rfl
      limits_right := hr.limits_eq
      utilities := hr.utilities_eq.symm
      utility _ utility call _ := agreement_step utility call
      expander := by
        rw [hr.expander_eq]
        refine Expander.related_ofSubstitute (isClosed_agreement limits c 0) fun body => ?_
        -- No substitution is left, which the runner that calls itself finds out by its limit.
        refine ⟨(tame_excess _ _).confined Escapes.isRegular_calm, fun shell hleft => ?_⟩
        have hnone : limits.substitutionDepth.toNat - shell.substitutionDepth = 0 :=
          hleft.substitutions
        rw [hr.substitute, if_pos (by omega)]
      call := hcalls 0 }
  | succ d ih => exact {
      limits_left := rfl
      limits_right := hr.limits_eq
      utilities := hr.utilities_eq.symm
      utility _ utility call _ := agreement_step utility call
      expander := by
        rw [hr.expander_eq]
        refine Expander.related_ofSubstitute (isClosed_agreement limits c (d + 1)) fun body => ?_
        obtain ⟨hconfined, hagree⟩ :=
          Statement.runAll_related (isClosed_agreement limits c d) ih .success body.statements
        refine ⟨confined_substituting hconfined, fun shell hleft => ?_⟩
        have hsome : limits.substitutionDepth.toNat - shell.substitutionDepth = d + 1 :=
          hleft.substitutions
        rw [hr.substitute, if_neg (by omega)]
        exact hagree.substituting shell hleft
      call := hcalls (d + 1) }

/-- The runner for some depth does what the runner that calls itself does where so much depth is
left. The induction is on the calls and, inside, on the substitutions. -/
theorem agrees_forDepth (hr : r.CallsItself limits utilities) (c d : Nat) :
    (forDepth limits utilities c d).Related (agreement limits c d) limits r := by
  induction c generalizing d with
  | zero =>
    unfold forDepth
    exact hr.agrees_within hr.agrees_none d
  | succ c ih =>
    unfold forDepth
    exact hr.agrees_within (fun d => hr.agrees_some (ih d)) d

/-- **Only one runner calls itself.** -/
theorem eq_ofLimits (hr : r.CallsItself limits utilities) : r = ofLimits limits utilities := by
  have hsubstitute : r.expander.substitute = (ofLimits limits utilities).expander.substitute := by
    funext body shell
    exact (((hr.agrees_forDepth _ _).expander.substitute body).2 shell ⟨rfl, rfl⟩).symm
  have hcall : r.call = (ofLimits limits utilities).call := by
    funext name function arguments input shell
    exact (((hr.agrees_forDepth _ _).call name function arguments input).2 shell ⟨rfl, rfl⟩).symm
  have hexpander : r.expander = (ofLimits limits utilities).expander := by
    rw [hr.expander_eq, hsubstitute]
    rfl
  have hlimits := hr.limits_eq
  have hutilities := hr.utilities_eq
  cases r
  dsimp only at hlimits hutilities hexpander hcall
  subst hlimits hutilities hexpander hcall
  rfl

end CallsItself

/-! ## The runner of a shell calls itself -/

theorem forDepth_expander (c d : Nat) : (forDepth limits utilities c d).expander =
    .ofSubstitute (forDepth limits utilities c d).expander.substitute := by
  cases c <;> cases d <;> rfl

theorem forDepth_limits (c d : Nat) : (forDepth limits utilities c d).limits = limits := by
  cases c <;> cases d <;> rfl

theorem forDepth_utilities (c d : Nat) :
    (forDepth limits utilities c d).utilities = utilities := by
  cases c <;> cases d <;> rfl

theorem leftIn_eq {c d : Nat} {shell : Shell} (h : shell.frame.IsLeft limits c d) :
    leftIn limits utilities shell = forDepth limits utilities c d := by
  obtain ⟨rfl, rfl⟩ := h
  rfl

/-- The runner of a shell chooses the depth that is left. -/
theorem forDepth_agrees_ofLimits (c d : Nat) : (forDepth limits utilities c d).Related
    (agreement limits c d) limits (ofLimits limits utilities) where
  limits_left := forDepth_limits c d
  limits_right := rfl
  utilities := forDepth_utilities c d
  utility _ utility call _ := agreement_step utility call
  expander := by
    have hconfined : (forDepth limits utilities c d).Related confinement limits _ :=
      forDepth_related (isGraded_confinement limits utilities) c d
    rw [forDepth_expander]
    refine Expander.related_ofSubstitute (isClosed_agreement limits c d) fun body => ?_
    refine ⟨hconfined.expander.substitute body, fun shell hleft => ?_⟩
    simp only [leftIn_eq hleft]
  call name function arguments input := by
    have hconfined : (forDepth limits utilities c d).Related confinement limits _ :=
      forDepth_related (isGraded_confinement limits utilities) c d
    refine ⟨hconfined.call name function arguments input, fun shell hleft => ?_⟩
    simp only [ofLimits, leftIn_eq hleft]

theorem forDepth_substitute_zero (c : Nat) (body : Script) :
    (forDepth limits utilities c 0).expander.substitute body =
      Run.signal (.excess (.substitutionDepth limits.substitutionDepth)) .empty := by
  cases c <;> rfl

theorem forDepth_substitute_succ (c d : Nat) (body : Script) :
    (forDepth limits utilities c (d + 1)).expander.substitute body =
      substituteBy (forDepth limits utilities c d) body := by
  cases c <;> rfl

theorem forDepth_call_zero (d : Nat) : (forDepth limits utilities 0 d).call =
    callBy limits none := by
  cases d <;> rfl

theorem forDepth_call_succ (c d : Nat) : (forDepth limits utilities (c + 1) d).call =
    callBy limits (some (forDepth limits utilities c d)) := by
  cases d <;> rfl

/-- **The runner of a shell calls itself.** -/
theorem callsItself_ofLimits (limits : Limits) (utilities : List (String × Utility)) :
    (ofLimits limits utilities).CallsItself limits utilities where
  limits_eq := rfl
  utilities_eq := rfl
  bound := Expander.bound_ofSubstitute _
  substitute body shell := by
    change (leftIn limits utilities shell).expander.substitute body shell = _
    unfold leftIn
    generalize hc : limits.callDepth.toNat - shell.callDepth = c
    generalize hd : limits.substitutionDepth.toNat - shell.substitutionDepth = d
    cases d with
    | zero => rw [forDepth_substitute_zero, if_pos (by omega)]
    | succ d =>
      rw [forDepth_substitute_succ, if_neg (by omega)]
      have hless : (forDepth limits utilities c d).Related (agreement limits c d) limits _ :=
        forDepth_agrees_ofLimits c d
      have hagree :=
        (Statement.runAll_related (isClosed_agreement limits c d) hless .success body.statements).2
      exact hagree.substituting shell ⟨hc, hd⟩
  call name function arguments input shell := by
    change (leftIn limits utilities shell).call name function arguments input shell = _
    unfold leftIn
    generalize hc : limits.callDepth.toNat - shell.callDepth = c
    generalize hd : limits.substitutionDepth.toNat - shell.substitutionDepth = d
    cases c with
    | zero =>
      rw [forDepth_call_zero, if_pos (by omega)]
      rfl
    | succ c =>
      rw [forDepth_call_succ, if_neg (by omega)]
      have hless : (forDepth limits utilities c d).Related (agreement limits c d) limits _ :=
        forDepth_agrees_ofLimits c d
      have hagree := (Command.run_related (isClosed_agreement limits c d) hless
        (.compound function.body function.redirections) input).2
      exact hagree.calling arguments shell ⟨hc, hd⟩

/-- **There is exactly one runner that calls itself.** -/
theorem callsItself_iff (limits : Limits) (utilities : List (String × Utility)) (r : Runner) :
    r.CallsItself limits utilities ↔ r = ofLimits limits utilities := by
  constructor
  · exact CallsItself.eq_ofLimits
  · rintro rfl
    exact callsItself_ofLimits limits utilities

end Runner

end VirtualShell
