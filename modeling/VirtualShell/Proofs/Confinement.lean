import VirtualShell.Proofs.Step.Script
import VirtualShell.Session

/-!
# Frames are given back, signals are caught

A step gives back the frame that it found, however it ends; and a signal leaves it only when the
frame holds something that waits for this signal: a loop for `break` and `continue`, a function for
`return`. The two go together: which signals may leave a step is known from the frame at its start,
and the frame is the same again where the next step starts.

* `Run.Confined` — a step of this kind, for some idea of the signals that may leave it.
* `confinement` — which signals may leave steps of each kind, as a relation between steps.
* **`Runner.confined_ofLimits`** — the runner of a shell is confined, and so is all it runs.
-/

namespace VirtualShell

/-- Which interrupts may leave a step, by the frame that it starts in. -/
abbrev Escapes := Frame → Interrupt → Prop

namespace Escapes

/-- Those that the frame has something for: one thing waits for `break` and `continue`, another for
`return`. The others need nothing. -/
def waiting (loops calls : Frame → Prop) : Escapes
  | frame, .signal (.break _) _ | frame, .signal (.continue _) _ => loops frame
  | frame, .signal (.return _) _ => calls frame
  | _, _ => True

/-- None that a loop or a function waits for. -/
def calm : Escapes := waiting (fun _ => False) fun _ => False

/-- Those for which there is a loop or a function in the frame. -/
def command : Escapes := waiting (·.loopDepth ≠ 0) (·.callDepth ≠ 0)

/-- Those for which there is a loop or a function in the frame, apart from the innermost loop. -/
def turn : Escapes := waiting (1 < ·.loopDepth) (·.callDepth ≠ 0)

/-- Those for which there is a loop in the frame. -/
def loops : Escapes := waiting (·.loopDepth ≠ 0) fun _ => False

/-- What may leave one step may leave another, if what waits for it in the frame of the first also
does in that of the second. -/
theorem waiting_mono {loops calls loops' calls' : Frame → Prop} {a b : Frame} {i : Interrupt}
    (h : waiting loops calls a i) (hloops : loops a → loops' b)
    (hcalls : (∃ status output, i = .signal (.return status) output) → calls a → calls' b) :
    waiting loops' calls' b i := by
  rcases i with ⟨levels | levels | status | status | excess, output⟩ | fault
  · exact hloops h
  · exact hloops h
  · exact hcalls ⟨status, output, rfl⟩ h
  · trivial
  · trivial
  · trivial

/-- Commands are told by the depths of loops and of calls. -/
theorem command_congr {a b : Frame} {i : Interrupt} (h : command a i)
    (hloops : a.loopDepth = b.loopDepth) (hcalls : a.callDepth = b.callDepth) : command b i :=
  waiting_mono h (fun ha hb => ha (hloops.trans hb)) fun _ ha hb => ha (hcalls.trans hb)

/-- Calm interrupts may escape, and what repeats a signal that may. -/
structure IsRegular (e : Escapes) : Prop where
  calm : ∀ frame i, i.IsCalm → e frame i
  repeats : ∀ frame i j, e frame i → i.Repeats j → e frame j

theorem isRegular_waiting (loops calls : Frame → Prop) : IsRegular (waiting loops calls) where
  calm frame i h := by
    rcases i with ⟨levels | levels | status | status | excess, output⟩ | fault
    · exact h.elim
    · exact h.elim
    · exact h.elim
    · trivial
    · trivial
    · trivial
  repeats := by
    rintro frame i j h ⟨s, before, after, rfl, rfl⟩
    cases s <;> exact h

theorem isRegular_calm : IsRegular calm := isRegular_waiting _ _

theorem isRegular_command : IsRegular command := isRegular_waiting _ _

/-- A calm interrupt may escape from everything. -/
theorem waiting_of_calm {loops calls : Frame → Prop} (frame : Frame) (i : Interrupt)
    (h : calm frame i) : waiting loops calls frame i :=
  waiting_mono h False.elim fun _ => False.elim

end Escapes

namespace Run

variable {α β : Type} {e e' : Escapes} {x : Run α}

/-- **A step that gives back the frame it found**, and that only some interrupts leave. -/
def Confined (e : Escapes) (x : Run α) : Prop :=
  ∀ shell, (x shell).2.frame = shell.frame ∧ ∀ i, (x shell).1 = .error i → e shell.frame i

theorem Calm.confined (he : e.IsRegular) (hx : Calm x) : Confined e x := fun shell =>
  ⟨hx.frame shell, fun i hi => he.calm _ i (hx.interrupt shell i hi)⟩

theorem Tame.confined (he : e.IsRegular) (hx : Tame x) : Confined e x := hx.calm.confined he

namespace Confined

theorem mono (h : ∀ frame i, e frame i → e' frame i) (hx : Confined e x) : Confined e' x :=
  fun shell => ⟨(hx shell).1, fun i hi => h _ i ((hx shell).2 i hi)⟩

/-- What follows a step starts in the same frame. -/
theorem bind {f : α → Run β} (hx : Confined e x) (hf : ∀ a, Confined e (f a)) :
    Confined e (x >>= f) := by
  intro shell
  obtain ⟨hframe, hescape⟩ := hx shell
  rw [bind_apply]
  rcases h : x shell with ⟨i | a, next⟩
  · rw [h] at hframe hescape
    exact ⟨hframe, fun j hj => hescape j (by cases hj; rfl)⟩
  · rw [h] at hframe
    have hnext := hf a next
    rw [hframe] at hnext
    exact hnext

theorem handle (he : e.IsRegular) {h : Interrupt → Run α} (hx : Confined e x) (hh : IsHandler h) :
    Confined e (tryCatch x h) := by
  intro shell
  obtain ⟨hframe, hescape⟩ := hx shell
  rw [tryCatch_apply]
  rcases hx' : x shell with ⟨i | a, next⟩
  · rw [hx'] at hframe hescape
    obtain ⟨hsame, hj⟩ := hh i next
    refine ⟨hsame.frame.trans hframe, fun j hout => ?_⟩
    rcases hj j hout with hcalm | hrepeat
    · exact he.calm _ j hcalm
    · exact he.repeats _ i j (hescape i rfl) hrepeat
  · rw [hx'] at hframe
    exact ⟨hframe, nofun⟩

/-- What is set up for the time of a step: it is enough that the end undoes the beginning. -/
theorem during {enter : Shell → Shell} {leave : Shell → Shell → Shell} (hx : Confined e x)
    (hleave : ∀ initial final : Shell, final.frame = (enter initial).frame →
      (leave initial final).frame = initial.frame)
    (hescape : ∀ (initial : Shell) (i : Interrupt), e (enter initial).frame i → e' initial.frame i) :
    Confined e' (Run.during enter leave x) :=
  fun shell => ⟨hleave shell _ (hx (enter shell)).1,
    fun i hi => hescape shell i ((hx (enter shell)).2 i hi)⟩

/-- Where a return is caught, only what loops wait for is left to escape. -/
theorem catching {h : Interrupt → Run α} (hx : Confined .command x)
    (hh : IsAnswer h) (hreturn : ∀ status output, ∃ a, h (.signal (.return status) output) = pure a) :
    Confined .loops (tryCatch x h) := by
  intro shell
  obtain ⟨hframe, hescape⟩ := hx shell
  rw [tryCatch_apply]
  rcases hx' : x shell with ⟨i | a, next⟩
  · rw [hx'] at hframe hescape
    rcases hh i with ⟨a, ha⟩ | hthrow
    · dsimp only
      rw [ha]
      exact ⟨hframe, nofun⟩
    · dsimp only
      rw [hthrow]
      refine ⟨hframe, fun j hj => ?_⟩
      cases hj
      -- A return is answered, so it is not what was sent on.
      refine Escapes.waiting_mono (hescape i rfl) id ?_
      rintro ⟨status, output, rfl⟩
      obtain ⟨a, ha⟩ := hreturn status output
      rw [ha] at hthrow
      have hresult := congrArg Prod.fst (congrFun hthrow shell)
      cases hresult
  · rw [hx'] at hframe
    exact ⟨hframe, nofun⟩

end Confined

end Run

open Run

/-- **Confinement.** From words nothing escapes that a loop or a function waits for; from commands
what something in the frame waits for; inside a loop, what something around that loop waits for. -/
def confinement : StepRelation where
  word x _ := Confined .calm x
  command x _ := Confined .command x
  turn x _ := Confined .turn x
  loop _ _ x _ := Confined .turn x

namespace Run

variable {α : Type}

/-! ## The constructs -/

/-- Loops are left only where there are some. -/
theorem leaveLoops_spec (name : String) (signal : Nat → Signal)
    (hsignal : ∀ (frame : Frame) (count : Nat) (output : Output), frame.loopDepth ≠ 0 →
      Escapes.command frame (.signal (signal count) output)) (arguments : List String)
    (shell : Shell) :
    shell.SameSetting (Builtin.Control.leaveLoops name signal arguments shell).2 ∧
      ∀ i, (Builtin.Control.leaveLoops name signal arguments shell).1 = .error i →
        Escapes.command shell.frame i := by
  obtain ⟨hsame, hcalm⟩ := Builtin.Control.tame_levels name arguments shell
  simp only [Builtin.Control.leaveLoops, bind_apply]
  rcases h : Builtin.Control.levels name arguments shell with ⟨i | count, next⟩
  · rw [h] at hsame hcalm
    exact ⟨hsame, fun j hj => Escapes.isRegular_command.calm _ j (hcalm j (by cases hj; rfl))⟩
  · rw [h] at hsame
    have hloops : next.loopDepth = shell.loopDepth := congrArg Frame.loopDepth hsame.frame
    simp only [get_apply]
    split
    · exact ⟨hsame, nofun⟩
    · next hloop =>
      refine ⟨hsame, fun i hi => ?_⟩
      cases hi
      exact hsignal shell.frame count .empty fun hzero => hloop (hloops.trans hzero)

/-- A function is left only where there is one. -/
theorem returnCall_spec (arguments : List String) (shell : Shell) :
    shell.SameSetting (Builtin.Control.returnCall arguments shell).2 ∧
      ∀ i, (Builtin.Control.returnCall arguments shell).1 = .error i →
        Escapes.command shell.frame i := by
  simp only [Builtin.Control.returnCall, bind_apply, get_apply]
  split
  · exact ⟨.refl shell, nofun⟩
  · next hcall =>
    obtain ⟨hsame, hcalm⟩ := Builtin.Control.tame_statusOf arguments shell
    simp only [bind_apply]
    rcases h : Builtin.Control.statusOf arguments shell with ⟨i | status, next⟩
    · rw [h] at hsame hcalm
      exact ⟨hsame, fun j hj => Escapes.isRegular_command.calm _ j (hcalm j (by cases hj; rfl))⟩
    · rw [h] at hsame
      cases status with
      | ok status =>
        refine ⟨hsame, fun j hj => ?_⟩
        cases hj
        exact hcall
      | error message => exact ⟨hsame, nofun⟩

/-- The builtins that leave something change contents only. -/
theorem leaving_spec {builtin : Builtin} (h : builtin ∈ Builtin.leaving.map (·.2))
    (arguments : List String) (shell : Shell) :
    shell.SameSetting (builtin arguments shell).2 ∧
      ∀ i, (builtin arguments shell).1 = .error i → Escapes.command shell.frame i := by
  simp only [Builtin.leaving, List.map_cons, List.map_nil, List.mem_cons, List.not_mem_nil,
    or_false] at h
  rcases h with rfl | rfl | rfl
  · exact leaveLoops_spec "break" .break (fun _ _ _ h => h) arguments shell
  · exact leaveLoops_spec "continue" .continue (fun _ _ _ h => h) arguments shell
  · exact returnCall_spec arguments shell

theorem confined_leaving {builtin : Builtin} (h : builtin ∈ Builtin.leaving.map (·.2))
    (arguments : List String) : Confined .command (builtin arguments) := by
  intro shell
  obtain ⟨hsame, hescape⟩ := leaving_spec h arguments shell
  exact ⟨hsame.frame, hescape⟩

theorem confined_accept (limits : Limits) : Confined .command (accept limits) := by
  intro shell
  rw [accept_apply]
  split
  · exact ⟨rfl, fun i hi => by cases hi; trivial⟩
  · exact ⟨rfl, nofun⟩

theorem confined_binding {x : Run Outcome} (hx : Confined .command x)
    (bindings : Table String String) : Confined .command (binding bindings x) := by
  unfold binding
  split
  · exact hx
  · refine hx.during (fun initial final h => ?_) fun _ _ hi => Escapes.command_congr hi rfl rfl
    simp only [Shell.frame, Frame.mk.injEq, Variables.depth_push, Variables.depth_pop] at h ⊢
    exact ⟨by omega, h.2⟩

theorem confined_withInput {x : Run Outcome} (hx : Confined .command x) (input : String) :
    Confined .command (withInput input x) := by
  refine hx.during (fun initial final h => ?_) (fun initial i hi => ?_)
  · split at h <;> simp_all only [Shell.frame, Frame.mk.injEq]
  · refine Escapes.command_congr hi ?_ ?_ <;> split <;> rfl

theorem confined_withExpansionErrors {x : Run Outcome} (hx : Confined .command x) :
    Confined .command (withExpansionErrors x) := by
  intro shell
  obtain ⟨hframe, hescape⟩ := hx { shell with expansionErrors := "" }
  refine ⟨hframe, fun j hj => ?_⟩
  simp only [withExpansionErrors] at hj
  rcases h : x { shell with expansionErrors := "" } with ⟨i | o, final⟩
  · rw [h] at hj hescape
    cases hj
    cases i with
    | fault f => trivial
    | signal s output =>
      exact Escapes.isRegular_command.repeats _ _ _ (hescape _ rfl) ⟨s, output, _, rfl, rfl⟩
  · rw [h] at hj
    cases hj

theorem confined_inside {x : Run α} (hx : Confined .turn x) : Confined .command (Loop.inside x) := by
  refine hx.during (fun initial final h => ?_) (fun initial i hi => ?_)
  · simp only [Shell.frame, Frame.mk.injEq] at h ⊢
    simp only [h, Nat.add_sub_cancel, and_self]
  · refine Escapes.waiting_mono hi (fun hmore => ?_) fun _ hcall => hcall
    have hmore : 1 < initial.loopDepth + 1 := hmore
    have hsome : initial.loopDepth ≠ 0 := by omega
    exact hsome

/-- A signal goes on to other loops only when there are some around the innermost one. -/
theorem passOn_spec (signal : Nat → Signal) (levels : Nat) (output : Output) (ending : Loop.Ending)
    (shell : Shell) : (Loop.passOn signal levels output ending shell).2 = shell ∧
      ∀ i, (Loop.passOn signal levels output ending shell).1 = .error i →
        i = .signal (signal (levels - 1)) output ∧ 1 < shell.loopDepth := by
  simp only [Loop.passOn, bind_apply, get_apply]
  split
  · next h =>
    simp only [gt_iff_lt, Bool.and_eq_true, decide_eq_true_eq] at h
    exact ⟨rfl, fun i hi => ⟨by cases hi; rfl, h.2⟩⟩
  · exact ⟨rfl, nofun⟩

theorem confined_passOn (signal : Nat → Signal)
    (hsignal : ∀ (frame : Frame) (levels : Nat) (output : Output), 1 < frame.loopDepth →
      Escapes.turn frame (.signal (signal levels) output))
    (levels : Nat) (output : Output) (ending : Loop.Ending) :
    Confined .turn (Loop.passOn signal levels output ending) := by
  intro shell
  obtain ⟨hsame, hpass⟩ := passOn_spec signal levels output ending shell
  refine ⟨congrArg Shell.frame hsame, fun i hi => ?_⟩
  obtain ⟨rfl, hmore⟩ := hpass i hi
  exact hsignal shell.frame (levels - 1) output hmore

theorem confined_part {body : Output → Run Outcome} (hbody : ∀ o, Confined .command (body o))
    (written : Output) : Confined .turn (Loop.part written body) := by
  have hcomplete : Confined .command (do
      let o ← body written
      return (Loop.Ending.complete o.status, o.output)) :=
    (hbody written).bind fun _ => (tame_pure _).confined Escapes.isRegular_command
  intro shell
  obtain ⟨hframe, hescape⟩ := hcomplete shell
  rw [Loop.part, tryCatch_apply]
  rcases h : (do
      let o ← body written
      return (Loop.Ending.complete o.status, o.output) : Run (Loop.Ending × Output)) shell
    with ⟨i | r, next⟩
  · rw [h] at hframe hescape
    have hi := hescape i rfl
    rcases i with ⟨levels | levels | status | status | excess, output⟩ | fault
    case signal.break =>
      obtain ⟨hsame, hpass⟩ := confined_passOn .break (fun _ _ _ h => h) levels output .left next
      exact ⟨hsame.trans hframe, fun j hj => hframe ▸ hpass j hj⟩
    case signal.continue =>
      obtain ⟨hsame, hpass⟩ :=
        confined_passOn .continue (fun _ _ _ h => h) levels output .skipped next
      exact ⟨hsame.trans hframe, fun j hj => hframe ▸ hpass j hj⟩
    -- every other interrupt goes on as it is
    all_goals
      refine ⟨hframe, fun j hj => ?_⟩
      cases hj
      exact hi
  · rw [h] at hframe
    exact ⟨hframe, nofun⟩

theorem confined_beginTurn : Confined .turn Loop.beginTurn := fun _ => ⟨rfl, nofun⟩

/-- Around a function a return is answered. -/
theorem calling_eq_during : ∃ h : Interrupt → Run Outcome, IsAnswer h ∧
    (∀ status output, ∃ o, h (.signal (.return status) output) = pure o) ∧
    ∀ arguments x, calling arguments x =
      during (Shell.enterCall arguments) Shell.leaveCall (tryCatch x h) := by
  refine ⟨_, fun i => ?_, fun status output => ?_, fun arguments x => rfl⟩
  · rcases i with ⟨levels | levels | status | status | excess, output⟩ | fault
    case signal.return => exact .inl ⟨_, rfl⟩
    all_goals exact .inr rfl
  · exact ⟨_, rfl⟩

/-- Around a substitution a return and an exit are answered. -/
theorem substituting_eq_during : ∃ h : Interrupt → Run Outcome, IsAnswer h ∧
    (∀ status output, ∃ o, h (.signal (.return status) output) = pure o) ∧
    ∀ x, substituting x =
      during Shell.enterSubstitution Shell.leaveSubstitution (tryCatch x h) := by
  refine ⟨_, fun i => ?_, fun status output => ?_, fun x => rfl⟩
  · rcases i with ⟨levels | levels | status | status | excess, output⟩ | fault
    case signal.return | signal.exit => exact .inl ⟨_, rfl⟩
    all_goals exact .inr rfl
  · exact ⟨_, rfl⟩

theorem confined_calling {x : Run Outcome} (hx : Confined .command x) (arguments : List String) :
    Confined .command (calling arguments x) := by
  obtain ⟨handler, hanswer, hreturn, hcalling⟩ := calling_eq_during
  rw [hcalling]
  refine (hx.catching hanswer hreturn).during (fun initial final h => ?_) fun initial i hi => ?_
  · simp only [Shell.frame, Shell.enterCall, Frame.mk.injEq] at h
    simp only [Shell.frame, Shell.leaveCall, Shell.dropParameters, h, Variables.depth_push,
      Variables.depth_pop, Nat.add_sub_cancel]
  · -- in a function there is no loop yet
    exact Escapes.waiting_mono hi (fun hloop => absurd rfl hloop) fun _ => False.elim

theorem confined_substituting {x : Run Outcome} (hx : Confined .command x) :
    Confined .calm (substituting x) := by
  obtain ⟨handler, hanswer, hreturn, hsubstituting⟩ := substituting_eq_during
  rw [hsubstituting]
  refine (hx.catching hanswer hreturn).during (fun initial final h => rfl) fun initial i hi => ?_
  exact Escapes.waiting_mono hi (fun hloop => absurd rfl hloop) fun _ => id

end Run

theorem isClosed_confinement (limits : Limits) : confinement.IsClosed limits where
  word_tame hx := hx.confined Escapes.isRegular_calm
  word_bind hx hf := hx.bind hf
  word_handle hx hh := hx.handle Escapes.isRegular_calm hh
  command_word hx := hx.mono Escapes.waiting_of_calm
  command_bind hx hf := hx.bind hf
  command_handle hx hh := hx.handle Escapes.isRegular_command hh
  command_leaving arguments h := confined_leaving h arguments
  command_accept := confined_accept limits
  command_binding bindings hx := confined_binding hx bindings
  command_withInput input hx := confined_withInput hx input
  command_withExpansionErrors hx := confined_withExpansionErrors hx
  command_inside hx := confined_inside hx
  turn_word hx := hx.mono Escapes.waiting_of_calm
  turn_bind hx hf := hx.bind hf
  turn_part written hbody := confined_part hbody written
  loop_turn _ hx := hx
  loop_bind _ hx hf := hx.bind hf
  loop_begin _ hx := confined_beginTurn.bind fun _ => hx
  loop_succ _ hx := hx

theorem isGraded_confinement (limits : Limits) (utilities : List (String × Utility)) :
    IsGraded (fun _ _ => confinement) limits utilities where
  closed _ _ := isClosed_confinement limits
  utility call _ := (Utility.calm_step _ call).confined Escapes.isRegular_command
  calling arguments hx := confined_calling hx arguments
  substituting hx := confined_substituting hx

/-- **The runner of shells with some limits is confined.** -/
theorem Runner.confined_ofLimits (limits : Limits) (utilities : List (String × Utility)) :
    (ofLimits limits utilities).Related confinement limits (ofLimits limits utilities) :=
  ofLimits_related (isGraded_confinement limits utilities) (fun _ hx shell => hx shell shell)
    fun _ hx shell => hx shell shell

end VirtualShell
