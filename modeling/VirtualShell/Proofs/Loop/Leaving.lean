import VirtualShell.Proofs.Loop.Output
import VirtualShell.Proofs.Session.Containment
import VirtualShell.Session

/-!
# Leaving loops

A signal that means some loops leaves the open loops one by one, from the innermost one on, and
takes along what they have written. It stops at the last one it means, or at the outermost one.

* `OpenLoop.carry` — what a signal takes along, and the shell outside the loops it has left.
* `Nest.reaches_passed`, `Nest.reaches_unwound` — a signal on its way.
* **`Runner.NestsLoops`** — what a nest of loops does, and `Runner.nestsLoops_ofLimits`.
-/

namespace VirtualShell

/-- What a signal takes along from some loops, innermost first, and the moment when it has left
them. -/
def OpenLoop.carry : List OpenLoop → Output → Nest → Output × Nest
  | [], own, m => (own, m)
  | l :: loops, own, m =>
    carry loops (l.output m.shell own) { m with shell := l.restore m.shell, blemishes := note m }

theorem OpenLoop.skip_act (l : OpenLoop) (limits : Limits) (act : Act) (m : Nest) :
    l.skip limits { m with act } = l.skip limits m := by
  unfold skip
  split
  · split <;> rfl
  · rfl

/-- A signal that means some loops. -/
inductive Signal.Levels : (Nat → Signal) → Prop where
  | break : Levels .break
  | continue : Levels .continue

/-- A signal that leaves every loop. -/
def Signal.LeavesLoops : Signal → Prop
  | .break _ | .continue _ => False
  | .return _ | .exit _ | .excess _ => True

namespace Nest

variable {r : Runner} {around : Nat}

/-- A signal leaves the statement that has run in the innermost of some loops. -/
def leaving (loops : List OpenLoop) (s : Signal) (carried : Output × Nest) : Nest :=
  { carried.2 with loops, act := .ended (.error (.signal s carried.1)) }

/-- **A signal on its way to a loop further out** leaves the loops before it, and means one loop
less after each of them. -/
theorem reaches_passed {signal : Nat → Signal} (hsignal : Signal.Levels signal)
    {inner outer : List OpenLoop} {levels : Nat} (hlevels : inner.length < levels)
    (hout : 0 < outer.length + around) (own : Output) (m : Nest) :
    (leaving (inner ++ outer) (signal levels) (own, m)).Reaches r around
      (leaving outer (signal (levels - inner.length)) (OpenLoop.carry inner own m)) := by
  induction inner generalizing levels own m with
  | nil => exact .refl
  | cons l inner ih =>
    rw [List.length_cons] at hlevels
    have hgoes : 1 < levels ∧ 0 < (inner ++ outer).length + around := by
      rw [List.length_append]
      omega
    have hsub : levels - (l :: inner).length = levels - 1 - inner.length := by
      rw [List.length_cons]
      omega
    have hless : inner.length < levels - 1 := by omega
    have hreach := ih hless (l.output m.shell own)
      { m with shell := l.restore m.shell, blemishes := OpenLoop.note m }
    refine Reaches.step ?_
    rw [hsub]
    cases hsignal <;>
      simp only [leaving, List.cons_append, Nest.next, OpenLoop.receive, if_pos hgoes] <;>
      exact hreach

/-- **A signal that leaves every loop** takes along what all of them have written. -/
theorem reaches_unwound {s : Signal} (hs : s.LeavesLoops) (loops : List OpenLoop) (own : Output)
    (m : Nest) :
    (leaving loops s (own, m)).Reaches r around (leaving [] s (OpenLoop.carry loops own m)) := by
  induction loops generalizing own m with
  | nil => exact .refl
  | cons l loops ih =>
    have hreach := ih (l.output m.shell own)
      { m with shell := l.restore m.shell, blemishes := OpenLoop.note m }
    refine Reaches.step ?_
    cases s
    case «break» | «continue» => exact hs.elim
    all_goals exact hreach

/-- The last loop that a signal means, or the outermost one, receives it. -/
theorem reaches_received {signal : Nat → Signal}
    (hsignal : Signal.Levels signal) {levels : Nat} {inner outer : List OpenLoop} (l : OpenLoop)
    (own : Output) (m : Nest)
    (hends : inner.length + 1 = min levels ((inner ++ l :: outer).length + around)) :
    ¬ (1 < levels - inner.length ∧ 0 < outer.length + around) ∧
      (leaving (inner ++ l :: outer) (signal levels) (own, m)).Reaches r around
        (leaving (l :: outer) (signal (levels - inner.length)) (OpenLoop.carry inner own m)) := by
  rw [List.length_append, List.length_cons] at hends
  refine ⟨by omega, reaches_passed hsignal (by omega) ?_ own m⟩
  rw [List.length_cons]
  omega

/-- The last loop that `continue` means passes over the rest of its turn. -/
theorem reaches_continued (r : Runner) (around levels : Nat) (inner outer : List OpenLoop)
    (l : OpenLoop) (own : Output) (m : Nest)
    (hends : inner.length + 1 = min levels ((inner ++ l :: outer).length + around)) :
    (leaving (inner ++ l :: outer) (.continue levels) (own, m)).Reaches r around
      ({ l with written := l.written ++ (OpenLoop.carry inner own m).1 }.skip r.limits
        { (OpenLoop.carry inner own m).2 with loops := outer }) := by
  obtain ⟨hstops, hreach⟩ := reaches_received (r := r) .continue l own m hends
  refine hreach.tail ?_
  simp only [leaving, next, OpenLoop.receive, if_neg hstops]
  exact OpenLoop.skip_act _ _ _ { (OpenLoop.carry inner own m).2 with loops := outer }

end Nest

/-! ## What a nest of loops does -/

/-- **What a nest of loops does.** -/
structure Runner.NestsLoops (r : Runner) : Prop where
  /-- The run of every statement is that of its nest of loops, and its output is what the statements
  in the nest have written and is not lost, one after another. -/
  run (statement : Statement) (shell : Shell) :
    ∃ (log : List Output) (blemishes : List Blemish),
      Nest.Reaches r shell.loopDepth (.start statement shell)
        (.finished (statement.run r shell) log blemishes) ∧
      Output.Agree blemishes (outputOf (statement.run r shell).1) (Output.join log)
  /-- It is over in one way only. -/
  once {around : Nat} {m n o : Nest} (hn : m.Reaches r around n) (ho : m.Reaches r around o)
    (hnover : n.isOver = true) (hoover : o.isOver = true) : n = o
  /-- No fault leaves a statement. So nothing but the words of a loop itself breaks the loop. -/
  faultless (statement : Statement) : Run.Faultless (statement.run r)
  /-- `break` ends as many loops as it means, or all there are. -/
  breaks (around levels : Nat) (inner outer : List OpenLoop) (l : OpenLoop) (own : Output)
    (m : Nest) (hends : inner.length + 1 = min levels ((inner ++ l :: outer).length + around)) :
    (Nest.leaving (inner ++ l :: outer) (.break levels) (own, m)).Reaches r around
      ({ l with written := l.written ++ (OpenLoop.carry inner own m).1 }.close
        (if l.deciding then l.result else 0) { (OpenLoop.carry inner own m).2 with loops := outer })
  /-- `continue` ends as many loops as it means, or all there are, but for the last one. There the
  turn is over, and what this loop does after every turn comes next. -/
  continues (around levels : Nat) (inner outer : List OpenLoop) (l : OpenLoop) (own : Output)
    (m : Nest) (hbody : l.deciding = false)
    (hends : inner.length + 1 = min levels ((inner ++ l :: outer).length + around)) :
    (Nest.leaving (inner ++ l :: outer) (.continue levels) (own, m)).Reaches r around
      ({ l with
          written := l.written ++ (OpenLoop.carry inner own m).1
          result := 0
          rest := []
          status := 0 }.goOn .update
        { (OpenLoop.carry inner own m).2 with loops := outer })
  /-- When it comes from the condition of that loop, the turn is passed over, and counts. -/
  skips (around levels : Nat) (inner outer : List OpenLoop) (l : OpenLoop) (own : Output)
    (m : Nest) (hcondition : l.deciding = true)
    (hends : inner.length + 1 = min levels ((inner ++ l :: outer).length + around)) :
    (Nest.leaving (inner ++ l :: outer) (.continue levels) (own, m)).Reaches r around
      ({ l with written := l.written ++ (OpenLoop.carry inner own m).1 }.skip r.limits
        { (OpenLoop.carry inner own m).2 with loops := outer })
  /-- When they mean loops outside the nest as well, they go on to those. -/
  passes {signal : Nat → Signal} (hsignal : Signal.Levels signal) (around levels : Nat)
    (loops : List OpenLoop) (own : Output) (m : Nest) (hlevels : loops.length < levels)
    (haround : 0 < around) :
    (Nest.leaving loops (signal levels) (own, m)).Reaches r around
      (Nest.leaving [] (signal (levels - loops.length)) (OpenLoop.carry loops own m))
  /-- Every other signal leaves all loops. -/
  unwinds {s : Signal} (hs : s.LeavesLoops) (around : Nat) (loops : List OpenLoop) (own : Output)
    (m : Nest) :
    (Nest.leaving loops s (own, m)).Reaches r around
      (Nest.leaving [] s (OpenLoop.carry loops own m))

/-- **Every nest of loops does so.** -/
theorem Runner.nestsLoops_ofLimits (limits : Limits) (utilities : List (String × Utility)) :
    (ofLimits limits utilities).NestsLoops where
  run statement shell := by
    obtain ⟨log, blemishes, hreach⟩ :=
      statement.reaches_run (keepsLoops_ofLimits limits utilities) shell
    exact ⟨log, blemishes, hreach, Nest.agree_of_reaches hreach⟩
  once hn ho := hn.unique ho
  faultless statement :=
    statement.sequential_run Run.isSequential_faultless _ fun _ _ _ => Run.faultless_stage _ _ _
  breaks around levels inner outer l own m hends := by
    obtain ⟨hstops, hreach⟩ := Nest.reaches_received .break l own m hends
    refine hreach.tail ?_
    simp only [Nest.leaving, Nest.next, OpenLoop.receive, if_neg hstops]
    rfl
  continues around levels inner outer l own m hbody hends := by
    have hreach :=
      Nest.reaches_continued (ofLimits limits utilities) around levels inner outer l own m hends
    rw [OpenLoop.skip, if_neg (by simp [hbody])] at hreach
    exact hreach
  skips around levels inner outer l own m _ hends :=
    Nest.reaches_continued _ around levels inner outer l own m hends
  passes hsignal around levels loops own m hlevels haround := by
    have hout : 0 < ([] : List OpenLoop).length + around := by
      rwa [List.length_nil, Nat.zero_add]
    have hreach := Nest.reaches_passed (r := ofLimits limits utilities) hsignal hlevels hout own m
    rwa [List.append_nil] at hreach
  unwinds hs around loops own m := Nest.reaches_unwound hs loops own m

/-- What is noted at the end of a run. -/
theorem Statement.reaches_finished {r : Runner} (hr : r.KeepsLoops) (statement : Statement)
    (shell : Shell) (final : Nest)
    (hfinal : (Nest.start statement shell).Reaches r shell.loopDepth final)
    (hover : final.isOver = true) :
    Nest.Reaches r shell.loopDepth (.start statement shell)
      (.finished (statement.run r shell) final.log final.blemishes) := by
  obtain ⟨log, blemishes, hreach⟩ := statement.reaches_run hr shell
  have hsame := hfinal.unique hreach hover rfl
  rwa [hsame]

/-- Two statements that are nests of loops. The pattern in the update of the first one cannot be
used: the line that its body has written is lost. The update of the second one runs after its body,
and what it says comes first. -/
theorem Statement.run_otherwise :
    let r := Runner.ofLimits .standard Utility.all
    let shell := Shell.start .bare "/" (.ofGlobals [] []) (.ofClock ⟨0, 0⟩)
    let command (c : SimpleCommand) : Statement := ⟨⟨[.simple c], false⟩, [], false⟩
    let run (name : Word) (arguments : List String) : Statement :=
      command ⟨[], some name, arguments.map .ofLiteral, [], 1⟩
    let loop (update : Word) (body : List Statement) : Statement :=
      let inner := LoopForm.arithmetic none none (some update) body
      let outer := LoopForm.values "a" (some [.ofLiteral "1"]) [inner.statement false false]
      outer.statement false false
    let lost := loop
      ⟨[.parameter "a" (some (.removePrefix (.ofLiteral "[b-a]") false))], "$\x7ba#[b-a]\x7d"⟩
      [run (.ofLiteral "echo") ["hi"], run (.ofLiteral "continue") []]
    let early := loop ⟨[.substitution ⟨[run (.ofLiteral "other") []]⟩ false], "$(other)"⟩
      [run ⟨[.parameter "z" none], "$z"⟩ [], run (.ofLiteral "missing") [],
        command ⟨[⟨"z", some (.ofLiteral "break"), false⟩], none, [], [], 1⟩]
    (∃ log blemishes,
      Nest.Reaches r 0 (.start lost shell) (.finished (lost.run r shell) log blemishes) ∧
      .lost ⟨"hi\n", ""⟩ ∈ blemishes ∧ (outputOf (lost.run r shell).1).stdout = "") ∧
    ∃ log blemishes,
      Nest.Reaches r 0 (.start early shell) (.finished (early.run r shell) log blemishes) ∧
      (Output.join log).stderr = "bash: missing: command not found\n" ∧
      (outputOf (early.run r shell).1).stderr =
        "bash: other: command not found\nbash: missing: command not found\n" := by
  intro r shell command run loop lost early
  have hr := Runner.keepsLoops_ofLimits .standard Utility.all
  have hlost := lost.reaches_finished hr shell
    ((Nest.next r 0)^[30] (.start lost shell)) (Nest.reaches_iterate _ _)
    (by decide +kernel)
  have hearly := early.reaches_finished hr shell
    ((Nest.next r 0)^[40] (.start early shell)) (Nest.reaches_iterate _ _)
    (by decide +kernel)
  refine ⟨⟨_, _, hlost, ?_, ?_⟩, _, _, hearly, ?_, ?_⟩
  · decide +kernel
  · decide +kernel
  · decide +kernel
  · decide +kernel

end VirtualShell
