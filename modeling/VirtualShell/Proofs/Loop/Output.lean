import VirtualShell.Proofs.Loop.Simulation

/-!
# What a nest of loops writes

The open loops and the statement that has just ended hold all that was written and is not lost,
outermost first. At every moment of a run this is what is in the log, one output after another. Only
the words of a loop that write to the error stream change the order, and in this stream alone.

* `Output.Agree` — two outputs are the same as far as the blemishes let them.
* `Nest.held` — what the open loops and the last statement hold.
* `Nest.Faithful` — what is held agrees with the log, and `Nest.Faithful.next`, which keeps it.
* **`Nest.Faithful.reaches`** — the same for a whole run.
-/

namespace VirtualShell

/-! ## Outputs under blemishes -/

namespace Output

/-- **Two outputs are the same as far as the blemishes let them.** -/
structure Agree (blemishes : List Blemish) (a b : Output) : Prop where
  stdout : a.stdout = b.stdout
  /-- Errors that stand too early change the order. -/
  stderr (hearly : ∀ errors, .early errors ∉ blemishes) : a.stderr = b.stderr

namespace Agree

variable {blemishes : List Blemish} {a b : Output}

theorem refl (blemishes : List Blemish) (a : Output) : Agree blemishes a a := ⟨rfl, fun _ => rfl⟩

theorem append_right (h : Agree blemishes a b) (c : Output) :
    Agree blemishes (a ++ c) (b ++ c) where
  stdout := congrArg (· ++ c.stdout) h.stdout
  stderr hearly := congrArg (· ++ c.stderr) (h.stderr hearly)

/-- Errors that stand too early are no part of the output stream. -/
theorem early {x y : Output} (h : Agree blemishes (x ++ y) b) (errors : String) :
    Agree (blemishes ++ [.early errors]) (x ++ (ofError errors ++ y)) b where
  stdout := by
    rw [← h.stdout]
    change x.stdout ++ ("" ++ y.stdout) = x.stdout ++ y.stdout
    rw [String.empty_append]
  stderr hearly := absurd (List.mem_append_right _ (List.mem_singleton_self _)) (hearly errors)

end Agree

theorem join_concat (outputs : List Output) (output : Output) :
    join (outputs ++ [output]) = join outputs ++ output := by
  induction outputs with
  | nil => exact (append_empty output).trans (empty_append output).symm
  | cons first rest ih => exact (congrArg (first ++ ·) ih).trans (append_assoc _ _ _).symm

end Output

/-! ## What is held -/

theorem OpenLoop.under_eq (loops : List OpenLoop) (output : Output) :
    under loops output = under loops .empty ++ output := by
  induction loops generalizing output with
  | nil => rw [under, under, Output.empty_append]
  | cons l loops ih =>
    rw [under, under, ih, Output.append_empty, ih l.written, Output.append_assoc]

theorem OpenLoop.under_append (loops : List OpenLoop) (a b : Output) :
    under loops (a ++ b) = under loops a ++ b := by
  rw [under_eq, under_eq loops a, Output.append_assoc]

/-- What the statement that has just ended holds. -/
def Act.output : Act → Output
  | .ended result => outputOf result
  | .begin _ | .proceed | .update | .decide => .empty

namespace Nest

/-- **What the open loops and the last statement hold.** -/
def held (m : Nest) : Output := OpenLoop.under m.loops m.act.output

/-- **What is held agrees with the log.** -/
def Faithful (m : Nest) : Prop := Output.Agree m.blemishes m.held (Output.join m.log)

end Nest

/-! ## One moment after another -/

namespace OpenLoop

variable {l : OpenLoop} {r : Runner} {limits : Limits} {m : Nest}

/-- What an open loop holds together with an output, inside the loops of a nest, agrees with the
log. -/
def Holds (l : OpenLoop) (output : Output) (m : Nest) : Prop :=
  Output.Agree m.blemishes (under m.loops (l.written ++ output)) (Output.join m.log)

/-- The loop is left, and what it holds with it. -/
theorem Holds.left {output : Output} (h : l.Holds output m) {act : Act}
    (hact : act.output = l.output m.shell output) (shell : Shell) :
    Nest.Faithful { m with act, shell, blemishes := note m } := by
  rw [Nest.Faithful, Nest.held, hact, note, OpenLoop.output]
  rw [Holds] at h
  split
  · rename_i hquiet
    have herrors : Output.ofError m.shell.expansionErrors = .empty := by
      rw [hquiet]
      rfl
    rwa [herrors, Output.empty_append]
  · rw [under_eq] at h ⊢
    exact h.early m.shell.expansionErrors

theorem Holds.close (h : l.Holds .empty m) (status : Int) : (l.close status m).Faithful :=
  h.left rfl _

theorem Holds.leave {own : Output} (h : l.Holds own m) (s : Signal) : (l.leave s own m).Faithful :=
  h.left rfl _

theorem faithful_fail (f : Fault) (m : Nest) : (l.fail f m).Faithful := by
  let message := Output.ofError ("bash: " ++ l.head.label ++ ": " ++ f.message ++ "\n")
  have hlog : Output.join [under m.loops .empty, message] = under m.loops message := by
    rw [under_eq m.loops message]
    exact congrArg (under m.loops .empty ++ ·) (Output.append_empty message)
  change Output.Agree _ (under m.loops message) (Output.join [under m.loops .empty, message])
  rw [hlog]
  exact .refl _ _

theorem Holds.goOn (h : l.Holds .empty m) {act : Act} (hact : act.output = .empty) :
    (l.goOn act m).Faithful := by
  rw [Nest.Faithful, Nest.held]
  rw [← hact] at h
  exact h

theorem Holds.enter (h : l.Holds .empty m) (ready : Shell) : (l.enter limits ready m).Faithful := by
  unfold OpenLoop.enter
  split
  · exact h.leave _
  · exact Holds.goOn h rfl

theorem Holds.skip (h : l.Holds .empty m) : (l.skip limits m).Faithful := by
  unfold OpenLoop.skip
  split
  · split
    · exact h.leave _
    · exact Holds.goOn h rfl
  · exact Holds.goOn h rfl

theorem Holds.ask (h : l.Holds .empty m) (word : Word) {answer : Int → Nest → Nest}
    (hanswer : ∀ value shell, (answer value { m with shell }).Faithful) :
    (l.ask r word answer m).Faithful := by
  unfold OpenLoop.ask
  split
  · exact hanswer _ _
  · rename_i s own shell hvalue
    refine Holds.leave (m := { m with shell, log := m.log ++ [own] }) ?_ s
    have happend := h.append_right own
    rwa [← under_append, ← Output.join_concat, Output.append_empty] at happend
  · exact faithful_fail _ _

theorem Holds.decide (h : l.Holds .empty m) : (l.decide r m).Faithful := by
  unfold OpenLoop.decide
  split
  · exact h.close _
  · rename_i name value rest _
    exact Holds.enter (l := { l with head := .values name rest }) h _
  · exact h.enter _
  · refine h.ask _ fun value shell => ?_
    dsimp only
    split
    · exact Holds.close (m := { m with shell }) h _
    · exact Holds.enter (m := { m with shell }) h _
  · exact Holds.goOn h rfl

theorem Holds.proceed (h : l.Holds .empty m) : (l.proceed limits m).Faithful := by
  unfold OpenLoop.proceed
  split
  · exact Holds.goOn h rfl
  · split
    · split
      · exact Holds.enter h _
      · exact Holds.close h _
    · exact Holds.goOn h rfl

theorem Holds.update (h : l.Holds .empty m) : (l.update r m).Faithful := by
  unfold OpenLoop.update
  split
  · exact h.ask _ fun _ _ => Holds.goOn h rfl
  · exact Holds.goOn h rfl

theorem Holds.receive {result : Except Interrupt Outcome} (h : l.Holds (outputOf result) m)
    (around : Nat) : (l.receive limits around result m).Faithful := by
  have htaken : { l with written := l.written ++ outputOf result }.Holds .empty m := by
    rwa [Holds, Output.append_empty]
  unfold OpenLoop.receive
  split
  · exact Holds.goOn htaken rfl
  · split
    · exact h.leave _
    · exact htaken.close _
  · split
    · exact h.leave _
    · exact htaken.skip
  · exact h.leave _
  · exact faithful_fail _ _

end OpenLoop

namespace Nest

variable {r : Runner} {around : Nat} {m n : Nest}

theorem Faithful.begin (h : m.Faithful) {statement : Statement}
    (hact : m.act = .begin statement) : (m.begin r statement).Faithful := by
  rw [Faithful, held, hact] at h
  unfold Nest.begin
  split
  · rename_i l shell hopen
    have hwritten : l.written = .empty := Statement.written_of_open? hopen
    rw [Faithful, held, OpenLoop.under, hwritten]
    exact h
  · have happend := h.append_right (outputOf (statement.run r m.shell).1)
    rw [← OpenLoop.under_append, Act.output, Output.empty_append, ← Output.join_concat] at happend
    exact happend

/-- **One moment keeps what is held in agreement with the log.** -/
theorem Faithful.next (h : m.Faithful) (r : Runner) (around : Nat) :
    (m.next r around).Faithful := by
  unfold Nest.next
  split
  · rename_i statement _ hact
    exact h.begin hact
  · exact h
  all_goals
    rename_i l loops hact hloops
    rw [Faithful, held, hact, hloops] at h
  · exact OpenLoop.Holds.receive (m := { m with loops }) h around
  · exact OpenLoop.Holds.proceed (m := { m with loops }) h
  · exact OpenLoop.Holds.update (m := { m with loops }) h
  · exact OpenLoop.Holds.decide (m := { m with loops }) h

/-- **A whole run does.** -/
theorem Faithful.reaches (h : m.Faithful) (hreach : m.Reaches r around n) : n.Faithful := by
  induction hreach with
  | refl => exact h
  | tail _ hnext ih => exact hnext ▸ ih.next r around

/-- **What the run of a statement has written** is what is in the log when it has come to its
result. -/
theorem agree_of_reaches {statement : Statement} {shell : Shell}
    {result : Except Interrupt Outcome × Shell} {log : List Output} {blemishes : List Blemish}
    (hreach : Nest.Reaches r around (.start statement shell) (.finished result log blemishes)) :
    Output.Agree blemishes (outputOf result.1) (Output.join log) :=
  Faithful.reaches (m := .start statement shell) (.refl _ _) hreach

end Nest

end VirtualShell
