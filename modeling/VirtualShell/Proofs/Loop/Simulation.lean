import VirtualShell.Proofs.Loop.Nest
import VirtualShell.Proofs.Loop.Recursion

/-!
# The run with open loops is the run

The recursion that runs a loop is taken apart into what an open loop does at each moment. At every
moment the rest of the recursion is known from the open loop alone, so the run with open loops comes
to the result of the recursion.

* `OpenLoop.running` — what the recursion still does when the loop decides on its next turn.
* `OpenLoop.resultOf` — the result of the statement that a loop is, from that of its turns.
* `OpenLoop.leads_part` — the statements of a turn, up to what they come to.
* `OpenLoop.settles` — all turns that are left.
* **`Statement.reaches_run`** — every statement comes to the result of its run.
-/

namespace VirtualShell

open Run

/-- The statements of the condition. -/
def LoopHead.condition : LoopHead → List Statement
  | .statements _ condition => condition
  | _ => []

/-! ## What the recursion still does -/

namespace OpenLoop

variable (l : OpenLoop) (r : Runner)

/-- What the loop does after each turn. -/
def updating : Run Unit :=
  match l.head with
  | .arithmetic _ update => Loop.workOut (update.map (Word.value r.expander))
  | _ => return ()

/-- The statements of a turn, with what was written before. -/
def taking (written : Output) : Run Outcome := Statement.runAll r ⟨written, 0⟩ l.body

/-- What the recursion still does when the loop decides on its next turn. -/
def running : Run Outcome :=
  match l.head with
  | .values name rest =>
    Loop.overValues r.limits name (l.taking r) l.left ⟨l.written, l.result⟩ rest
  | .arithmetic condition update =>
    Loop.Conditional.go {
      kind := "for"
      decide := Loop.decideByValue (condition.map (Word.value r.expander))
      body := l.taking r
      step := Loop.workOut (update.map (Word.value r.expander)) }
      r.limits l.left ⟨l.written, l.result⟩
  | .statements kind condition =>
    Loop.Conditional.go {
      kind := kind.word
      decide := Loop.decideByStatus (kind == .untilTrue) fun written =>
        Statement.runAll r ⟨written, 0⟩ condition
      body := l.taking r
      step := return () }
      r.limits l.left ⟨l.written, l.result⟩

/-- What the recursion still does when the loop takes a turn. -/
def turning : Run Outcome := do
  let (ending, written) ← Loop.part l.written (l.taking r)
  match ending with
  | .left => return ⟨written, 0⟩
  | ending => do
    Run.after written (l.updating r)
    { l with written, result := ending.status }.running r

/-- What the recursion still does in a part of a turn. -/
def going : Run (Loop.Ending × Output) :=
  Loop.part l.written fun written => Statement.runAll r ⟨written, l.status⟩ l.rest

/-- **The result of the statement that the loop is**, from that of its turns. -/
def resultOf : Except Interrupt Outcome × Shell → Except Interrupt Outcome × Shell
  | (.ok o, shell) =>
    (.ok ⟨Output.ofError shell.expansionErrors ++ o.output, l.conclude o.status⟩,
      { l.restore shell with status := l.conclude o.status })
  | (.error (.signal s output), shell) =>
    (.error (.signal s (Output.ofError shell.expansionErrors ++ output)), l.restore shell)
  | (.error (.fault f), shell) =>
    (.ok ⟨.ofError ("bash: " ++ l.head.label ++ ": " ++ f.message ++ "\n"), l.conclude 1⟩,
      { l.restore shell with status := l.conclude 1 })

end OpenLoop

/-! ## The statements of a turn -/

/-- A statement has ended with a result, inside the loops of a nest. -/
def Nest.coming (m : Nest) (result : Except Interrupt Outcome × Shell) : Nest :=
  { m with act := .ended result.1, shell := result.2 }

/-- **A statement comes to the result of its run**, in whatever loops it stands. -/
def Statement.Simulated (r : Runner) (around : Nat) (statement : Statement) : Prop :=
  ∀ m : Nest, m.shell.loopDepth = m.loops.length + around →
    Nest.Leads r around { m with act := .begin statement } (m.coming (statement.run r m.shell))

namespace OpenLoop

variable {l : OpenLoop} {r : Runner} {around : Nat}

/-- What the recursion does with what leaves a statement of the loop. -/
def catching (l : OpenLoop) : Interrupt → Run (Loop.Ending × Output)
  | .signal (.break levels) own => Loop.passOn .break levels (l.written ++ own) .left
  | .signal (.continue levels) own => Loop.passOn .continue levels (l.written ++ own) .skipped
  | i => throw (i.after l.written)

theorem going_nil (hrest : l.rest = []) (shell : Shell) :
    l.going r shell = (.ok (.complete l.status, l.written), shell) := by
  rw [going, hrest]
  rfl

/-- The recursion of a part of a turn goes by its first statement. -/
theorem going_cons {statement : Statement} {rest : List Statement}
    (hrest : l.rest = statement :: rest) (shell : Shell) :
    l.going r shell =
      match statement.run r shell with
      | (.ok o, next) =>
        { l with rest, written := l.written ++ o.output, status := o.status }.going r next
      | (.error i, next) => l.catching i next := by
  rw [going, hrest, Loop.part, tryCatch_apply]
  simp only [Statement.runAll, bind_assoc]
  rw [bind_apply, Run.after]
  rcases statement.run r shell with ⟨(⟨s, own⟩ | f) | o, next⟩
  · cases s <;> rfl
  · rfl
  · dsimp only
    rw [going, Loop.part, tryCatch_apply]
    rfl

/-- What comes after a part of a turn. -/
def afterPart (l : OpenLoop) (r : Runner) (m : Nest) :
    Except Interrupt (Loop.Ending × Output) × Shell → Nest
  | (.ok (.complete status, written), shell) =>
    { l with written, rest := [], status }.goOn .proceed { m with shell }
  | (.ok (.left, written), shell) =>
    { l with written }.close (if l.deciding then l.result else 0) { m with shell }
  | (.ok (.skipped, written), shell) => { l with written }.skip r.limits { m with shell }
  | (.error i, shell) => m.coming (l.resultOf (.error i, shell))

/-- What is still to run in the part makes no difference to what comes after it. -/
theorem afterPart_congr (rest : List Statement) (written : Output) (status : Int) (m : Nest)
    (result : Except Interrupt (Loop.Ending × Output) × Shell) :
    { l with rest, written, status }.afterPart r m result = l.afterPart r m result := by
  rcases result with ⟨(⟨s, own⟩ | f) | ⟨status | _ | _, written⟩, shell⟩ <;> rfl

/-- **What leaves a statement** is received as the recursion says: a signal goes on to the loops
around exactly when there are some by the count of the shell. -/
theorem leads_interrupted {m : Nest} {shell : Shell} (i : Interrupt)
    (hdepth : shell.loopDepth = m.loops.length + 1 + around) :
    (l.goOn (.ended (.error i)) { m with shell }).Leads r around
      (l.afterPart r m (l.catching i shell)) := by
  refine Nest.leads_next ?_
  have hpasses (levels : Nat) : (1 < levels ∧ 1 < shell.loopDepth) ↔
      (1 < levels ∧ 0 < m.loops.length + around) := by omega
  rcases i with ⟨levels | levels | status | status | excess, own⟩ | f
  case signal.break =>
    rw [catching, Loop.passOn_apply]
    by_cases hpass : 1 < levels ∧ 0 < m.loops.length + around
    · rw [if_pos ((hpasses levels).2 hpass)]
      simp only [Nest.next, goOn, receive, if_pos hpass]
      exact ⟨rfl, rfl, rfl⟩
    · rw [if_neg (mt (hpasses levels).1 hpass)]
      simp only [Nest.next, goOn, receive, if_neg hpass]
      exact ⟨rfl, rfl, rfl⟩
  case signal.continue =>
    rw [catching, Loop.passOn_apply]
    by_cases hpass : 1 < levels ∧ 0 < m.loops.length + around
    · rw [if_pos ((hpasses levels).2 hpass)]
      simp only [Nest.next, goOn, receive, if_pos hpass]
      exact ⟨rfl, rfl, rfl⟩
    · rw [if_neg (mt (hpasses levels).1 hpass)]
      simp only [Nest.next, goOn, receive, if_neg hpass]
      exact like_skip rfl rfl
  all_goals exact ⟨rfl, rfl, rfl⟩

/-- **The statements of a turn** come to what the recursion says. -/
theorem leads_part (hr : r.KeepsLoops) {m : Nest}
    (hrest : ∀ statement ∈ l.rest, statement.Simulated r around)
    (hdepth : m.shell.loopDepth = m.loops.length + 1 + around) :
    (l.goOn .proceed m).Leads r around (l.afterPart r m (l.going r m.shell)) := by
  -- By induction on the statements of this part that are left. The depth of loops is the same
  -- before each of them, so a signal is received as the recursion says.
  induction hstatements : l.rest generalizing l m with
  | nil =>
    rw [going_nil hstatements]
    have hsame : { l with rest := [] } = l := by rw [← hstatements]
    rw [afterPart, hsame]
    exact Nest.leads_refl _
  | cons statement rest ih =>
    obtain ⟨hstatement, hafter⟩ := List.forall_mem_cons.1 (hstatements ▸ hrest)
    have hrun := hstatement ({ l with rest }.goOn .proceed m) hdepth
    have hbegin : (l.goOn .proceed m).Leads r around
        ({ l with rest }.goOn (.begin statement) m) := by
      refine Nest.leads_next ?_
      simp only [Nest.next, goOn, proceed, hstatements]
      exact ⟨rfl, rfl, rfl⟩
    have hkept := (hr.statement statement m.shell).trans hdepth
    refine hbegin.trans (hrun.trans ?_)
    rw [going_cons hstatements]
    dsimp only [goOn]
    generalize statement.run r m.shell = result at hkept
    rcases result with ⟨i | o, next⟩
    · have hleads := leads_interrupted (l := { l with rest }) (r := r) i hkept
      rwa [afterPart_congr] at hleads
    · have hih := @ih { l with rest, written := l.written ++ o.output, status := o.status }
        { m with shell := next } hafter hkept rfl
      rw [afterPart_congr] at hih
      exact (Nest.leads_next ⟨rfl, rfl, rfl⟩).trans hih

/-! ## Turns -/

/-- From its next decision on, the loop comes to the result that the recursion gives. -/
def Settles (r : Runner) (around : Nat) (l : OpenLoop) : Prop :=
  ∀ m : Nest, m.shell.loopDepth = m.loops.length + 1 + around →
    (l.goOn .decide m).Leads r around (m.coming (l.resultOf (l.running r m.shell)))

/-- Most loops do nothing after a turn. -/
theorem updating_cases (l : OpenLoop) (r : Runner) :
    (l.updating r = pure () ∧ ∀ m, l.update r m = l.goOn .decide m) ∨
      ∃ condition word, l.head = .arithmetic condition (some word) := by
  unfold updating update
  rcases l.head with _ | ⟨condition, _ | word⟩ | _
  · exact .inl ⟨rfl, fun _ => rfl⟩
  · exact .inl ⟨rfl, fun _ => rfl⟩
  · exact .inr ⟨condition, word, rfl⟩
  · exact .inl ⟨rfl, fun _ => rfl⟩

/-- **A turn is over**, and what the loop does after every turn is done. -/
theorem leads_update (hr : r.KeepsLoops) (hl : l.Settles r around) {m : Nest}
    (hdepth : m.shell.loopDepth = m.loops.length + 1 + around) :
    (l.goOn .update m).Leads r around
      (m.coming (l.resultOf ((do Run.after l.written (l.updating r); l.running r) m.shell))) := by
  rcases l.updating_cases r with ⟨hupdating, hupdate⟩ | ⟨condition, word, hhead⟩
  · rw [hupdating]
    refine Nest.Leads.trans (Nest.leads_next ?_) (hl m hdepth)
    simp only [Nest.next, goOn, hupdate]
    exact ⟨rfl, rfl, rfl⟩
  · have hkept := (hr.value word m.shell).trans hdepth
    have hupdating : l.updating r = Loop.workOut (some (word.value r.expander)) := by
      rw [updating, hhead]
      rfl
    have hnext : (l.goOn .update m).next r around =
        l.ask r word (fun _ m => l.goOn .decide m) { m with act := .update } := by
      simp only [Nest.next, goOn, update, hhead]
    rw [hupdating, bind_apply, Run.after, Loop.workOut, bind_apply]
    rw [ask] at hnext
    rcases hvalue : word.value r.expander m.shell with ⟨(⟨s, own⟩ | f) | value, shell⟩ <;>
      rw [hvalue] at hkept <;> dsimp only at hnext <;> rw [hvalue] at hnext
    · exact Nest.leads_next (hnext ▸ ⟨rfl, rfl, rfl⟩)
    · exact Nest.leads_next (hnext ▸ ⟨rfl, rfl, rfl⟩)
    · exact (Nest.leads_next (hnext ▸ ⟨rfl, rfl, rfl⟩)).trans (hl { m with shell } hkept)

/-- A loop that ends by itself comes to the result of the recursion. -/
theorem close_like (written : Output) (status : Int) (m : Nest) (shell : Shell) :
    ({ l with written }.close status { m with shell }).Like
      (m.coming (l.resultOf (.ok ⟨written, status⟩, shell))) := by
  refine ⟨rfl, ?_, rfl⟩
  simp only [close, output, Output.append_empty]
  rfl

/-- **A turn of the loop**, from its first statement on, and all turns after it. -/
theorem leads_turning (hr : r.KeepsLoops)
    (hbody : ∀ statement ∈ l.body, statement.Simulated r around)
    (hl : ∀ written result deciding rest status,
      { l with written, result, deciding, rest, status }.Settles r around) {m : Nest}
    (hdepth : m.shell.loopDepth = m.loops.length + 1 + around) :
    ({ l with deciding := false, rest := l.body, status := 0 }.goOn .proceed m).Leads r around
      (m.coming (l.resultOf (l.turning r m.shell))) := by
  have hpart := leads_part (l := { l with deciding := false, rest := l.body, status := 0 }) hr hbody
    hdepth
  refine hpart.trans ?_
  have hgoing : { l with deciding := false, rest := l.body, status := 0 }.going r m.shell =
      Loop.part l.written (l.taking r) m.shell := rfl
  have hkept : (Loop.part l.written (l.taking r) m.shell).2.loopDepth = _ :=
    (hr.part l.written 0 l.body m.shell).trans hdepth
  rw [hgoing, turning, bind_apply]
  rcases hend : Loop.part l.written (l.taking r) m.shell with
      ⟨i | ⟨status | _ | _, written⟩, shell⟩ <;>
    rw [hend] at hkept
  · exact Nest.leads_refl _
  · refine (Nest.leads_next ⟨rfl, rfl, rfl⟩ : Nest.Leads r around _ ({ l with
      written, result := status, deciding := false, rest := [], status }.goOn .update
        { m with shell })).trans ?_
    exact leads_update hr (hl written status false [] status) hkept
  · refine Nest.leads_of_like ?_
    exact close_like written 0 m shell
  · exact leads_update hr (hl written 0 false [] 0) hkept

/-! ## The next turn -/

/-- The result goes by what stays the same in the course of a loop. -/
theorem resultOf_congr (l l' : OpenLoop) (hlabel : l'.head.label = l.head.label)
    (hnegated : l'.negated = l.negated) (houtside : l'.outside = l.outside)
    (hturns : l'.outsideTurns = l.outsideTurns) (result : Except Interrupt Outcome × Shell) :
    l'.resultOf result = l.resultOf result := by
  rcases result with ⟨(⟨s, output⟩ | f) | o, shell⟩ <;>
    simp only [resultOf, conclude, restore, hlabel, hnegated, houtside, hturns]

/-- A loop that has taken all turns it may comes to the result of the recursion. -/
theorem exhaust_like {kind : String} (hkind : kind = l.head.word) {limits : Limits}
    {written : Output} (deciding : Bool) (rest : List Statement) (status : Int) (m : Nest)
    (shell : Shell) :
    ({ l with written, deciding, rest, status }.exhaust limits { m with shell }).Like
      (m.coming (l.resultOf (Loop.exhausted kind limits written shell))) := by
  refine ⟨rfl, ?_, rfl⟩
  simp only [exhaust, leave, output, Output.append_empty, hkind]
  rfl

/-- From its next turn on, the loop comes to the result that the recursion gives. -/
def SettlesLater (r : Runner) (around : Nat) (l : OpenLoop) : Prop :=
  ∀ left, l.left = left + 1 → ∀ written result deciding rest status,
    { l with left, written, result, deciding, rest, status }.Settles r around

/-- **A loop begins a turn**, if it may. -/
theorem leads_enter (hr : r.KeepsLoops)
    (hbody : ∀ statement ∈ l.body, statement.Simulated r around)
    (hl : l.SettlesLater r around) {ready : Shell} {m : Nest}
    {result : Except Interrupt Outcome × Shell}
    (hdepth : ready.loopDepth = m.loops.length + 1 + around)
    (hzero : l.left = 0 → result = Loop.exhausted l.head.word r.limits l.written m.shell)
    (hsucc : ∀ left, l.left = left + 1 →
      result = { l with left }.turning r { ready with usage := ready.usage.beginTurn }) :
    (l.enter r.limits ready m).Leads r around (m.coming (l.resultOf result)) := by
  rcases hleft : l.left with _ | left
  · rw [hzero hleft]
    simp only [enter, hleft]
    exact Nest.leads_of_like (exhaust_like rfl l.deciding l.rest l.status m m.shell)
  · have hturn := leads_turning (l := { l with left })
      (m := { m with shell := { ready with usage := ready.usage.beginTurn } }) hr hbody
      (hl left hleft) hdepth
    rw [resultOf_congr l { l with left } rfl rfl rfl rfl] at hturn
    rw [hsucc left hleft]
    simp only [enter, hleft]
    exact hturn

/-! ## The three loops -/

/-- A loop over values takes a turn for each of them. -/
theorem settles_values (hr : r.KeepsLoops) {name : String} {values : List String}
    (hhead : l.head = .values name values)
    (hbody : ∀ statement ∈ l.body, statement.Simulated r around)
    (hl : ∀ rest, { l with head := .values name rest }.SettlesLater r around) :
    l.Settles r around := by
  intro m hdepth
  refine (Nest.leads_next (n := l.decide r { m with act := .decide }) (.refl _)).trans ?_
  rw [running, decide, hhead]
  rcases values with _ | ⟨value, values⟩
  · dsimp only
    rw [Loop.overValues_nil]
    exact Nest.leads_of_like (close_like l.written l.result m m.shell)
  · rw [← resultOf_congr l { l with head := .values name values } ?_ rfl rfl rfl]
    refine leads_enter (l := { l with head := .values name values })
      (m := { m with act := .decide }) hr hbody (hl values) hdepth ?_ ?_
    · intro hleft
      rw [show l.left = 0 from hleft]
      rfl
    · intro left hleft
      rw [show l.left = left + 1 from hleft]
      dsimp only
      rw [Loop.overValues_cons]
      refine congrFun (bind_congr fun ⟨ending, written⟩ => ?_) _
      cases ending <;> rfl
    · rw [hhead]
      rfl

/-- The recursion of the loop is that of a loop with a condition. -/
structure GoesBy (r : Runner) (c : Loop.Conditional) (l : OpenLoop) : Prop where
  running (left : Nat) (written : Output) (result : Int) (deciding : Bool) (rest : List Statement)
    (status : Int) :
    { l with left, written, result, deciding, rest, status }.running r =
      c.go r.limits left ⟨written, result⟩
  kind : c.kind = l.head.word
  body : c.body = l.taking r
  step : c.step = l.updating r

theorem GoesBy.running_eq {c : Loop.Conditional} (hc : l.GoesBy r c) :
    l.running r = c.go r.limits l.left ⟨l.written, l.result⟩ :=
  hc.running l.left l.written l.result l.deciding l.rest l.status

section Decided

variable {c : Loop.Conditional} (hc : l.GoesBy r c) {shell next : Shell} {written : Output}
include hc

/-- The condition has ended the loop. -/
theorem leads_stop (deciding : Bool) (rest : List Statement) (status : Int) (m : Nest)
    (hdecide : c.decide l.written shell = (.ok (.stop, written), next)) :
    ({ l with written, deciding, rest, status }.close l.result { m with shell := next }).Leads
      r around (m.coming (l.resultOf (l.running r shell))) := by
  rw [hc.running_eq, Loop.Conditional.go_stop l.left hdecide]
  exact Nest.leads_of_like (close_like written l.result m next)

/-- The condition has passed over a turn. -/
theorem leads_skip (hl : l.SettlesLater r around) (rest : List Statement) (status : Int) {m : Nest}
    (hdepth : next.loopDepth = m.loops.length + 1 + around)
    (hdecide : c.decide l.written shell = (.ok (.skip, written), next)) :
    ({ l with written, deciding := true, rest, status }.skip r.limits
      { m with shell := next }).Leads r around (m.coming (l.resultOf (l.running r shell))) := by
  rw [hc.running_eq]
  rcases hleft : l.left with _ | left
  · refine Nest.leads_of_like ?_
    rw [Loop.Conditional.go_zero (by decide) hdecide]
    simp only [skip, if_true]
    exact exhaust_like hc.kind true rest status m next
  · rw [Loop.Conditional.go_skip left hdecide]
    simp only [skip, if_true]
    have hsettles := hl left hleft written l.result true [] 0 { m with shell := next } hdepth
    rw [hc.running, resultOf_congr l { l with left, written, deciding := true, rest := [], status := 0 }
      rfl rfl rfl rfl] at hsettles
    exact hsettles

/-- **The condition has decided on a turn.** -/
theorem leads_turn (hr : r.KeepsLoops)
    (hbody : ∀ statement ∈ l.body, statement.Simulated r around)
    (hl : l.SettlesLater r around) (deciding : Bool) (rest : List Statement) (status : Int)
    {m : Nest} (hdepth : next.loopDepth = m.loops.length + 1 + around)
    (hdecide : c.decide l.written shell = (.ok (.enter, written), next)) :
    ({ l with written, deciding, rest, status }.enter r.limits next { m with shell := next }).Leads
      r around (m.coming (l.resultOf (l.running r shell))) := by
  rw [hc.running_eq,
    ← resultOf_congr l { l with written, deciding, rest, status } rfl rfl rfl rfl]
  refine leads_enter (l := { l with written, deciding, rest, status })
    (m := { m with shell := next }) hr hbody hl hdepth ?_ ?_
  · intro hleft
    rw [show l.left = 0 from hleft, Loop.Conditional.go_zero (by decide) hdecide, hc.kind]
  · intro left hleft
    rw [show l.left = left + 1 from hleft, Loop.Conditional.go_enter left hdecide, hc.body, hc.step]
    refine congrFun (bind_congr fun ⟨ending, written⟩ => ?_) _
    cases ending
    case left => rfl
    all_goals
      exact bind_congr fun _ => (hc.running left written _ deciding rest status).symm

end Decided

/-- A loop with an arithmetic condition takes a turn as long as its value is not zero. -/
theorem settles_arithmetic (hr : r.KeepsLoops) {condition update : Option Word}
    (hhead : l.head = .arithmetic condition update)
    (hbody : ∀ statement ∈ l.body, statement.Simulated r around)
    (hl : l.SettlesLater r around) : l.Settles r around := by
  intro m hdepth
  have hc : l.GoesBy r {
      kind := "for"
      decide := Loop.decideByValue (condition.map (Word.value r.expander))
      body := l.taking r
      step := Loop.workOut (update.map (Word.value r.expander)) } :=
    ⟨fun left written result deciding rest status => by simp only [running, hhead]; rfl,
      by rw [hhead]; rfl, rfl, by rw [updating, hhead]⟩
  refine (Nest.leads_next (n := l.decide r { m with act := .decide }) (.refl _)).trans ?_
  rw [decide, hhead]
  rcases condition with _ | word
  · exact leads_turn (m := { m with act := .decide }) hc hr hbody hl l.deciding l.rest l.status
      hdepth rfl
  · have hkept := (hr.value word m.shell).trans hdepth
    dsimp only
    rw [ask]
    rcases hvalue : word.value r.expander m.shell with ⟨i | value, next⟩ <;> rw [hvalue] at hkept
    · have hdecide : Loop.decideByValue (some (word.value r.expander)) l.written m.shell =
          (.error (i.after l.written), next) := by
        simp only [Loop.decideByValue, bind_apply, Run.after, hvalue]
      rw [hc.running_eq, Loop.Conditional.go_error l.left hdecide]
      rcases i with ⟨s, own⟩ | f <;> exact Nest.leads_of_like ⟨rfl, rfl, rfl⟩
    · have hdecide : Loop.decideByValue (some (word.value r.expander)) l.written m.shell =
          (.ok (if value = 0 then .stop else .enter, l.written), next) := by
        simp only [Loop.decideByValue, bind_apply, Run.after, hvalue]
        split <;> rfl
      by_cases hzero : value = 0
      · rw [if_pos hzero] at hdecide
        simp only [if_pos hzero]
        exact leads_stop hc l.deciding l.rest l.status { m with act := .decide } hdecide
      · rw [if_neg hzero] at hdecide
        simp only [if_neg hzero]
        exact leads_turn (m := { m with act := .decide }) hc hr hbody hl l.deciding l.rest l.status
          hkept hdecide

/-- A loop takes a turn as long as the status of its condition says so. -/
theorem settles_statements (hr : r.KeepsLoops) {kind : LoopKind} {condition : List Statement}
    (hhead : l.head = .statements kind condition)
    (hcondition : ∀ statement ∈ condition, statement.Simulated r around)
    (hbody : ∀ statement ∈ l.body, statement.Simulated r around)
    (hl : l.SettlesLater r around) : l.Settles r around := by
  intro m hdepth
  have hc : l.GoesBy r {
      kind := kind.word
      decide := Loop.decideByStatus (kind == .untilTrue) fun written =>
        Statement.runAll r ⟨written, 0⟩ condition
      body := l.taking r
      step := return () } :=
    ⟨fun left written result deciding rest status => by simp only [running, hhead]; rfl,
      by rw [hhead]; rfl, rfl, by rw [updating, hhead]⟩
  have hnext : (l.goOn .decide m).next r around =
      { l with deciding := true, rest := condition, status := 0 }.goOn .proceed
        { m with act := .decide } := by
    simp only [Nest.next, goOn, decide, hhead]
  have hpart := leads_part (l := { l with deciding := true, rest := condition, status := 0 })
    (m := { m with act := .decide }) hr hcondition hdepth
  have hkept := (hr.part l.written 0 condition m.shell).trans hdepth
  have hdecide := Loop.decideByStatus_apply (kind == .untilTrue)
    (fun written => Statement.runAll r ⟨written, 0⟩ condition) l.written m.shell
  have hgoing : { l with deciding := true, rest := condition, status := 0 }.going r m.shell =
      Loop.part l.written (fun written => Statement.runAll r ⟨written, 0⟩ condition) m.shell := rfl
  dsimp only at hgoing hpart
  rw [hgoing] at hpart
  refine (Nest.leads_of_next hnext).trans (hpart.trans ?_)
  rcases hend : Loop.part l.written (fun written => Statement.runAll r ⟨written, 0⟩ condition)
    m.shell with ⟨i | ⟨status | _ | _, written⟩, next⟩ <;> rw [hend] at hkept hdecide
  · rw [hc.running_eq, Loop.Conditional.go_error l.left hdecide]
    rcases i with ⟨s, own⟩ | f <;> exact Nest.leads_of_like ⟨rfl, rfl, rfl⟩
  · have hwants : (OpenLoop.goOn { l with written, deciding := true, rest := [], status } .proceed
        { m with act := .decide, shell := next }).next r around =
        if (status == 0) != (kind == .untilTrue) then
          { l with written, deciding := true, rest := [], status }.enter r.limits next
            { m with act := .proceed, shell := next }
        else
          { l with written, deciding := true, rest := [], status }.close l.result
            { m with act := .proceed, shell := next } := by
      simp only [Nest.next, goOn, proceed, if_true, wantsTurn, hhead]
    refine (Nest.leads_of_next hwants).trans ?_
    by_cases hturn : ((status == 0) != (kind == .untilTrue)) = true
    · simp only [if_pos hturn] at hdecide ⊢
      exact leads_turn (m := { m with act := .proceed }) hc hr hbody hl true [] status hkept hdecide
    · simp only [if_neg hturn] at hdecide ⊢
      exact leads_stop hc true [] status { m with act := .proceed } hdecide
  · exact leads_stop hc true condition 0 { m with act := .decide } hdecide
  · exact leads_skip hc hl condition 0 (m := { m with act := .decide }) hkept hdecide

/-- **An open loop comes to the result of the recursion** when its statements do. -/
theorem settles (hr : r.KeepsLoops) {left : Nat} :
    ∀ {l : OpenLoop}, l.left = left →
      (∀ statement ∈ l.head.condition, statement.Simulated r around) →
      (∀ statement ∈ l.body, statement.Simulated r around) → l.Settles r around := by
  -- By induction on the turns that are left: what follows the next turn has one less.
  induction left using Nat.strong_induction_on with
  | _ left ih =>
    intro l hleft hcondition hbody
    have hlater (head : LoopHead) (hsame : head.condition = l.head.condition) :
        { l with head }.SettlesLater r around := by
      intro next hnext written result deciding rest status
      have hless : next < left := by
        rw [← hleft, show l.left = next + 1 from hnext]
        exact next.lt_succ_self
      exact ih next hless rfl (by rw [hsame]; exact hcondition) hbody
    rcases hhead : l.head with ⟨name, values⟩ | ⟨condition, update⟩ | ⟨kind, condition⟩
    · exact settles_values hr hhead hbody fun rest =>
        hlater (.values name rest) (by rw [hhead]; rfl)
    · exact settles_arithmetic hr hhead hbody (hlater l.head rfl)
    · exact settles_statements hr hhead (by rwa [hhead] at hcondition) hbody (hlater l.head rfl)

end OpenLoop

/-! ## Opening a loop -/

namespace LoopForm

/-- **What a loop goes by at its start**, and the shell by then. -/
inductive Opens (r : Runner) (shell : Shell) : LoopForm → LoopHead → Shell → Prop where
  | parameters {name : String} {body : List Statement} (hname : isValidName name = true) :
    Opens r shell (.values name none body) (.values name shell.parameters) shell
  | values {name : String} {words : List Word} {body : List Statement} {values : List String}
    {ready : Shell} (hname : isValidName name = true)
    (hvalues : Word.allFields r.expander words shell = (.ok values, ready)) :
    Opens r shell (.values name (some words) body) (.values name values) ready
  | arithmetic {init condition update : Option Word} {body : List Statement} {ready : Shell}
    (hinit : Loop.workOut (init.map (Word.value r.expander)) shell = (.ok (), ready)) :
    Opens r shell (.arithmetic init condition update body) (.arithmetic condition update) ready
  | statements {kind : LoopKind} {condition body : List Statement} :
    Opens r shell (.statements kind condition body) (.statements kind condition) shell

variable {r : Runner} {form : LoopForm} {shell ready : Shell} {head : LoopHead}

theorem opens_of_head? (h : form.head? r shell = (.ok (some head), ready)) :
    form.Opens r shell head ready := by
  rcases form with ⟨name, words, body⟩ | ⟨init, condition, update, body⟩ | ⟨kind, condition, body⟩
  · rw [head?] at h
    split at h
    · cases h
    · rename_i hname
      have hname : isValidName name = true := by simpa using hname
      rcases words with _ | words
      · cases h
        exact .parameters hname
      · dsimp only at h
        rw [bind_apply] at h
        split at h
        · rename_i values next hvalues
          cases h
          exact .values hname hvalues
        · cases h
  · rw [head?, bind_apply] at h
    split at h
    · rename_i next hinit
      cases h
      exact .arithmetic hinit
    · cases h
  · cases h
    exact .statements

/-- The statements of the condition. -/
def condition : LoopForm → List Statement
  | .statements _ condition _ => condition
  | _ => []

/-- The statements of a loop are smaller than the loop. -/
theorem sizeOf_statement (form : LoopForm) (negated background : Bool) :
    sizeOf form.condition + sizeOf form.body < sizeOf (form.statement negated background) := by
  cases form
  all_goals
    simp only [condition, body, statement, compound, Statement.mk.sizeOf_spec,
      Pipeline.mk.sizeOf_spec, Command.compound.sizeOf_spec, Compound.forEach.sizeOf_spec,
      Compound.forArithmetic.sizeOf_spec, Compound.loop.sizeOf_spec, List.cons.sizeOf_spec,
      List.nil.sizeOf_spec]
    omega

namespace Opens

theorem condition_eq (h : form.Opens r shell head ready) : head.condition = form.condition := by
  cases h <;> rfl

theorem label_eq (h : form.Opens r shell head ready) :
    (Command.compound form.compound []).label = head.label := by
  cases h
  case statements kind _ _ => cases kind <;> rfl
  all_goals rfl

theorem loopDepth_eq (h : form.Opens r shell head ready) (hr : r.KeepsLoops) :
    ready.loopDepth = shell.loopDepth := by
  cases h
  case parameters | statements => rfl
  case values words _ _ _ hvalues =>
    have hkept := hr.fields words shell
    rwa [hvalues] at hkept
  case arithmetic init _ _ _ hinit =>
    rcases init with _ | word
    · cases hinit
      rfl
    · have hkept := hr.value word shell
      rw [Option.map_some, Loop.workOut, bind_apply] at hinit
      rcases hvalue : word.value r.expander shell with ⟨i | value, next⟩ <;>
        rw [hvalue] at hinit hkept <;> cases hinit
      exact hkept

/-- A loop that comes as far as its first turn runs as an open loop does. -/
theorem run_compound (h : form.Opens r shell head ready) (negated : Bool) (outside : Shell)
    (outsideTurns : Nat) :
    form.compound.run r shell =
      Loop.inside ((form.opened head negated r.limits outside outsideTurns).running r) ready := by
  cases h
  case statements => rfl
  case parameters hname =>
    rw [compound, Compound.run, if_neg (by simpa using hname)]
    rfl
  case values hname hvalues =>
    rw [compound, Compound.run, if_neg (by simpa using hname)]
    dsimp only
    rw [bind_apply, hvalues]
    rfl
  case arithmetic hinit =>
    rw [compound, Compound.run, bind_apply, hinit]
    rfl

end Opens

end LoopForm

namespace Statement

variable {r : Runner} {statement : Statement} {shell entered : Shell} {l : OpenLoop}

/-- What it is that opens a loop. -/
theorem open?_eq_some (h : statement.open? r shell = some (l, entered)) :
    ∃ (form : LoopForm) (negated background : Bool) (counted : Shell) (head : LoopHead)
      (ready : Shell),
      statement = form.statement negated background ∧
      accept r.limits shell = (.ok (), counted) ∧
      form.Opens r { counted with expansionErrors := "" } head ready ∧
      l = form.opened head negated r.limits counted ready.usage.turns ∧
      entered = { ready with
        loopDepth := ready.loopDepth + 1
        usage := ready.usage.enterLoop } := by
  rw [open?] at h
  split at h
  · cases h
  · rename_i form negated hloop
    obtain ⟨background, hstatement⟩ := eq_statement_of_loop? hloop
    split at h
    · cases h
    · rename_i counted hcount
      split at h
      · rename_i head ready hhead
        cases h
        exact ⟨form, negated, background, counted, head, ready, hstatement, hcount,
          LoopForm.opens_of_head? hhead, rfl, rfl⟩
      · cases h

/-- **The run of a statement that is opened** is what the recursion still does in the open loop. -/
theorem run_of_open? (h : statement.open? r shell = some (l, entered)) :
    statement.run r shell = l.resultOf (l.running r entered) := by
  obtain ⟨form, negated, background, counted, head, ready, rfl, hcount, hopens, rfl, rfl⟩ :=
    open?_eq_some h
  rw [LoopForm.statement, run_compound r _ negated background hcount,
    hopens.run_compound negated counted ready.usage.turns, hopens.label_eq, Loop.inside, during]
  rcases OpenLoop.running _ r _ with ⟨(⟨s, output⟩ | f) | o, final⟩
  · rfl
  · cases negated <;> rfl
  · rfl

theorem loopDepth_of_open? (hr : r.KeepsLoops) (h : statement.open? r shell = some (l, entered)) :
    entered.loopDepth = shell.loopDepth + 1 := by
  obtain ⟨form, negated, background, counted, head, ready, rfl, hcount, hopens, rfl, rfl⟩ :=
    open?_eq_some h
  have hcounted := congrArg Frame.loopDepth (confined_accept r.limits shell).1
  rw [hcount] at hcounted
  exact congrArg (· + 1) ((hopens.loopDepth_eq hr).trans hcounted)

/-- A loop that is opened has written nothing. -/
theorem written_of_open? (h : statement.open? r shell = some (l, entered)) :
    l.written = .empty := by
  obtain ⟨form, negated, background, counted, head, ready, -, -, -, rfl, -⟩ := open?_eq_some h
  rfl

/-- The statements of a loop that is opened are smaller than the statement that is the loop. -/
theorem sizeOf_of_open? (h : statement.open? r shell = some (l, entered)) {part : Statement}
    (hpart : part ∈ l.head.condition ∨ part ∈ l.body) : sizeOf part < sizeOf statement := by
  obtain ⟨form, negated, background, counted, head, ready, rfl, -, hopens, rfl, -⟩ :=
    open?_eq_some h
  have hstatements := form.sizeOf_statement negated background
  rcases hpart with hcondition | hbody
  · have hpart := List.sizeOf_lt_of_mem (hopens.condition_eq ▸ hcondition)
    omega
  · have hpart : sizeOf part < sizeOf form.body := List.sizeOf_lt_of_mem hbody
    omega

/-! ## Every statement -/

/-- **Every statement comes to the result of its run**, in whatever loops it stands. -/
theorem simulated (hr : r.KeepsLoops) (around : Nat) (statement : Statement) :
    statement.Simulated r around := by
  -- A loop is opened and goes by its own statements, which are smaller.
  induction hsize : sizeOf statement using Nat.strong_induction_on generalizing statement with
  | _ size ih =>
    intro m hdepth
    rcases hopen : statement.open? r m.shell with _ | ⟨l, entered⟩
    · refine Nest.leads_next ?_
      simp only [Nest.next, Nest.begin, hopen]
      exact ⟨rfl, rfl, rfl⟩
    · have hparts (part : Statement) (hpart : part ∈ l.head.condition ∨ part ∈ l.body) :
          part.Simulated r around :=
        ih _ (hsize ▸ sizeOf_of_open? hopen hpart) part rfl
      have hentered : entered.loopDepth = m.loops.length + 1 + around := by
        rw [loopDepth_of_open? hr hopen, hdepth]
        omega
      have hbegin : Nest.next r around { m with act := .begin statement } =
          l.goOn .decide { m with shell := entered } := by
        simp only [Nest.next, Nest.begin, hopen, OpenLoop.goOn]
      rw [run_of_open? hopen]
      exact (Nest.leads_of_next hbegin).trans (OpenLoop.settles hr rfl
        (fun part hpart => hparts part (.inl hpart)) (fun part hpart => hparts part (.inr hpart))
        { m with shell := entered } hentered)

/-- **The run with open loops comes to the result of the run.** -/
theorem reaches_run (hr : r.KeepsLoops) (statement : Statement) (shell : Shell) :
    ∃ (log : List Output) (blemishes : List Blemish),
      Nest.Reaches r shell.loopDepth (.start statement shell)
        (.finished (statement.run r shell) log blemishes) := by
  obtain ⟨⟨_, _, _, log, blemishes⟩, ⟨rfl, rfl, rfl⟩, hreach⟩ :=
    simulated hr shell.loopDepth statement (.start statement shell) (by simp [Nest.start])
      (.start statement shell) (.refl _)
  exact ⟨log, blemishes, hreach⟩

end Statement

end VirtualShell
