import VirtualShell.Execution.Depth
import VirtualShell.Proofs.Session.Selection

/-!
# Loops inside one another

The run of a statement, with the loops that are open in it kept as a list. An open loop knows which
of its statements are still to run in this turn and what its statements have written so far. A
statement that is a loop and nothing else is opened; every other statement runs as a whole. What has
ended is received by the innermost open loop: it goes on, ends, or is left by a signal to the loops
around it.

* `LoopForm` — the loops of the language, and `Statement.loop?`, the statements that are one.
* `OpenLoop` — a loop in its run, and what becomes of it.
* **`Nest`** — the run at a moment, and `Nest.next`, the moment after it.
* `Nest.Like.next` — what comes next for moments that are alike apart from what was written.
* `Nest.Leads` — one moment leads to another one, whatever was written and noted before.
-/

namespace VirtualShell

/-! ## Loops -/

/-- A loop. -/
inductive LoopForm where
  /-- Over some words, or over the positional parameters. -/
  | values (name : String) (words : Option (List Word)) (body : List Statement)
  /-- As long as an arithmetic expression is not zero. -/
  | arithmetic (init condition update : Option Word) (body : List Statement)
  /-- As long as some statements succeed, or as long as they fail. -/
  | statements (kind : LoopKind) (condition body : List Statement)

namespace LoopForm

/-- The loop as a compound command. -/
def compound : LoopForm → Compound
  | .values name words body => .forEach name words body
  | .arithmetic init condition update body => .forArithmetic init condition update body
  | .statements kind condition body => .loop kind condition body

/-- The statements of a turn. -/
def body : LoopForm → List Statement
  | .values _ _ body | .arithmetic _ _ _ body | .statements _ _ body => body

/-- The statement that is this loop and nothing else. -/
def statement (l : LoopForm) (negated background : Bool) : Statement :=
  ⟨⟨[.compound l.compound []], negated⟩, [], background⟩

end LoopForm

/-- The loop that a statement is, and whether its status is turned round. -/
def Statement.loop? : Statement → Option (LoopForm × Bool)
  | ⟨⟨[.compound (.forEach name words body) []], negated⟩, [], _⟩ =>
    some (.values name words body, negated)
  | ⟨⟨[.compound (.forArithmetic init condition update body) []], negated⟩, [], _⟩ =>
    some (.arithmetic init condition update body, negated)
  | ⟨⟨[.compound (.loop kind condition body) []], negated⟩, [], _⟩ =>
    some (.statements kind condition body, negated)
  | _ => none

theorem Statement.eq_statement_of_loop? {statement : Statement} {l : LoopForm} {negated : Bool}
    (h : statement.loop? = some (l, negated)) :
    ∃ background, statement = l.statement negated background := by
  unfold loop? at h
  split at h <;> cases h <;> exact ⟨_, rfl⟩

/-! ## Open loops -/

/-- What an open loop goes by. -/
inductive LoopHead where
  /-- A variable, and the values it has not been given yet. -/
  | values (name : String) (rest : List String)
  | arithmetic (condition update : Option Word)
  | statements (kind : LoopKind) (condition : List Statement)

/-- The word for the loop in messages about its turns. -/
def LoopHead.word : LoopHead → String
  | .values .. | .arithmetic .. => "for"
  | .statements kind _ => kind.word

/-- The word for the loop in messages about what broke it. -/
def LoopHead.label : LoopHead → String
  | .values .. => "for"
  | .arithmetic .. => "cstylefor"
  | .statements kind _ => kind.word

/-- **A loop in its run.** -/
structure OpenLoop where
  head : LoopHead
  body : List Statement
  /-- Its status is turned round. -/
  negated : Bool
  /-- The shell around it. -/
  outside : Shell
  /-- The turns that the loop around it has begun. -/
  outsideTurns : Nat
  /-- How many turns it may still take. -/
  left : Nat
  /-- The status of its last turn. -/
  result : Int
  /-- What its statements have written. -/
  written : Output
  /-- Its condition is being run, and not its body. -/
  deciding : Bool
  /-- The statements of the condition or the body that have not been run in this turn. -/
  rest : List Statement
  /-- The status of the last of those that have. -/
  status : Int

namespace OpenLoop

variable (l : OpenLoop)

/-- The shell outside the loop, when this is the shell inside it. -/
def restore (shell : Shell) : Shell :=
  { shell with
    loopDepth := shell.loopDepth - 1
    usage := { shell.usage with turns := l.outsideTurns }
    groupInput := l.outside.groupInput
    expansionErrors := l.outside.expansionErrors }

/-- What the loop has written together with an output after it. What its own words have written to
the error stream stands in front. -/
def output (shell : Shell) (own : Output) : Output :=
  Output.ofError shell.expansionErrors ++ (l.written ++ own)

/-- The status of the statement that the loop is. -/
def conclude (status : Int) : Int :=
  if l.negated then (if status = 0 then 1 else 0) else status

/-- Its condition wants another turn. -/
def wantsTurn : Bool :=
  match l.head with
  | .statements kind _ => (l.status == 0) != (kind == .untilTrue)
  | _ => false

end OpenLoop

/-! ## The run at a moment -/

/-- What happens next in the innermost open loop. -/
inductive Act where
  /-- A statement begins. -/
  | begin (statement : Statement)
  /-- A statement has ended. -/
  | ended (result : Except Interrupt Outcome)
  /-- The statements of this turn go on. -/
  | proceed
  /-- The turn is over. -/
  | update
  /-- The loop decides on its next turn. -/
  | decide

/-- What keeps the output from being what the statements have written, one after another. -/
inductive Blemish where
  /-- The words of a loop itself have written to the error stream. This stands before all that the
  statements of the loop have written. -/
  | early (errors : String)
  /-- A fault has broken a loop. What its statements had written is lost, and a message stands in
  its place. -/
  | lost (output : Output)
  deriving DecidableEq

/-- **The run of a statement at a moment.** -/
structure Nest where
  /-- The open loops, innermost first. -/
  loops : List OpenLoop
  act : Act
  shell : Shell
  /-- What was written so far and is not lost, one output after another. -/
  log : List Output
  blemishes : List Blemish

namespace Nest

/-- A statement begins, and no loop is open. -/
def start (statement : Statement) (shell : Shell) : Nest := ⟨[], .begin statement, shell, [], []⟩

/-- A statement has come to a result, and no loop is open. -/
def finished (result : Except Interrupt Outcome × Shell) (log : List Output)
    (blemishes : List Blemish) : Nest :=
  ⟨[], .ended result.1, result.2, log, blemishes⟩

end Nest

/-- What was written before a step ended or was left. -/
def outputOf : Except Interrupt Outcome → Output
  | .ok o => o.output
  | .error (.signal _ output) => output
  | .error (.fault _) => .empty

/-- Some outputs one after another. -/
def Output.join (outputs : List Output) : Output := outputs.foldr (· ++ ·) .empty

/-! ## What becomes of an open loop -/

namespace OpenLoop

variable (l : OpenLoop)

/-- What is noted when the loop ends. -/
def note (m : Nest) : List Blemish :=
  if m.shell.expansionErrors = "" then m.blemishes
  else m.blemishes ++ [.early m.shell.expansionErrors]

/-- The loop ends with a status; the loops around it are those of the nest. -/
def close (status : Int) (m : Nest) : Nest :=
  { m with
    act := .ended (.ok ⟨l.output m.shell .empty, l.conclude status⟩)
    shell := { l.restore m.shell with status := l.conclude status }
    blemishes := note m }

/-- **A signal leaves the loop**, and takes along what the loop has written. -/
def leave (s : Signal) (own : Output) (m : Nest) : Nest :=
  { m with
    act := .ended (.error (.signal s (l.output m.shell own)))
    shell := l.restore m.shell
    blemishes := note m }

/-- An output together with all that some loops have written, the outermost first. -/
def under : List OpenLoop → Output → Output
  | [], output => output
  | l :: loops, output => under loops (l.written ++ output)

/-- **A fault breaks the loop.** A message stands in place of what its statements have written; what
those of the loops around have written stays. -/
def fail (f : Fault) (m : Nest) : Nest :=
  let message := Output.ofError ("bash: " ++ l.head.label ++ ": " ++ f.message ++ "\n")
  { m with
    act := .ended (.ok ⟨message, l.conclude 1⟩)
    shell := { l.restore m.shell with status := l.conclude 1 }
    log := [under m.loops .empty, message]
    blemishes := m.blemishes ++ [.lost l.written] }

/-- The loop goes on in some way. -/
def goOn (act : Act) (m : Nest) : Nest := { m with loops := l :: m.loops, act }

/-- The loop has taken all turns it may. -/
def exhaust (limits : Limits) (m : Nest) : Nest :=
  l.leave (.excess (.loopTurns l.head.word limits.loopTurns)) .empty m

/-- The loop begins a turn in a shell, if it may. -/
def enter (limits : Limits) (ready : Shell) (m : Nest) : Nest :=
  match l.left with
  | 0 => l.exhaust limits m
  | left + 1 =>
    { l with left, deciding := false, rest := l.body, status := 0 }.goOn .proceed
      { m with shell := { ready with usage := ready.usage.beginTurn } }

/-- **The rest of the turn is passed over.** -/
def skip (limits : Limits) (m : Nest) : Nest :=
  if l.deciding then
    match l.left with
    | 0 => l.exhaust limits m
    | left + 1 => { l with left, rest := [], status := 0 }.goOn .decide m
  else { l with result := 0, rest := [], status := 0 }.goOn .update m

/-- Work out a word of the loop itself. What was written by then is in the log. -/
def ask (r : Runner) (word : Word) (answer : Int → Nest → Nest) (m : Nest) : Nest :=
  match word.value r.expander m.shell with
  | (.ok value, shell) => answer value { m with shell }
  | (.error (.signal s own), shell) => l.leave s own { m with shell, log := m.log ++ [own] }
  | (.error (.fault f), shell) => l.fail f { m with shell }

/-- The loop decides on its next turn. -/
def decide (r : Runner) (m : Nest) : Nest :=
  match l.head with
  | .values _ [] => l.close l.result m
  | .values name (value :: rest) =>
    { l with head := .values name rest }.enter r.limits
      { m.shell with «variables» := m.shell.variables.set name value } m
  | .arithmetic none _ => l.enter r.limits m.shell m
  | .arithmetic (some word) _ =>
    l.ask r word
      (fun value m => if value = 0 then l.close l.result m else l.enter r.limits m.shell m) m
  | .statements _ condition =>
    { l with deciding := true, rest := condition, status := 0 }.goOn .proceed m

/-- The statements of the turn go on. When none is left, the condition is decided, or the turn is
over. -/
def proceed (limits : Limits) (m : Nest) : Nest :=
  match l.rest with
  | statement :: rest => { l with rest }.goOn (.begin statement) m
  | [] =>
    if l.deciding then
      if l.wantsTurn then l.enter limits m.shell m else l.close l.result m
    else { l with result := l.status }.goOn .update m

/-- A turn is over. What the loop does after every turn is done now. -/
def update (r : Runner) (m : Nest) : Nest :=
  match l.head with
  | .arithmetic _ (some word) => l.ask r word (fun _ m => l.goOn .decide m) m
  | _ => l.goOn .decide m

/-- **A statement of the loop has ended.** A signal that means some loops stops at this one when it
means one loop, or when there is no loop around this one; `around` loops are open outside the nest.
Otherwise it goes on to the loops around, with one loop less. -/
def receive (limits : Limits) (around : Nat) (result : Except Interrupt Outcome) (m : Nest) :
    Nest :=
  match result with
  | .ok o => { l with written := l.written ++ o.output, status := o.status }.goOn .proceed m
  | .error (.signal (.break levels) own) =>
    if 1 < levels ∧ 0 < m.loops.length + around then l.leave (.break (levels - 1)) own m
    else
      { l with written := l.written ++ own }.close (if l.deciding then l.result else 0) m
  | .error (.signal (.continue levels) own) =>
    if 1 < levels ∧ 0 < m.loops.length + around then l.leave (.continue (levels - 1)) own m
    else { l with written := l.written ++ own }.skip limits m
  | .error (.signal s own) => l.leave s own m
  | .error (.fault f) => l.fail f m

end OpenLoop

/-! ## Opening loops -/

/-- What a loop goes by at its start. Nothing when its variable has no name that can be. -/
def LoopForm.head? (r : Runner) : LoopForm → Run (Option LoopHead)
  | .values name words _ => do
    if !isValidName name then return none
    else
      let values ← match words with
        | none => do pure (← get).parameters
        | some words => Word.allFields r.expander words
      return some (.values name values)
  | .arithmetic init condition update _ => do
    Loop.workOut (init.map (Word.value r.expander))
    return some (.arithmetic condition update)
  | .statements kind condition _ => return some (.statements kind condition)

/-- A loop at its start. -/
def LoopForm.opened (form : LoopForm) (head : LoopHead) (negated : Bool) (limits : Limits)
    (outside : Shell) (outsideTurns : Nat) : OpenLoop where
  head := head
  body := form.body
  negated := negated
  outside := outside
  outsideTurns := outsideTurns
  left := Loop.turns limits
  result := 0
  written := .empty
  deciding := false
  rest := []
  status := 0

/-- **Open the loop that a statement is**, if it is one and comes as far as its first turn. -/
def Statement.open? (r : Runner) (statement : Statement) (shell : Shell) :
    Option (OpenLoop × Shell) :=
  match statement.loop? with
  | none => none
  | some (form, negated) =>
    match Run.accept r.limits shell with
    | (.error _, _) => none
    | (.ok (), counted) =>
      match form.head? r { counted with expansionErrors := "" } with
      | (.ok (some head), ready) =>
        some (form.opened head negated r.limits counted ready.usage.turns,
          { ready with loopDepth := ready.loopDepth + 1, usage := ready.usage.enterLoop })
      | _ => none

/-! ## The next moment -/

namespace Nest

/-- A statement begins: a loop is opened, everything else runs as a whole. -/
def begin (r : Runner) (statement : Statement) (m : Nest) : Nest :=
  match statement.open? r m.shell with
  | some (l, shell) => { m with loops := l :: m.loops, act := .decide, shell }
  | none =>
    let (result, shell) := statement.run r m.shell
    { m with act := .ended result, shell, log := m.log ++ [outputOf result] }

/-- **The next moment**, when `around` loops are open outside the nest. When a statement has ended
and no loop is open, the run is over. -/
def next (r : Runner) (around : Nat) (m : Nest) : Nest :=
  match m.act, m.loops with
  | .begin statement, _ => m.begin r statement
  | _, [] => m
  | .ended result, l :: loops => l.receive r.limits around result { m with loops }
  | .proceed, l :: loops => l.proceed r.limits { m with loops }
  | .update, l :: loops => l.update r { m with loops }
  | .decide, l :: loops => l.decide r { m with loops }

/-- No loop is open, and no statement is still to run. -/
def isOver (m : Nest) : Bool :=
  match m.loops, m.act with
  | [], .ended _ => true
  | _, _ => false

/-- One moment comes after another one. -/
def Reaches (r : Runner) (around : Nat) : Nest → Nest → Prop :=
  Relation.ReflTransGen fun m n => m.next r around = n

variable {r : Runner} {around : Nat} {m n o : Nest}

theorem Reaches.step (h : (m.next r around).Reaches r around n) : m.Reaches r around n :=
  .head rfl h

theorem reaches_iterate (m : Nest) (steps : Nat) :
    m.Reaches r around ((next r around)^[steps] m) := by
  induction steps generalizing m with
  | zero => exact .refl
  | succ steps ih => exact (ih (m.next r around)).step

theorem next_of_isOver (h : m.isOver = true) : m.next r around = m := by
  unfold isOver at h
  split at h
  · rename_i hloops hact
    simp only [next, hact, hloops]
  · cases h

theorem Reaches.eq_of_isOver (hreach : m.Reaches r around n) (h : m.isOver = true) : n = m := by
  induction hreach with
  | refl => rfl
  | tail _ hnext ih => rw [← hnext, ih, next_of_isOver h]

/-- **A run is over in one way at most.** -/
theorem Reaches.unique (hn : m.Reaches r around n) (ho : m.Reaches r around o)
    (hnover : n.isOver = true) (hoover : o.isOver = true) : n = o := by
  have hright : Relator.RightUnique fun m n : Nest => m.next r around = n :=
    fun _ _ _ hb hc => hb.symm.trans hc
  rcases Relation.ReflTransGen.total_of_right_unique hright hn ho with h | h
  · exact (Reaches.eq_of_isOver h hnover).symm
  · exact Reaches.eq_of_isOver h hoover

end Nest

/-! ## Moments that look alike

What comes next does not depend on what was written and noted before. So a moment leads to another
one when this is all that may differ. -/

/-- Two moments are alike apart from what was written and noted before. -/
structure Nest.Like (m n : Nest) : Prop where
  loops : m.loops = n.loops
  act : m.act = n.act
  shell : m.shell = n.shell

theorem Nest.Like.refl (m : Nest) : m.Like m := ⟨rfl, rfl, rfl⟩

theorem Nest.Like.trans {m n o : Nest} (hmn : m.Like n) (hno : n.Like o) : m.Like o :=
  ⟨hmn.loops.trans hno.loops, hmn.act.trans hno.act, hmn.shell.trans hno.shell⟩

namespace OpenLoop

variable {l : OpenLoop} {r : Runner} {limits : Limits} {m n : Nest} (hloops : m.loops = n.loops)
  (hshell : m.shell = n.shell)
include hloops hshell

theorem like_close (status : Int) : (l.close status m).Like (l.close status n) :=
  ⟨hloops, by simp only [close, hshell], by simp only [close, hshell]⟩

theorem like_leave (s : Signal) (own : Output) : (l.leave s own m).Like (l.leave s own n) :=
  ⟨hloops, by simp only [leave, hshell], by simp only [leave, hshell]⟩

theorem like_fail (f : Fault) : (l.fail f m).Like (l.fail f n) :=
  ⟨hloops, rfl, by simp only [fail, hshell]⟩

theorem like_goOn (act : Act) : (l.goOn act m).Like (l.goOn act n) :=
  ⟨congrArg (l :: ·) hloops, rfl, hshell⟩

theorem like_enter (ready : Shell) : (l.enter limits ready m).Like (l.enter limits ready n) := by
  unfold enter
  cases l.left with
  | zero => exact like_leave hloops hshell _ _
  | succ left =>
    refine like_goOn ?_ ?_ _
    · exact hloops
    · rfl

theorem like_skip : (l.skip limits m).Like (l.skip limits n) := by
  unfold skip
  split
  · cases l.left with
    | zero => exact like_leave hloops hshell _ _
    | succ left => exact like_goOn hloops hshell _
  · exact like_goOn hloops hshell _

theorem like_ask (word : Word) {answer : Int → Nest → Nest}
    (hanswer : ∀ value (m n : Nest), m.loops = n.loops → m.shell = n.shell →
      (answer value m).Like (answer value n)) :
    (l.ask r word answer m).Like (l.ask r word answer n) := by
  unfold ask
  rw [hshell]
  rcases word.value r.expander n.shell with ⟨(⟨s, own⟩ | f) | value, shell⟩
  · refine like_leave ?_ ?_ s own
    · exact hloops
    · rfl
  · refine like_fail ?_ ?_ f
    · exact hloops
    · rfl
  · exact hanswer value _ _ hloops rfl

theorem like_decide : (l.decide r m).Like (l.decide r n) := by
  unfold decide
  split
  · exact like_close hloops hshell _
  · rw [hshell]
    exact like_enter hloops hshell _
  · rw [hshell]
    exact like_enter hloops hshell _
  · refine like_ask hloops hshell _ fun value m n hloops hshell => ?_
    split
    · exact like_close hloops hshell _
    · rw [hshell]
      exact like_enter hloops hshell _
  · exact like_goOn hloops hshell _

theorem like_proceed : (l.proceed limits m).Like (l.proceed limits n) := by
  unfold proceed
  split
  · exact like_goOn hloops hshell _
  · rw [hshell]
    split
    · split
      · exact like_enter hloops hshell _
      · exact like_close hloops hshell _
    · exact like_goOn hloops hshell _

theorem like_update : (l.update r m).Like (l.update r n) := by
  unfold update
  split
  · exact like_ask hloops hshell _ fun _ _ _ hloops hshell => like_goOn hloops hshell _
  · exact like_goOn hloops hshell _

theorem like_receive (around : Nat) (result : Except Interrupt Outcome) :
    (l.receive limits around result m).Like (l.receive limits around result n) := by
  unfold receive
  rw [hloops]
  split
  · exact like_goOn hloops hshell _
  · split
    · exact like_leave hloops hshell _ _
    · exact like_close hloops hshell _
  · split
    · exact like_leave hloops hshell _ _
    · exact like_skip hloops hshell
  · exact like_leave hloops hshell _ _
  · exact like_fail hloops hshell _

end OpenLoop

namespace Nest

variable {r : Runner} {around : Nat} {m n o : Nest}

/-- **What comes next does not depend on what was written** and noted before. -/
theorem Like.next (h : m.Like n) (r : Runner) (around : Nat) :
    (m.next r around).Like (n.next r around) := by
  unfold Nest.next
  rw [h.act, h.loops]
  split
  · unfold Nest.begin
    rw [h.shell]
    split
    · exact ⟨congrArg (_ :: ·) h.loops, rfl, rfl⟩
    · exact ⟨h.loops, rfl, rfl⟩
  · exact h
  · refine OpenLoop.like_receive ?_ ?_ around _
    · rfl
    · exact h.shell
  · refine OpenLoop.like_proceed ?_ ?_
    · rfl
    · exact h.shell
  · refine OpenLoop.like_update ?_ ?_
    · rfl
    · exact h.shell
  · refine OpenLoop.like_decide ?_ ?_
    · rfl
    · exact h.shell

/-- **One moment leads to another one**, whatever was written and noted before. -/
def Leads (r : Runner) (around : Nat) (m n : Nest) : Prop :=
  ∀ m' : Nest, m'.Like m → ∃ n' : Nest, n'.Like n ∧ m'.Reaches r around n'

theorem leads_of_like (h : m.Like n) : m.Leads r around n :=
  fun m' hm => ⟨m', hm.trans h, Relation.ReflTransGen.refl⟩

theorem leads_refl (m : Nest) : m.Leads r around m := leads_of_like (.refl m)

theorem Leads.trans (hmn : m.Leads r around n) (hno : n.Leads r around o) : m.Leads r around o := by
  intro m' hm
  obtain ⟨n', hn, hreach⟩ := hmn m' hm
  obtain ⟨o', ho, hreach'⟩ := hno n' hn
  exact ⟨o', ho, hreach.trans hreach'⟩

/-- A moment leads to the one after it. -/
theorem leads_next (h : (m.next r around).Like n) : m.Leads r around n := by
  intro m' hm
  have hnext := hm.next r around
  exact ⟨m'.next r around, hnext.trans h, Relation.ReflTransGen.single rfl⟩

theorem leads_of_next (h : m.next r around = n) : m.Leads r around n := leads_next (h ▸ .refl _)

end Nest

end VirtualShell
