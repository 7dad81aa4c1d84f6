import VirtualShell.Shell.Basic

/-!
# Loops

A loop takes turns until it is told to stop, and at most as many as a limit allows. What its turns
write is collected. A signal to leave some loops, or to go on with the next turn of one, ends this
loop or this turn; when it means more loops than this one and there are loops around, it goes on to
them with one loop less. Every other signal passes, and takes along what the loop has written.
-/

namespace VirtualShell.Loop

/-- How the statements of a turn end. -/
inductive Ending where
  /-- All of them ran. -/
  | complete (status : Int)
  /-- The loop is left. -/
  | left
  /-- The turn is left. -/
  | skipped
  deriving DecidableEq, Repr

/-- The status that a turn gives its loop. -/
def Ending.status : Ending → Int
  | .complete status => status
  | .left | .skipped => 0

/-- A signal that means some loops goes on to the loops around, or ends here. -/
def passOn (signal : Nat → Signal) (levels : Nat) (output : Output) (ending : Ending) :
    Run (Ending × Output) := do
  if levels > 1 && (← get).loopDepth > 1 then Run.signal (signal (levels - 1)) output
  else return (ending, output)

/-- **Run statements as a part of a loop.** They are given what was written so far, and the output
is all of it together. -/
def part (written : Output) (run : Output → Run Outcome) : Run (Ending × Output) :=
  tryCatch (do let o ← run written; return (.complete o.status, o.output)) fun
    | .signal (.break levels) output => passOn .break levels output .left
    | .signal (.continue levels) output => passOn .continue levels output .skipped
    | i => throw i

/-- Run a loop inside those around it. -/
def inside {α : Type} (run : Run α) : Run α :=
  Run.during
    (fun shell => { shell with
      loopDepth := shell.loopDepth + 1
      usage := shell.usage.enterLoop })
    (fun initial final => { final with
      loopDepth := final.loopDepth - 1
      usage := final.usage.leaveLoop initial.usage }) run

/-- A turn begins. -/
def beginTurn : Run Unit := modify fun shell => { shell with usage := shell.usage.beginTurn }

/-- A loop has taken all turns it may. -/
def exhausted (kind : String) (limits : Limits) (written : Output) : Run Outcome :=
  Run.signal (.excess (.loopTurns kind limits.loopTurns)) written

/-- How many turns a loop may take. -/
def turns (limits : Limits) : Nat := limits.loopTurns.toNat

/-! ## Loops over values -/

/-- A turn for each value of a variable, while there are turns left. -/
def overValues (limits : Limits) (name : String) (body : Output → Run Outcome) :
    Nat → Outcome → List String → Run Outcome
  | _, o, [] => return o
  | 0, o, _ :: _ => exhausted "for" limits o.output
  | left + 1, o, value :: values => do
    Run.setVariable name value
    beginTurn
    let (ending, written) ← part o.output body
    match ending with
    | .left => return ⟨written, 0⟩
    | ending => overValues limits name body left ⟨written, ending.status⟩ values

/-- **A loop over values.** -/
def forEach (limits : Limits) (name : String) (values : List String)
    (body : Output → Run Outcome) : Run Outcome :=
  inside (overValues limits name body (turns limits) .success values)

/-! ## Loops with a condition -/

/-- What the condition of a loop decides. -/
inductive Decision where
  /-- The loop ends. -/
  | stop
  /-- The turn is passed over, and counts. -/
  | skip
  /-- The turn is taken. -/
  | enter
  deriving DecidableEq, Repr

/-- A loop with a condition. -/
structure Conditional where
  /-- The word for it in messages. -/
  kind : String
  /-- Decides on the next turn, given what was written so far. -/
  decide : Output → Run (Decision × Output)
  body : Output → Run Outcome
  /-- What is done after a turn that was taken. -/
  step : Run Unit

/-- One turn, and whether the loop goes on after it. A turn that is passed over leaves the status as
it was. -/
def Conditional.turn (l : Conditional) (decision : Decision) (o : Outcome) : Run (Bool × Outcome) :=
  match decision with
  | .stop => return (false, o)
  | .skip => return (true, o)
  | .enter => do
    beginTurn
    let (ending, written) ← part o.output l.body
    if ending = .left then return (false, ⟨written, 0⟩)
    else
      Run.after written l.step
      return (true, ⟨written, ending.status⟩)

/-- Turns as long as the condition says so and there are turns left. -/
def Conditional.go (l : Conditional) (limits : Limits) : Nat → Outcome → Run Outcome
  | 0, o => do
    let (decision, written) ← l.decide o.output
    if decision = .stop then return { o with output := written }
    else exhausted l.kind limits written
  | left + 1, o => do
    let (decision, written) ← l.decide o.output
    let (goesOn, o) ← l.turn decision { o with output := written }
    if goesOn then l.go limits left o else return o

/-- **A loop with a condition.** -/
def Conditional.run (l : Conditional) (limits : Limits) : Run Outcome :=
  inside (l.go limits (turns limits) .success)

/-- Work out a value, if there is one to work out, for what this changes. -/
def workOut : Option (Run Int) → Run Unit
  | some value => do let _ ← value
  | none => return ()

/-- The decision of an arithmetic condition: the loop goes on unless the value is zero. Without a
condition it goes on. -/
def decideByValue (condition : Option (Run Int)) (written : Output) : Run (Decision × Output) := do
  match condition with
  | none => return (.enter, written)
  | some value =>
    if (← Run.after written value) = 0 then return (.stop, written) else return (.enter, written)

/-- The decision of statements: the loop goes on as long as they succeed, or as long as they fail.
They are a part of the loop themselves. -/
def decideByStatus (untilTrue : Bool) (condition : Output → Run Outcome) (written : Output) :
    Run (Decision × Output) := do
  let (ending, written) ← part written condition
  match ending with
  | .left => return (.stop, written)
  | .skipped => return (.skip, written)
  | .complete status =>
    if (status == 0) == untilTrue then return (.stop, written) else return (.enter, written)

end VirtualShell.Loop
