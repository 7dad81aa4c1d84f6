import VirtualShell.Arith.Error
import VirtualShell.FileSystem.Error
import VirtualShell.Regex.Error
import VirtualShell.Syntax.Error

/-!
# What commands give

A command that comes to its end has an outcome: what it wrote and its status. Instead it may leave
the commands around it: by a signal, which takes along what was written so far, or by a fault, which
is reported where the pipeline ends that it broke.
-/

namespace VirtualShell

/-! ## Outcomes -/

/-- What was written to the two output streams. -/
structure Output where
  stdout : String
  stderr : String
  deriving DecidableEq, Repr

namespace Output

/-- Nothing was written. -/
def empty : Output := ⟨"", ""⟩

/-- An error message alone. -/
def ofError (message : String) : Output := ⟨"", message⟩

/-- One output after another one. -/
def append (a b : Output) : Output := ⟨a.stdout ++ b.stdout, a.stderr ++ b.stderr⟩

instance : Append Output := ⟨append⟩

end Output

/-- What a command wrote, and its status. -/
structure Outcome where
  output : Output
  status : Int
  deriving DecidableEq, Repr

namespace Outcome

/-- Nothing is written, and the status is given. -/
def ofStatus (status : Int) : Outcome := ⟨.empty, status⟩

/-- Nothing is written, and all is well. -/
def success : Outcome := ofStatus 0

/-- An error message and a status. -/
def failure (message : String) (status : Int) : Outcome := ⟨.ofError message, status⟩

/-- A text on the first stream, and all is well. -/
def ofText (text : String) : Outcome := ⟨⟨text, ""⟩, 0⟩

/-- The outcome after some earlier output. -/
def after (earlier : Output) (o : Outcome) : Outcome := { o with output := earlier ++ o.output }

end Outcome

/-! ## Limits -/

/-- How much a script may do. -/
structure Limits where
  /-- Turns of one loop. -/
  loopTurns : Int
  /-- Statements of one run. -/
  statements : Int
  /-- Function calls inside one another. -/
  callDepth : Int
  /-- Command substitutions inside one another. -/
  substitutionDepth : Int
  deriving DecidableEq, Repr

/-- The limits that hold unless others are given. -/
def Limits.standard : Limits := ⟨10000, 10000, 50, 20⟩

/-- A limit that was passed. -/
inductive Excess where
  | loopTurns (loop : String) (most : Int)
  | statements (most : Int)
  | callDepth (function : String) (most : Int)
  | substitutionDepth (most : Int)
  deriving DecidableEq, Repr

/-- The wording of a passed limit. -/
def Excess.message : Excess → String
  | .loopTurns loop most => loop ++ " loop: too many iterations (" ++ toString most ++ ")"
  | .statements most =>
    "too many commands executed (>" ++ toString most ++ "), increase limits.max_command_count"
  | .callDepth function most =>
    function ++ ": maximum function nesting level exceeded (" ++ toString most ++ ")"
  | .substitutionDepth most =>
    "command substitution nesting too deep (" ++ toString most ++ ")"

/-- The status of a run that passed a limit. -/
def Excess.status : Int := 126

/-! ## Leaving commands -/

/-- Why the commands around a command are left, and how far. -/
inductive Signal where
  /-- A number of loops end. -/
  | break (levels : Nat)
  /-- A loop goes on with its next turn, after those inside it have ended. -/
  | continue (levels : Nat)
  /-- The function ends. -/
  | return (status : Int)
  /-- The script ends. -/
  | exit (status : Int)
  /-- The run ends. -/
  | excess (excess : Excess)
  deriving DecidableEq, Repr

/-- What breaks a command without being meant to. -/
inductive Fault where
  | pattern (error : Regex.Error)
  | files (error : FileError)
  | arithmetic (error : Arith.Error)
  | script (error : SyntaxError)
  | numeral (error : Text.IntegerError)
  /-- The last positional parameter is asked for, and there is none. -/
  | noParameter
  /-- A command substitution stands where none can be run. -/
  | unexpectedScript

/-- The wording of a fault. -/
def Fault.message : Fault → String
  | .pattern e => e.message
  | .files e => e.message
  | .arithmetic e => e.message
  | .script e => e.message
  | .numeral e => e.message
  | .noParameter => "list index out of range"
  | .unexpectedScript => "command substitution requires async expansion"

/-- How a command is left before it comes to its end. A signal carries what was written so far. -/
inductive Interrupt where
  | signal (signal : Signal) (output : Output)
  | fault (fault : Fault)

/-- The signal after some earlier output. A fault carries none. -/
def Interrupt.after (earlier : Output) : Interrupt → Interrupt
  | .signal s output => .signal s (earlier ++ output)
  | .fault f => .fault f

end VirtualShell
