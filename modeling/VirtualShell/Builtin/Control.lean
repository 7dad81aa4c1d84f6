import VirtualShell.Builtin.Basic
import VirtualShell.Text.Integer

/-!
# Leaving loops, functions and the script

`break` and `continue` leave as many loops as they are told to, `return` leaves the function and
`exit` the script. Each is a signal to the commands around it.
-/

namespace VirtualShell.Builtin.Control

/-- How many loops are meant. What is no such number ends the script. -/
def levels (name : String) : List String → Run Nat
  | [] => return 1
  | word :: _ =>
    match Text.readDecimal word with
    | .error _ =>
      Run.exit 128 ("bash: " ++ name ++ ": " ++ word ++ ": numeric argument required\n")
    | .ok count =>
      if count < 1 then
        Run.exit 1 ("bash: " ++ name ++ ": " ++ word ++ ": loop count out of range\n")
      else return count.toNat

/-- Leave loops by a signal; outside loops a message says that there are none. -/
def leaveLoops (name : String) (signal : Nat → Signal) : Builtin := fun arguments => do
  let count ← levels name arguments
  if (← get).loopDepth = 0 then
    return refuse name "only meaningful in a \x60for', \x60while', or \x60until' loop" 0
  else Run.signal (signal count) .empty

/-- **`break`** -/
def breakLoop : Builtin := leaveLoops "break" .break

/-- **`continue`** -/
def continueLoop : Builtin := leaveLoops "continue" .continue

/-- The status that an argument gives, as a number below 256; without one, that of the last
pipeline. The argument is refused when it is no number. -/
def statusOf : List String → Run (Except String Int)
  | [] => do return .ok (← get).status
  | word :: _ =>
    match Text.readDecimal word with
    | .ok status => return .ok (status.emod 256)
    | .error _ => return .error (word ++ ": numeric argument required")

/-- **`return`** -/
def returnCall : Builtin := fun arguments => do
  if (← get).callDepth = 0 then
    return refuse "return" "can only \x60return' from a function or sourced script" 1
  else
    match ← statusOf arguments with
    | .ok status => Run.signal (.return status) .empty
    | .error message => return refuse "return" message 2

/-- **`exit`** -/
def exitScript : Builtin := fun arguments => do
  match ← statusOf arguments with
  | .ok status => Run.signal (.exit status) .empty
  | .error message => Run.exit 2 ("bash: exit: " ++ message ++ "\n")

end VirtualShell.Builtin.Control
