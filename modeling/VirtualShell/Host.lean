/-!
# The machine under a shell

A shell takes three things from the machine that it runs on: the number of its process, the time
zone, and the names that characters go by. They are never changed.
-/

namespace VirtualShell

/-- **What a shell takes from its machine.** -/
structure Host where
  /-- The number of the process. -/
  process : Nat
  /-- How many seconds local time is ahead of universal time, at a time. -/
  zone : Int → Int
  /-- The character that goes by a name. -/
  named? : String → Option Char

/-- A machine of one process that keeps universal time and knows no names. -/
def Host.bare : Host := ⟨1, fun _ => 0, fun _ => none⟩

end VirtualShell
