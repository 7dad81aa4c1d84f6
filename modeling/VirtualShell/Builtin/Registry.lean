import VirtualShell.Builtin.Control
import VirtualShell.Builtin.Directory
import VirtualShell.Builtin.Variables
import VirtualShell.Condition.Eval

/-!
# The builtins by name

Besides the builtins that change the shell or leave it there are `test` and `[`, which answer a
condition, and three that only have a status.
-/

namespace VirtualShell.Builtin

/-- The answer of a condition, under the name of a builtin. -/
def answer (name : String) : Builtin := fun arguments => do
  let (status, error) ← Condition.status .command (arguments.map fun text => ⟨text, none⟩)
  match error with
  | some e => return refuse name e.message status
  | none => return .ofStatus status

/-- **`[`** The last argument is the bracket that closes it. -/
def bracket : Builtin := fun arguments => do
  if arguments.getLast? = some "]" then answer "[" arguments.dropLast
  else return refuse "[" "missing \x60]'" 2

/-- All builtins. -/
def all : List (String × Builtin) :=
  [("cd", Directory.change), ("export", Export.run), ("unset", Unset.run), ("local", Local.run),
    ("break", Control.breakLoop), ("continue", Control.continueLoop),
    ("return", Control.returnCall), ("exit", Control.exitScript), ("test", answer "test"),
    ("[", bracket), (":", constant 0), ("true", constant 0), ("false", constant 1)]

/-- **The builtin of a name.** -/
def named? (name : String) : Option Builtin := all.lookup name

end VirtualShell.Builtin
