import VirtualShell.Utility.Cat
import VirtualShell.Utility.Count
import VirtualShell.Utility.Directory
import VirtualShell.Utility.Echo
import VirtualShell.Utility.Env
import VirtualShell.Utility.Excerpt
import VirtualShell.Utility.File
import VirtualShell.Utility.Listing
import VirtualShell.Utility.Search
import VirtualShell.Utility.Sort

/-!
# The utilities by name
-/

namespace VirtualShell.Utility

/-- Does nothing, with a status. -/
def constant (status : Int) : Utility := fun _ => return .ofStatus status

/-- All utilities. -/
def all : List (String × Utility) :=
  [("echo", Echo.run), ("cat", Cat.run), ("grep", Search.run), ("ls", Listing.run),
    ("mkdir", Directory.make), ("pwd", Directory.print), ("touch", File.touch),
    ("rm", File.remove), ("head", Excerpt.head), ("tail", Excerpt.tail), ("wc", Count.run),
    ("sort", Sort.run), ("env", Env.run), ("printenv", Env.print), ("true", constant 0),
    ("false", constant 1)]

/-- **The utility of a name.** -/
def named? (name : String) : Option Utility := all.lookup name

/-- The utilities of some names; or the names, in order, that there are no utilities of. -/
def select (names : List String) : Except (List String) (List (String × Utility)) :=
  let unknown := names.filter fun name => (named? name).isNone
  if unknown.isEmpty then .ok (all.filter fun (name, _) => name ∈ names)
  else .error unknown.eraseDups.mergeSort

end VirtualShell.Utility
