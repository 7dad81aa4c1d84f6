import VirtualShell.Text.Split

/-!
# Paths

A path is the list of the names on the way from the root. It is written with a slash before each
name. A text is resolved against a path name by name: an empty name and a dot stay where they are,
two dots go up, and the root is above itself.
-/

namespace VirtualShell

/-- A place in the tree of files, as the names on the way from the root. -/
structure Path where
  parts : List String
  deriving DecidableEq, Repr

namespace Path

/-- The top of the tree. -/
def root : Path := ⟨[]⟩

/-- The path of a name in a directory. -/
def child (p : Path) (name : String) : Path := ⟨p.parts ++ [name]⟩

/-- The directory that holds a path; the root for the root. -/
def parent (p : Path) : Path := ⟨p.parts.dropLast⟩

/-- The name of a path in its directory; the root has none. -/
def name? (p : Path) : Option String := p.parts.getLast?

/-- One path lies below another one. -/
def isBelow (p above : Path) : Bool := above.parts.isPrefixOf p.parts && p != above

/-- How a path is written. -/
def render (p : Path) : String := "/" ++ "/".intercalate p.parts

/-- One name of a text on the way from a place. -/
def step (parts : List String) (name : String) : List String :=
  if name = "" || name = "." then parts
  else if name = ".." then parts.dropLast
  else parts ++ [name]

/-- **Resolution.** The place a text means when it is read at a path. -/
def resolve (base : Path) (text : String) : Path :=
  let start := if text.startsWith "/" then [] else base.parts
  ⟨(Text.cutAt '/' text).foldl step start⟩

/-- The place a text means at the root. -/
def ofString (text : String) : Path := root.resolve text

end Path

end VirtualShell
