import VirtualShell.FileSystem.Basic
import VirtualShell.Glob.Text

/-!
# Patterns of paths

A pattern is matched against the paths of a file system name by name, and stands for all paths that
it matches, in order. The names at its start that hold no wildcards only lead to the directory in
which the others are looked for. A name that starts with a dot is matched only by a pattern that
does so too.
-/

namespace VirtualShell.Glob

/-- One name of a path is matched by one name of a pattern. -/
def matchesName (pattern name : String) : Except Regex.Error Bool :=
  if name.startsWith "." && !(unescape pattern).startsWith "." then return false
  else isMatchOf pattern name

/-- Each name of a path is matched by the name of a pattern in its place. -/
def matchesEach : (patterns names : List String) → Except Regex.Error Bool
  | pattern :: patterns, name :: names => do
    if ← matchesName pattern name then matchesEach patterns names else return false
  | _, _ => return true

/-- The names of a path are matched by as many names of a pattern. -/
def matchesNames (patterns names : List String) : Except Regex.Error Bool :=
  if patterns.length = names.length then matchesEach patterns names else return false

/-- The names of a path below a directory. -/
def namesBelow? (base path : String) : Option (List String) :=
  let start := if base = "/" then "/" else base ++ "/"
  if path.startsWith start && path != base then
    some (Text.cutAt '/' (path.drop start.length).toString)
  else none

/-- The names, joined by slashes, of the paths below a directory that names of a pattern match. -/
def matchesBelow (base : String) (patterns : List String) :
    List String → Except Regex.Error (List (List String))
  | [] => return []
  | path :: paths => do
    match namesBelow? base path with
    | none => matchesBelow base patterns paths
    | some names =>
      if ← matchesNames patterns names then
        return names :: (← matchesBelow base patterns paths)
      else matchesBelow base patterns paths

/-- **The paths that a pattern matches**, in the form of the pattern and in order. -/
def paths (files : FileSystem) (cwd pattern : String) : Except Regex.Error (List String) := do
  let isAbsolute := pattern.startsWith "/"
  let names := (Text.cutAt '/' pattern).filter (· != "")
  let leading := (names.takeWhile fun name => !hasWildcard name).map unescape
  let patterns := names.dropWhile fun name => !hasWildcard name
  if patterns.isEmpty then return []
  let start := if isAbsolute then "/" else cwd
  let base := leading.foldl (fun base name => ((Path.ofString base).resolve name).render) start
  let found ← matchesBelow base patterns files.paths
  let written := found.map fun names =>
    (if isAbsolute then "/" else "") ++ "/".intercalate (leading ++ names)
  return written.mergeSort fun a b => decide (a ≤ b)

end VirtualShell.Glob
