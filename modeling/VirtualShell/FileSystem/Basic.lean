import VirtualShell.FileSystem.Error
import VirtualShell.FileSystem.Path
import VirtualShell.Table

/-!
# The table of files

Files, directories and symbolic links stand in one table under their paths; a directory lists the
paths one name longer than its own. Every entry carries the time at which it was made or last
written, which it takes from the clock of the file system.

Symbolic links are resolved when they are met on the way along a path: the names of the target take
the place of those up to the link, and the way begins again at the root. After `maxLinks` links
resolution gives up.
-/

namespace VirtualShell

/-- The most symbolic links met on the way along one path. -/
def maxLinks : Nat := 40

/-- What stands at a path. A link keeps its target as it was written. -/
inductive Node where
  | file (content : String)
  | directory
  | link (target : String)
  deriving DecidableEq, Repr

/-- What stands at a path, with its permission bits and the time of its last change. -/
structure Entry where
  node : Node
  mode : Int
  modified : Int
  deriving DecidableEq, Repr

/-- The permission bits of a new entry. -/
def Node.defaultMode : Node → Int
  | .file _ => 0o644
  | .directory => 0o755
  | .link _ => 0o777

/-- The size of an entry in bytes; only files have one. -/
def Entry.size (e : Entry) : Nat :=
  match e.node with
  | .file content => content.utf8ByteSize
  | _ => 0

/-- A clock that moves on by a fixed time whenever it is read. -/
structure Clock where
  now : Int
  tick : Int
  deriving DecidableEq, Repr

/-- The clock after a reading. -/
def Clock.next (c : Clock) : Clock := { c with now := c.now + c.tick }

/-- A tree of files and the clock that dates its entries. -/
structure FileSystem where
  entries : Table Path Entry
  clock : Clock
  deriving DecidableEq

/-- A change to the files, which may fail. -/
abbrev FileAction := ExceptT FileError (StateM FileSystem)

namespace FileSystem

/-- What stands at a path itself. -/
def entryAt? (fs : FileSystem) (p : Path) : Option Entry := fs.entries.get? p

/-- Put a new entry at a path, dated by the clock. -/
def place (fs : FileSystem) (p : Path) (node : Node) : FileSystem where
  entries := fs.entries.insert p ⟨node, node.defaultMode, fs.clock.now⟩
  clock := fs.clock.next

/-- The root directory alone. -/
def ofClock (clock : Clock) : FileSystem := place ⟨.empty, clock⟩ .root .directory

/-! ## Resolving links -/

/-- Where a way along some names ends: at the end, at a link that is to be resolved in its
directory, or at a file that has names after it. -/
inductive Way where
  | arrived (place : Path)
  | link (directory : Path) (target : String) (rest : List String)
  | blocked

/-- Walk from a place along some names up to the first link. A missing entry does not stop the
walk, and a link at the end only when `last` says that it is to be resolved. -/
def walk (fs : FileSystem) (last : Bool) (place : Path) : List String → Way
  | [] => .arrived place
  | name :: rest =>
    let next := place.child name
    match fs.entryAt? next with
    | some ⟨.link target, _, _⟩ =>
      if last || !rest.isEmpty then .link place target rest else walk fs last next rest
    | some ⟨.file _, _, _⟩ => if rest.isEmpty then .arrived next else .blocked
    | _ => walk fs last next rest

/-- Walk from the root along some names and resolve links, at most `links` of them. `path` is the
path that a failure names. -/
def followNames (fs : FileSystem) (last : Bool) (path : Path) (links : Nat)
    (names : List String) : Except FileError Path :=
  match fs.walk last .root names with
  | .arrived place => .ok place
  | .blocked => .error ⟨.notDirectory, path.render⟩
  | .link directory target rest =>
    match links with
    | 0 => .error ⟨.tooManyLinks, path.render⟩
    | links + 1 => followNames fs last path links ((directory.resolve target).parts ++ rest)

/-- **Following links.** The path that a path leads to, a link at its end included when `last` is
set; nothing need stand there. -/
def follow (fs : FileSystem) (path : Path) (last : Bool) : Except FileError Path :=
  followNames fs last path maxLinks path.parts

/-- The entry that a text leads to, and its path. -/
def lookup (fs : FileSystem) (text : String) (last : Bool) :
    Except FileError (Path × Entry) := do
  let place ← fs.follow (.ofString text) last
  match fs.entryAt? place with
  | some e => return (place, e)
  | none => throw ⟨.notFound, text⟩

/-! ## Questions -/

/-- Something stands at the end of a path. -/
def has (fs : FileSystem) (text : String) : Bool := (fs.lookup text true).toOption.isSome

/-- The entry at the end of a path, if there is one. -/
def find? (fs : FileSystem) (text : String) : Option Entry := (fs.lookup text true).toOption.map (·.2)

/-- A directory stands at the end of a path. -/
def isDirectory (fs : FileSystem) (text : String) : Bool :=
  match fs.find? text with
  | some ⟨.directory, _, _⟩ => true
  | _ => false

/-- The entry that a path leads to. -/
def stat (fs : FileSystem) (text : String) : Except FileError Entry := do
  let (_, e) ← fs.lookup text true
  return e

/-- The entry at a path, a link at its end not resolved. -/
def statLink (fs : FileSystem) (text : String) : Except FileError Entry := do
  let (_, e) ← fs.lookup text false
  return e

/-- The names in a directory, in order. -/
def list (fs : FileSystem) (text : String) : Except FileError (List String) := do
  let (place, e) ← fs.lookup text true
  match e.node with
  | .directory =>
    return (fs.entries.keys.filterMap fun p =>
      if p.parent = place then p.name? else none).mergeSort
  | _ => throw ⟨.notDirectory, text⟩

/-- The content of a file. -/
def read (fs : FileSystem) (text : String) : Except FileError String := do
  let (_, e) ← fs.lookup text true
  match e.node with
  | .file content => return content
  | .directory => throw ⟨.isDirectory, text⟩
  | .link _ => throw ⟨.invalid, text⟩

/-- The target of a link, as it was written. -/
def readLink (fs : FileSystem) (text : String) : Except FileError String := do
  let (_, e) ← fs.lookup text false
  match e.node with
  | .link target => return target
  | _ => throw ⟨.invalid, text⟩

/-- The path that a path leads to. -/
def realPath (fs : FileSystem) (text : String) : Except FileError Path := do
  let (place, _) ← fs.lookup text true
  return place

/-- Every path, as it is written, in order. -/
def paths (fs : FileSystem) : List String := (fs.entries.keys.map Path.render).mergeSort

end FileSystem

end VirtualShell
