import VirtualShell.FileSystem.Basic
import VirtualShell.Text.Utf8

/-!
# Changing files

Files are written and extended, directories made, entries removed, links made and permission bits
set. A failure leaves everything as it was: each operation looks before it changes anything.
-/

namespace VirtualShell.FileSystem

/-- Ask a question whose failure ends the change. -/
def ask {α : Type} (question : FileSystem → Except FileError α) : FileAction α := do
  match question (← get) with
  | .ok a => return a
  | .error e => throw e

/-- Put a new entry at a path. -/
def make (p : Path) (node : Node) : FileAction Unit := modify fun fs => fs.place p node

/-- Make the directories that are missing on the way to a path, whose names are given backwards, and
the directory itself. -/
def ensureNames : List String → FileAction Unit
  | [] => return
  | name :: above => do
    let p : Path := ⟨(name :: above).reverse⟩
    match (← get).entryAt? p with
    | some ⟨.directory, _, _⟩ => return
    | some _ => throw ⟨.alreadyExists, p.render⟩
    | none =>
      ensureNames above
      make p .directory

/-- Make a directory and those above it, as far as they are missing. -/
def ensureDirectory (p : Path) : FileAction Unit := ensureNames p.parts.reverse

/-- The path at which a new entry is made: the directory it goes to must be there. -/
def placeFor (fs : FileSystem) (text : String) : Except FileError Path := do
  let p := Path.ofString text
  let directory ← fs.follow p.parent true
  match fs.entryAt? directory with
  | none => throw ⟨.notFound, text⟩
  | some ⟨.directory, _, _⟩ =>
    match p.name? with
    | some name => return directory.child name
    | none => return .root
  | some _ => throw ⟨.notDirectory, text⟩

/-- **Write a file**, an old one in its place or a new one in a directory that is there. -/
def write (text content : String) : FileAction Unit := do
  let p ← ask (·.placeFor text)
  let p ← ask (·.follow p true)
  match (← get).entryAt? p with
  | some ⟨.directory, _, _⟩ => throw ⟨.isDirectory, text⟩
  | some ⟨.file _, mode, _⟩ =>
    modify fun fs => {
      entries := fs.entries.insert p ⟨.file content, mode, fs.clock.now⟩
      clock := fs.clock.next }
  | _ => make p (.file content)

/-- **Extend a file**; one that is missing counts as empty. -/
def append (text content : String) : FileAction Unit := do
  match (← get).read text with
  | .ok old => write text (old ++ content)
  | .error ⟨.notFound, _⟩ => write text content
  | .error e => throw e

/-- **Make a directory**, with those above it when `withParents` is set; then it may be there. -/
def makeDirectory (text : String) (withParents : Bool) : FileAction Unit := do
  let p := Path.ofString text
  if withParents then
    ensureDirectory (← ask (·.follow p true))
  else
    let p ← ask (·.placeFor p.render)
    if ((← get).entryAt? p).isSome then throw ⟨.alreadyExists, text⟩
    make p .directory

/-- An entry goes when a directory is removed with what is in it: what lies below it, and for the
root the root as well. -/
def goesWith (directory p : Path) : Bool := p.isBelow directory || directory == .root

/-- The files without some paths. -/
def drop (gone : Path → Bool) (fs : FileSystem) : FileSystem :=
  { fs with entries := fs.entries.keep fun p => !gone p }

/-- **Remove an entry**, a link and not what it leads to. A directory that is not empty needs
`recursive`; with `force` it is no failure when there is nothing to remove. -/
def remove (text : String) (recursive force : Bool) : FileAction Unit := do
  let p := Path.ofString text
  match (← get).follow p.parent true with
  | .error e => if force then return else throw e
  | .ok directory =>
    let p := match p.name? with
      | some name => directory.child name
      | none => .root
    match (← get).entryAt? p with
    | none => if force then return else throw ⟨.notFound, text⟩
    | some ⟨.directory, _, _⟩ =>
      let inside := (← get).entries.keys.any (goesWith p)
      if inside && !recursive then throw ⟨.notEmpty, text⟩
      modify (drop fun q => goesWith p q || q == p)
    | some _ => if p ≠ .root then modify (drop (· == p))

/-- **Make a symbolic link** at a path where nothing stands. -/
def makeLink (target text : String) : FileAction Unit := do
  let p ← ask (·.placeFor text)
  if ((← get).entryAt? p).isSome then throw ⟨.alreadyExists, text⟩
  make p (.link target)

/-- **Set the permission bits** of what a path leads to. -/
def setMode (text : String) (mode : Int) : FileAction Unit := do
  let (p, e) ← ask (·.lookup text true)
  modify fun fs => { fs with entries := fs.entries.insert p { e with mode } }

/-! ## A new file system -/

/-- Put a file into a new file system, with the directories above it. -/
def seedFile (text content : String) : FileAction Unit := do
  let p := Path.ofString text
  ensureDirectory p.parent
  make p (.file content)

/-- What is put into a file: a text, or bytes that are read as one. -/
inductive Content where
  | text (value : String)
  | bytes (values : List UInt8)
  deriving DecidableEq

/-- The text that is put into a file. -/
def Content.asText : Content → String
  | .text value => value
  | .bytes values => Text.decodeUtf8 (values.map UInt8.toNat)

/-- **A new file system** with some directories and files, the directories first. -/
def seeded (clock : Clock) (directories : List String) (files : List (String × Content)) :
    Except FileError FileSystem :=
  let seed : FileAction Unit := do
    directories.forM fun d => ensureDirectory (.ofString d)
    files.forM fun (name, content) => seedFile name content.asText
  match seed.run (.ofClock clock) with
  | (.ok (), fs) => .ok fs
  | (.error e, _) => .error e

end VirtualShell.FileSystem
