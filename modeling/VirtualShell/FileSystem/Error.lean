import VirtualShell.Text.Printable

/-!
# What can go wrong with files

An operation on files fails for one of seven reasons, about a path. The path is the one the caller
gave, or the one being resolved when links lead nowhere.
-/

namespace VirtualShell

/-- Why an operation on files fails. -/
inductive FileErrorKind where
  | notFound
  | alreadyExists
  | notDirectory
  | isDirectory
  | invalid
  | notEmpty
  | tooManyLinks
  deriving DecidableEq, Repr

/-- A failed operation on files. -/
structure FileError where
  kind : FileErrorKind
  path : String
  deriving DecidableEq, Repr

/-- The wording of a reason. -/
def FileErrorKind.message : FileErrorKind → String
  | .notFound => "No such file or directory"
  | .alreadyExists => "File exists"
  | .notDirectory => "Not a directory"
  | .isDirectory => "Is a directory"
  | .invalid => "Invalid argument"
  | .notEmpty => "Directory not empty"
  | .tooManyLinks => "Too many levels of symbolic links"

/-- The number of a reason. -/
def FileErrorKind.number : FileErrorKind → Nat
  | .notFound => 2
  | .alreadyExists => 17
  | .notDirectory => 20
  | .isDirectory => 21
  | .invalid => 22
  | .notEmpty => 39
  | .tooManyLinks => 40

/-- The wording of a failure. -/
def FileError.message (e : FileError) : String :=
  "[Errno " ++ toString e.kind.number ++ "] " ++ e.kind.message ++ ": " ++ Text.quoted e.path

end VirtualShell
