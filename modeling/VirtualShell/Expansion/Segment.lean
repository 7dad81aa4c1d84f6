import VirtualShell.Glob.Text

/-!
# Segments of expanded words

A word is expanded into segments, which remember of each piece of text whether it was quoted and
whether it came from an expansion. Joined they are the text of the word, or a pattern in which the
quoted text stands for itself.

Or they are split into fields. Only the text of unquoted expansions is split, at the characters of
a list of separators. A run of blank separators ends a field, and at the start and at the end it
makes none; each other separator ends a field of its own, which may be empty. A quoted text makes a
field even if it is empty.
-/

namespace VirtualShell

/-- A piece of an expanded word. -/
structure Segment where
  text : String
  /-- Neither split nor read as a pattern. -/
  quoted : Bool
  /-- From an expansion, to be split. -/
  split : Bool
  /-- Where a field ends and the next one begins. -/
  boundary : Bool
  deriving DecidableEq, Repr

namespace Segment

/-- A text that was written outside quotes or inside. -/
def literal (quoted : Bool) (text : String) : Segment := ⟨text, quoted, false, false⟩

/-- A value that an expansion brought in, outside quotes or inside. -/
def value (quoted : Bool) (text : String) : Segment := ⟨text, quoted, !quoted, false⟩

/-- The border between two fields. -/
def border : Segment := ⟨" ", true, false, true⟩

/-- The same piece as a part of an expansion: it is split unless it is quoted. -/
def splitting (s : Segment) : Segment := if s.quoted then s else { s with split := true }

/-- The text of some segments. -/
def textOf (segments : List Segment) : String := String.join (segments.map (·.text))

/-- A segment in a pattern. -/
def pattern (s : Segment) : String := if s.quoted then Glob.escape s.text else s.text

/-- Some segments as a pattern. -/
def patternOf (segments : List Segment) : String := String.join (segments.map pattern)

end Segment

/-! ## Fields -/

/-- A field, as a text and as a pattern. -/
structure Field where
  text : String
  pattern : String
  deriving DecidableEq, Repr

namespace Field

/-- What is known while fields are split. The fields are held backwards, and so is the text of the
one that is being read. -/
structure Splitting where
  done : List Field
  text : List Char
  pattern : List Char
  /-- A field has begun. -/
  begun : Bool
  /-- A blank separator has just ended a field. -/
  afterBlank : Bool

namespace Splitting

/-- Nothing is read yet. -/
def start : Splitting := ⟨[], [], [], false, false⟩

/-- End a field here. -/
def finish (s : Splitting) (afterBlank : Bool) : Splitting where
  done := ⟨String.ofList s.text.reverse, String.ofList s.pattern.reverse⟩ :: s.done
  text := []
  pattern := []
  begun := false
  afterBlank := afterBlank

/-- Add a text, which stands in a pattern in some form, to the field. -/
def add (s : Splitting) (text pattern : List Char) : Splitting where
  done := s.done
  text := text.reverse ++ s.text
  pattern := pattern.reverse ++ s.pattern
  begun := true
  afterBlank := false

/-- Two texts are added as one. -/
theorem add_add (s : Splitting) (text pattern text' pattern' : List Char) :
    (s.add text pattern).add text' pattern' = s.add (text ++ text') (pattern ++ pattern') := by
  simp [add]

/-- A separator that is blank. -/
def isBlankSeparator (separators : List Char) (c : Char) : Bool :=
  (c == ' ' || c == '\t' || c == '\n') && c ∈ separators

/-- Read a character that is not quoted. -/
def char (separators : List Char) (split : Bool) (s : Splitting) (c : Char) : Splitting :=
  if split && isBlankSeparator separators c then
    if s.begun then s.finish true else s
  else if split && c ∈ separators then
    if s.begun || !s.afterBlank then s.finish false else { s with begun := false, afterBlank := false }
  else s.add [c] [c]

/-- Read a segment. -/
def segment (separators : List Char) (s : Splitting) (piece : Segment) : Splitting :=
  if piece.boundary then s.finish s.afterBlank
  else if piece.quoted then s.add piece.text.toList (Glob.escape piece.text).toList
  else piece.text.toList.foldl (char separators piece.split) s

/-- All fields, with the one that has begun. -/
def fields (s : Splitting) : List Field :=
  (if s.begun then s.finish false else s).done.reverse

end Splitting

/-- **The fields** of some segments, split at the characters of `separators`. -/
def ofSegments (separators : String) (segments : List Segment) : List Field :=
  (segments.foldl (Splitting.segment separators.toList) .start).fields

end Field

end VirtualShell
