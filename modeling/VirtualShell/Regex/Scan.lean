import VirtualShell.Reader
import VirtualShell.Regex.Error
import VirtualShell.Regex.Tree

/-!
# Reading a pattern token by token

A pattern is read as single characters and as backslashes with the character after them. A
backslash that ends the pattern is refused as soon as it comes next.

While it is read, the flags that hold everywhere, the groups and their widths, and the groups that
conditions name are kept.
-/

namespace VirtualShell.Regex

/-- A character of a pattern, or a backslash with the character after it, and where it stands. -/
structure Token where
  text : List Char
  position : Nat
  deriving DecidableEq, Repr

/-- The tokens of a text that starts at a position. A backslash alone is the last one. -/
def tokensFrom (position : Nat) : List Char → List Token
  | '\\' :: c :: rest => ⟨['\\', c], position⟩ :: tokensFrom (position + 2) rest
  | c :: rest => ⟨[c], position⟩ :: tokensFrom (position + 1) rest
  | [] => []

/-- A whole pattern, for messages, and the names that characters go by in it. -/
structure Pattern where
  text : String
  length : Nat
  named? : String → Option Char

/-- The pattern that a text is. -/
def Pattern.ofText (named? : String → Option Char) (text : String) : Pattern :=
  ⟨text, text.length, named?⟩

/-- What is known of a pattern while it is read. -/
structure Progress where
  flags : Flags
  /-- Categories and case were asked to follow Unicode. -/
  unicode : Bool
  /-- White space and comments are skipped. -/
  verbose : Bool
  /-- Repetitions are refused. -/
  template : Bool
  /-- The widths of the groups that are closed, in order; the first group has the number one. -/
  widths : List (Option (Nat × Nat))
  names : List (String × Nat)
  /-- Inside a look behind, the number of the next group at its start. -/
  lookbehind : Option Nat
  /-- Groups that conditions name by number, with the first place of each. -/
  conditions : List (Nat × Nat)

/-- Reads tokens of a pattern. -/
abbrev Scan := StateT Progress (Reader Error Token)

namespace Progress

/-- How many groups there are, the whole pattern included. -/
def groupCount (s : Progress) : Nat := s.widths.length + 1

/-- The width of a group that is closed. -/
def width? (s : Progress) (group : Nat) : Option (Nat × Nat) :=
  match group with
  | 0 => none
  | n + 1 => (s.widths[n]?).join

/-- The widths of groups, for the widths of items that refer to them. -/
def widthOf (s : Progress) (group : Nat) : Nat × Nat := (s.width? group).getD (0, 0)

end Progress

namespace Pattern

variable {α σ : Type}

/-- Where reading stands. -/
def here (p : Pattern) : Scan Nat := do
  match ← (Reader.peek : Reader Error Token _) with
  | some t => return t.position
  | none => return p.length

/-- Refuse the pattern for what is found at a place. -/
def failAt (p : Pattern) (flaw : Flaw) (position : Nat) : Scan α :=
  (Reader.fail (.flaw flaw (some (p.text, position))) : Reader Error Token α)

/-- Refuse the pattern for what stands some characters back. -/
def failBack (p : Pattern) (flaw : Flaw) (back : Nat) : Scan α := do
  p.failAt flaw ((← p.here) - back)

/-- The text of the next token, which stays. -/
def next (_p : Pattern) : Scan (Option (List Char)) := do
  match ← (Reader.peek : Reader Error Token _) with
  | some t => return some t.text
  | none => return none

/-- Refuse a backslash that comes next and ends the pattern. -/
def checkNext (p : Pattern) : Scan Unit := do
  if (← p.next) == some ['\\'] then p.failAt .escapeAtEnd (p.length - 1)

/-- Take the next token. -/
def take (p : Pattern) : Scan (Option (List Char)) := do
  let text ← p.next
  (Reader.skip : Reader Error Token _)
  p.checkNext
  return text

/-- Take a character if it comes next. -/
def accept (p : Pattern) (c : Char) : Scan Bool := do
  if (← p.next) == some [c] then
    let _ ← p.take
    return true
  return false

/-- The loop over tokens: as long as `step` has something to do for the next one, it is taken. -/
def loop (p : Pattern) (s : σ) (step : σ → Token → Option (Scan σ)) : Scan σ := fun progress =>
  Reader.repeatFrom (s, progress) fun (s, progress) t =>
    (step s t).map fun turn => (do p.checkNext; turn : Scan σ) progress

/-- Take at most some characters that pass a test. -/
def takeUpTo (p : Pattern) (test : Char → Bool) : Nat → Scan (List Char)
  | 0 => return []
  | n + 1 => do
    match ← p.next with
    | some [c] =>
      if test c then
        let _ ← p.take
        return c :: (← p.takeUpTo test n)
      else return []
    | _ => return []

/-- Take all characters that pass a test. -/
def takeAll (p : Pattern) (test : Char → Bool) : Scan (List Char) := do
  let taken ← p.loop [] fun taken t =>
    match t.text with
    | [c] => if test c then some (return c :: taken) else none
    | _ => none
  return taken.reverse

/-- Take the name up to a terminator, and the terminator. -/
def takeName (p : Pattern) (terminator : Char) (what : String) : Scan String := do
  let (name, closed) ← p.loop (([] : List Char), false) fun (name, closed) t =>
    if closed then none
    else if t.text = [terminator] then
      some (if name.isEmpty then p.failBack (.missing what) 1 else return (name, true))
    else some (return (name ++ t.text, false))
  if closed then return String.ofList name
  else if name.isEmpty then p.failBack (.missing what) 0
  else p.failBack (.unterminatedName terminator) name.length

end Pattern

end VirtualShell.Regex
