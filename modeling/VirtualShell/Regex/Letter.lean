import VirtualShell.Regex.Tree
import VirtualShell.Text.Case
import VirtualShell.Text.Character
import VirtualShell.Text.Letter

/-!
# When a character is matched

Characters are compared by code point, or as letters when case is ignored. Then a letter is put in
lower case before it is compared, and letters that share an upper-case form count as one. What has
no case is compared as it stands.

A set ignores case as a whole when one of its members has a case. Its members past the sixteen-bit
code points are not put in lower case: a single one has to be the lower-case form of the character,
and a range has to hold its lower-case or its upper-case form.
-/

namespace VirtualShell.Regex

/-- A code point belongs to a category. -/
def Category.holds (category : Category) (ascii : Bool) (code : Nat) : Bool :=
  let c := Char.ofNat code
  match category with
  | .digit => if ascii then 48 ≤ code && code ≤ 57 else Text.isDecimal c
  | .space => if ascii then (9 ≤ code && code ≤ 13) || code == 32 else Text.isBlank c
  | .word =>
    if ascii then (48 ≤ code && code ≤ 57) || Text.isCasedAsciiCode code || code == 95
    else Text.isAlphanumeric c || code == 95

/-- The lower-case form of a code point. -/
def lower (ascii : Bool) (code : Nat) : Nat :=
  if ascii then Text.lowerAsciiCode code else Text.lowerCode code

/-- A code point has a case. -/
def isCased (ascii : Bool) (code : Nat) : Bool :=
  if ascii then Text.isCasedAsciiCode code else Text.isCasedCode code

/-- The lower-case code points that count as one with a lower-case code point. -/
def sameLetters (ascii : Bool) (code : Nat) : List Nat :=
  if ascii then [code] else Text.caseClass code

/-- The code points that have a lower-case form. -/
def withLower (ascii : Bool) (code : Nat) : List Nat :=
  if ascii then
    (if Text.lowerAsciiCode code == code then [code] else []) ++
      if 97 ≤ code && code ≤ 122 then [code - 32] else []
  else Text.lowerPreimages code

/-- The last code point of sixteen bits. -/
def lastNarrow : Nat := 0xFFFF

/-- One character is matched by another one. -/
def matchesChar (flags : Flags) (pattern code : Nat) : Bool :=
  if flags.ignoreCase && isCased flags.ascii pattern then
    (sameLetters flags.ascii (lower flags.ascii pattern)).contains (lower flags.ascii code)
  else code == pattern

namespace SetItem

/-- A code point is a member as it stands. -/
def holds (item : SetItem) (ascii : Bool) (code : Nat) : Bool :=
  match item with
  | .char c => code == c
  | .range first last => first ≤ code && code ≤ last
  | .category kind negated => kind.holds ascii code != negated

/-- A member that makes its set ignore case. -/
def hasCase (item : SetItem) (ascii : Bool) : Bool :=
  match item with
  | .char c => isCased ascii c || lower ascii c > lastNarrow
  | .range first last =>
    last > lastNarrow ||
      if ascii then (first ≤ 90 && 65 ≤ last) || (first ≤ 122 && 97 ≤ last)
      else Text.casedRanges.any fun r => first ≤ r.2 && r.1 ≤ last
  | .category .. => false

/-- A lower-case code point is a member when case is ignored. -/
def holdsLower (item : SetItem) (ascii : Bool) (code : Nat) : Bool :=
  match item with
  | .char c =>
    let letter := lower ascii c
    if letter > lastNarrow then code == c else (sameLetters ascii letter).contains code
  | .range first last =>
    ((sameLetters ascii code).any fun letter =>
      (withLower ascii letter).any fun c => first ≤ c && c ≤ min last lastNarrow) ||
    (last > lastNarrow &&
      ((first ≤ code && code ≤ last) ||
        let upper := Text.shiftBy Text.upperRuns code
        first ≤ upper && upper ≤ last))
  | .category kind negated => kind.holds ascii code != negated

end SetItem

/-- A character is matched by a set. -/
def matchesSet (flags : Flags) (items : List SetItem) (code : Nat) : Bool :=
  if flags.ignoreCase && items.any (·.hasCase flags.ascii) then
    items.any (·.holdsLower flags.ascii (lower flags.ascii code))
  else items.any (·.holds flags.ascii code)

/-- Two texts are the same, with case ignored if the flags say so. -/
def sameText (flags : Flags) (a b : List Char) : Bool :=
  if flags.ignoreCase then
    a.map (fun c => lower flags.ascii c.toNat) == b.map (fun c => lower flags.ascii c.toNat)
  else a == b

end VirtualShell.Regex
