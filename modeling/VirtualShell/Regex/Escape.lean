import VirtualShell.Regex.Scan

/-!
# Escapes and sets

After a backslash a letter stands for a control character, a category of characters or a place; an
`x`, `u` or `U` is followed by the hexadecimal code of a character and a digit by an octal one. In
front of anything but a letter or a digit the backslash makes it stand for itself. So a text becomes
a pattern that matches it alone when a backslash is put in front of each of its characters that means
something.
-/

namespace VirtualShell.Regex

/-! ## Texts as patterns -/

/-- The characters that mean something in a pattern. -/
def specials : List Char := "()[]\x7b\x7d?*+-|^$\\.&~# \t\n\r\x0b\x0c".toList

/-- A character as a pattern that matches it alone. -/
def quoteChar (c : Char) : List Char := if c ∈ specials then ['\\', c] else [c]

/-- A text as a pattern that matches it alone. -/
def quote (text : String) : String := String.ofList (text.toList.flatMap quoteChar)

/-! ## Escapes -/

/-- The category that a letter stands for after a backslash, and whether all others are meant. -/
def category? : Char → Option (Category × Bool)
  | 'd' => some (.digit, false)
  | 'D' => some (.digit, true)
  | 's' => some (.space, false)
  | 'S' => some (.space, true)
  | 'w' => some (.word, false)
  | 'W' => some (.word, true)
  | _ => none

/-- The control character that a letter stands for after a backslash. -/
def control? : Char → Option Nat
  | 'a' => some 7
  | 'f' => some 12
  | 'n' => some 10
  | 'r' => some 13
  | 't' => some 9
  | 'v' => some 11
  | _ => none

/-- The place that a letter stands for after a backslash. -/
def anchor? : Char → Option Anchor
  | 'A' => some .textStart
  | 'b' => some .wordBoundary
  | 'B' => some .noWordBoundary
  | 'Z' => some .textEnd
  | _ => none

/-- An ASCII letter. -/
def isAsciiLetter (c : Char) : Bool := ('a' ≤ c && c ≤ 'z') || ('A' ≤ c && c ≤ 'Z')

/-- An octal digit. -/
def isOctal (c : Char) : Bool := '0' ≤ c && c ≤ '7'

/-- A decimal digit. -/
def isDecimal (c : Char) : Bool := '0' ≤ c && c ≤ '9'

/-- A hexadecimal digit. -/
def isHex (c : Char) : Bool := isDecimal c || ('a' ≤ c && c ≤ 'f') || ('A' ≤ c && c ≤ 'F')

/-- The number that some digits write. -/
def numberIn (base : Nat) (digits : List Char) : Nat :=
  digits.foldl (fun n c => n * base + (Text.digitValue? c).getD 0) 0

/-- An escape as it was written. -/
def escapeText (c : Char) (digits : List Char) : String := String.ofList ('\\' :: c :: digits)

namespace Pattern

/-- An escape followed by the hexadecimal code of a character. -/
def hexEscape (p : Pattern) (c : Char) (digits : Nat) : Scan Nat := do
  let taken ← p.takeUpTo isHex digits
  let code := numberIn 16 taken
  if taken.length ≠ digits then
    p.failBack (.incompleteEscape (escapeText c taken)) (taken.length + 2)
  else if code > 0x10FFFF then p.failBack (.badEscape (escapeText c taken)) (taken.length + 2)
  else return code

/-- An escape that names a character. -/
def nameEscape (p : Pattern) : Scan Nat := do
  if ← p.accept '\x7b' then
    let name ← p.takeName '\x7d' "character name"
    match p.named? name with
    | some c => return c.toNat
    | none => p.failBack (.undefinedCharacter name) (name.length + 4)
  else p.failBack (.missing "\x7b") 0

/-- An escape that goes by the code or the name of a character. -/
def codeEscape? (p : Pattern) : Char → Option (Scan Nat)
  | 'x' => some (p.hexEscape 'x' 2)
  | 'u' => some (p.hexEscape 'u' 4)
  | 'U' => some (p.hexEscape 'U' 8)
  | 'N' => some p.nameEscape
  | _ => none

/-- An octal code; it must be below four hundred. -/
def octalCode (p : Pattern) (c : Char) (digits : List Char) : Scan Nat := do
  let code := numberIn 8 (c :: digits)
  if code > 0o377 then
    p.failBack (.octalOutOfRange (escapeText c digits)) (digits.length + 2)
  else return code

/-- A backslash in front of a character that is neither letter nor digit. -/
def literalEscape (p : Pattern) (c : Char) : Scan Nat :=
  if isAsciiLetter c || isDecimal c then p.failBack (.badEscape (escapeText c [])) 2
  else return c.toNat

/-- **An escape in a set.** -/
def setEscape (p : Pattern) (c : Char) : Scan SetItem := do
  if let some (category, negated) := category? c then return .category category negated
  if let some code := control? c then return .char code
  if c = 'b' then return .char 8
  if let some code := p.codeEscape? c then return .char (← code)
  if isOctal c then return .char (← p.octalCode c (← p.takeUpTo isOctal 2))
  return .char (← p.literalEscape c)

/-- Refuse a reference from inside a look behind to a group that is open or that it holds. -/
def checkLookbehind (p : Pattern) (group : Nat) : Scan Unit := do
  let s ← get
  match s.lookbehind with
  | none => return
  | some first =>
    if (s.width? group).isNone then p.failBack .openGroup 0
    if group ≥ first then p.failBack .lookbehindGroup 0

/-- A reference to a group by number, as it was written after a backslash. -/
def numberedReference (p : Pattern) (digits : List Char) : Scan Tree := do
  let group := numberIn 10 digits
  let s ← get
  if group < s.groupCount then
    if (s.width? group).isNone then p.failBack .openGroup (digits.length + 1)
    p.checkLookbehind group
    return .reference group
  else p.failBack (.invalidGroup group) digits.length

/-- An escape that starts with a digit other than zero: three octal digits are a code, and one or
two digits the number of a group. -/
def digitEscape (p : Pattern) (c : Char) : Scan Tree := do
  match ← p.takeUpTo isDecimal 1 with
  | d :: _ =>
    if isOctal c && isOctal d then
      match ← p.takeUpTo isOctal 1 with
      | e :: _ => return .char (← p.octalCode c [d, e]) false
      | [] => p.numberedReference [c, d]
    else p.numberedReference [c, d]
  | [] => p.numberedReference [c]

/-- **An escape outside sets.** -/
def itemEscape (p : Pattern) (c : Char) : Scan Tree := do
  if let some anchor := anchor? c then return .anchor anchor
  if let some (category, negated) := category? c then
    return .set [.category category negated] false
  if let some code := control? c then return .char code false
  if let some code := p.codeEscape? c then return .char (← code) false
  if c = '0' then return .char (numberIn 8 (← p.takeUpTo isOctal 2)) false
  if isDecimal c then p.digitEscape c
  else return .char (← p.literalEscape c) false

end Pattern

/-! ## Sets of characters

Between square brackets stand characters, categories and ranges of characters; a caret at the start
means all others. A closing bracket right at the start is a member. -/

/-- A member of a set as one of an item of its own. -/
def SetItem.plain? : SetItem → Option Nat
  | .char code => some code
  | _ => none

/-- The set as an item; a set of one character is that character. -/
def Tree.ofSet (items : List SetItem) (negated : Bool) : Tree :=
  match items.eraseDups with
  | [.char code] => .char code negated
  | items => .set items negated

namespace Pattern

/-- A member that a token starts. -/
def setMember (p : Pattern) (text : List Char) : Scan SetItem :=
  match text with
  | ['\\', c] => p.setEscape c
  | c :: _ => return .char c.toNat
  | [] => return .char 0

/-- What follows the first member of what may be a range. `here` is the place of the set; the answer
tells whether the set ends with it. -/
def setRange (p : Pattern) (here : Nat) (text : List Char) (member : SetItem) :
    Scan (List SetItem × Bool) := do
  match ← p.take with
  | none => p.failAt .unterminatedSet here
  | some text' =>
    if text' = [']'] then return ([.char '-'.toNat, member], true)
    let member' ← p.setMember text'
    let bad : Scan (List SetItem × Bool) :=
      p.failBack (.badRange (String.ofList text) (String.ofList text'))
        (text.length + 1 + text'.length)
    match member, member' with
    | .char first, .char last => if last < first then bad else return ([.range first last], false)
    | _, _ => bad

/-- One turn in a set that was opened at a place: a member, or the bracket that closes it. The members
are held backwards. -/
def setTurn (p : Pattern) (here : Nat) (state : List SetItem × Bool) (t : Token) :
    Option (Scan (List SetItem × Bool)) :=
  let (items, closed) := state
  if closed then none
  else if t.text = [']'] && !items.isEmpty then some (return (items, true))
  else some do
    let member ← p.setMember t.text
    if ← p.accept '-' then
      let (more, closed) ← p.setRange here t.text member
      return (more ++ items, closed)
    else return (member :: items, false)

/-- **The set** whose opening bracket, at the place `here`, was taken. -/
def set (p : Pattern) (here : Nat) : Scan (List SetItem × Bool) := do
  let negated ← p.accept '^'
  let (items, closed) ← p.loop ([], false) (p.setTurn here)
  if closed then return (items.reverse, negated)
  else p.failAt .unterminatedSet here

end Pattern

end VirtualShell.Regex
