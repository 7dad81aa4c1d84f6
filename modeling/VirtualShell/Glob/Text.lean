import VirtualShell.Glob.Parser

/-!
# Glob patterns on texts

A text is put into a pattern with a backslash before each character that means something there. A
pattern without a star, question mark or bracket that is not protected in this way stands for the
text without the backslashes.

A pattern is tested on a whole text, taken away from its start or its end, or replaced in it.
-/

namespace VirtualShell.Glob

/-- The characters that mean something in a pattern. -/
def specials : List Char := ['*', '?', '[', ']', '\\']

/-- A character as a pattern that matches it alone. -/
def escapeChar (c : Char) : List Char := if c ∈ specials then ['\\', c] else [c]

/-- **A text as a pattern** that matches it alone. -/
def escape (text : String) : String := String.ofList (text.toList.flatMap escapeChar)

/-- The characters of a pattern without the backslashes that protect them. -/
def unprotect : List Char → List Char
  | '\\' :: c :: rest => c :: unprotect rest
  | c :: rest => c :: unprotect rest
  | [] => []

/-- A pattern without the backslashes that protect its characters. -/
def unescape (pattern : String) : String := String.ofList (unprotect pattern.toList)

/-- Some character of a pattern is a star, a question mark or an opening bracket, and not
protected. -/
def anyWildcard : List Char → Bool
  | '\\' :: _ :: rest => anyWildcard rest
  | c :: rest => c == '*' || c == '?' || c == '[' || anyWildcard rest
  | [] => false

/-- A pattern does not stand for a single text. -/
def hasWildcard (pattern : String) : Bool := anyWildcard pattern.toList

/-- **A pattern matches a whole text.** -/
def isMatchOf (pattern value : String) : Except Regex.Error Bool := do
  return isMatch (← compile pattern) value.toList

/-- A text, or what is left of it if something could be taken away. -/
def orWhole (value : String) (left : Option (List Char)) : String :=
  match left with
  | some left => String.ofList left
  | none => value

/-- **Take away** the longest or the shortest match at the start of a text. -/
def removeStart (longest : Bool) (pattern value : String) : Except Regex.Error String := do
  return orWhole value (afterPrefix? longest (← compile pattern) value.toList)

/-- Take away the longest or the shortest match at the end of a text. -/
def removeEnd (longest : Bool) (pattern value : String) : Except Regex.Error String := do
  return orWhole value (beforeSuffix? longest (← compile pattern) value.toList)

/-- **Replace** the first match in a text, or all of them. After a number sign the pattern is
replaced only at the start of the text, and after a percent sign only at its end, and there it may
match nothing. -/
def replace (all : Bool) (pattern replacement value : String) : Except Regex.Error String :=
  let text := value.toList
  let inserted := replacement.toList
  match pattern.toList with
  | [] => return value
  | '#' :: pattern => do
    let left := afterPrefix? true (← compile (String.ofList pattern)) text
    return orWhole value (left.map (inserted ++ ·))
  | '%' :: pattern => do
    let left := beforeSuffix? true (← compile (String.ofList pattern)) text
    return orWhole value (left.map (· ++ inserted))
  | _ => do return String.ofList (replaceIn (← compile pattern) inserted all text)

end VirtualShell.Glob
