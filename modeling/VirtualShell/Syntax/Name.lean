import VirtualShell.Text.Letter

/-!
# Names and assignments

A variable name is an ASCII letter or underscore followed by letters, digits and underscores. A
word that starts with a name and an equals sign assigns to that name; with a plus sign before the
equals sign it adds to the value.
-/

namespace VirtualShell

/-- The longest name at the front of a text, and what follows it. -/
def takeName (text : List Char) : Option (List Char × List Char) :=
  match text with
  | c :: rest =>
    if Text.isNameStart c then
      some (c :: rest.takeWhile Text.isNameChar, rest.dropWhile Text.isNameChar)
    else none
  | [] => none

/-- **Valid names.** The whole text is a name; one line feed after it is let pass. -/
def isValidName (text : String) : Bool :=
  match takeName text.toList with
  | some (_, []) => true
  | some (_, ['\n']) => true
  | _ => false

/-- The name, the kind and the value text of a word that assigns. -/
def readAssignment? (word : String) : Option (String × Bool × String) :=
  match takeName word.toList with
  | some (name, '=' :: value) => some (String.ofList name, false, String.ofList value)
  | some (name, '+' :: '=' :: value) => some (String.ofList name, true, String.ofList value)
  | _ => none

end VirtualShell
