import VirtualShell.Text.Integer

/-!
# What can be wrong with a regular expression

Most flaws are found at a place of the pattern, and their message tells it: the position, and the
line and column as well when the pattern has more than one line. A few show only when the whole
pattern has been read.
-/

namespace VirtualShell.Regex

/-- Why a pattern is refused. -/
inductive Flaw where
  | escapeAtEnd
  | badEscape (escape : String)
  | incompleteEscape (escape : String)
  | octalOutOfRange (escape : String)
  | undefinedCharacter (name : String)
  | missing (what : String)
  | unterminatedName (terminator : Char)
  | badGroupName (name : String)
  | unknownGroupName (name : String)
  | badGroupNumber
  | redefinedGroup (name : String) (new old : Nat)
  | openGroup
  | lookbehindGroup
  | invalidGroup (number : Nat)
  | unterminatedSet
  | badRange (first last : String)
  | minOverMax
  | nothingToRepeat
  | multipleRepeat
  | unexpectedEnd
  | unknownExtension (extension : String)
  | unterminatedComment
  | unterminatedGroup
  | unbalancedParen
  | tooManyBranches
  | lateGlobalFlags
  | unknownFlag
  | localeFlag
  | typeFlags
  | typeFlagsOff
  | globalFlagOn
  | globalFlagOff
  | flagOnAndOff
  | variableLookbehind
  | longLookbehind
  | templateRepeat (kind : String)
  deriving DecidableEq, Repr

/-- A refused pattern. -/
inductive Error where
  /-- A flaw, with the pattern and the position where it is found at a place. -/
  | flaw (flaw : Flaw) (place : Option (String × Nat))
  | repetitionTooLarge
  | incompatibleFlags
  /-- The bound of a repetition has too many digits. -/
  | numeral (cause : Text.IntegerError)
  deriving DecidableEq, Repr

/-- The wording of a flaw. -/
def Flaw.message : Flaw → String
  | .escapeAtEnd => "bad escape (end of pattern)"
  | .badEscape escape => "bad escape " ++ escape
  | .incompleteEscape escape => "incomplete escape " ++ escape
  | .octalOutOfRange escape => "octal escape value " ++ escape ++ " outside of range 0-0o377"
  | .undefinedCharacter name => "undefined character name " ++ Text.quoted name
  | .missing what => "missing " ++ what
  | .unterminatedName terminator => "missing " ++ terminator.toString ++ ", unterminated name"
  | .badGroupName name => "bad character in group name " ++ Text.quoted name
  | .unknownGroupName name => "unknown group name " ++ Text.quoted name
  | .badGroupNumber => "bad group number"
  | .redefinedGroup name new old =>
    "redefinition of group name " ++ Text.quoted name ++ " as group " ++ toString new ++
      "; was group " ++ toString old
  | .openGroup => "cannot refer to an open group"
  | .lookbehindGroup => "cannot refer to group defined in the same lookbehind subpattern"
  | .invalidGroup number => "invalid group reference " ++ toString number
  | .unterminatedSet => "unterminated character set"
  | .badRange first last => "bad character range " ++ first ++ "-" ++ last
  | .minOverMax => "min repeat greater than max repeat"
  | .nothingToRepeat => "nothing to repeat"
  | .multipleRepeat => "multiple repeat"
  | .unexpectedEnd => "unexpected end of pattern"
  | .unknownExtension extension => "unknown extension ?" ++ extension
  | .unterminatedComment => "missing ), unterminated comment"
  | .unterminatedGroup => "missing ), unterminated subpattern"
  | .unbalancedParen => "unbalanced parenthesis"
  | .tooManyBranches => "conditional backref with more than two branches"
  | .lateGlobalFlags => "global flags not at the start of the expression"
  | .unknownFlag => "unknown flag"
  | .localeFlag => "bad inline flags: cannot use 'L' flag with a str pattern"
  | .typeFlags => "bad inline flags: flags 'a', 'u' and 'L' are incompatible"
  | .typeFlagsOff => "bad inline flags: cannot turn off flags 'a', 'u' and 'L'"
  | .globalFlagOn => "bad inline flags: cannot turn on global flag"
  | .globalFlagOff => "bad inline flags: cannot turn off global flag"
  | .flagOnAndOff => "bad inline flags: flag turned on and off"
  | .variableLookbehind => "look-behind requires fixed-width pattern"
  | .longLookbehind => "looks too much behind"
  | .templateRepeat kind => "internal: unsupported template operator " ++ kind

/-- The wording of a place: a position, with line and column when the pattern has several lines.
Lines and columns are counted from one. -/
def placeMessage (pattern : String) (position : Nat) : String :=
  let before := pattern.toList.take position
  let line := before.count '\n' + 1
  let column := (before.reverse.takeWhile (· ≠ '\n')).length + 1
  " at position " ++ toString position ++
    if pattern.contains '\n' then
      " (line " ++ toString line ++ ", column " ++ toString column ++ ")"
    else ""

/-- The wording of a refused pattern. -/
def Error.message : Error → String
  | .flaw f (some (pattern, position)) => f.message ++ placeMessage pattern position
  | .flaw f none => f.message
  | .repetitionTooLarge => "the repetition number is too large"
  | .incompatibleFlags => "ASCII and UNICODE flags are incompatible"
  | .numeral cause => cause.message

end VirtualShell.Regex
