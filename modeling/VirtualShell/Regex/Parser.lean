import VirtualShell.Regex.Escape
import VirtualShell.Text.Letter

/-!
# Reading regular expressions

A pattern is a sequence of items, or several of them between bars. An item is a character, a set,
an anchor, an escape, a reference, or a group in parentheses, and may be repeated. Groups hold
patterns again: the reader of one level is written over the reader of the level inside it, and no
pattern is deeper than it is long.
-/

namespace VirtualShell.Regex

/-- The readers of what groups hold. The argument tells whether white space is skipped. -/
structure Inside where
  items : (verbose : Bool) → Scan (List Tree)
  alternatives : (verbose : Bool) → Scan (List Tree)

/-! ## Simplifying -/

/-- Items that match in one way only, and are the same. -/
def Tree.sameStep : Tree → Tree → Bool
  | .any, .any => true
  | .char a n, .char b m => a == b && n == m
  | .set a n, .set b m => a == b && n == m
  | .anchor a, .anchor b => a == b
  | .reference a, .reference b => a == b
  | _, _ => false

/-- Put what is in plain groups in their place. -/
def unpack (items : List Tree) : List Tree :=
  items.flatMap fun
    | .group none change body => if change = .none then body else [.group none change body]
    | t => [t]

/-- The first item of all branches if it is the same, and the branches without it. -/
def commonStep? (branches : List (List Tree)) : Option (Tree × List (List Tree)) :=
  match branches with
  | (t :: _) :: _ =>
    if branches.all fun b => b.head?.any (t.sameStep ·) then some (t, branches.map (·.drop 1))
    else none
  | _ => none

/-- The members of the set that one branch is. -/
def setBranch? : List Tree → Option (List SetItem)
  | [.char code false] => some [.char code]
  | [.set items false] => some items
  | _ => none

/-- Alternatives as items: the start they share, and then one set or a choice. `budget` bounds the
number of items shared. -/
def branchItems (branches : List (List Tree)) : (budget : Nat) → List Tree
  | 0 => [.choice branches]
  | budget + 1 =>
    match commonStep? branches with
    | some (t, branches) => t :: branchItems branches budget
    | none =>
      match branches.mapM setBranch? with
      | some members => [.set members.flatten.eraseDups false]
      | none => [.choice branches]

/-- Several branches as items. -/
def alternativeItems : List (List Tree) → List Tree
  | [branch] => branch
  | branches => branchItems branches (((branches.map List.length).foldl max 0) + 1)

/-! ## Flags -/

/-- The letters of flags. -/
def flagLetters : List Char := ['i', 'L', 'm', 's', 'x', 'a', 't', 'u']

/-- The change that flag letters make. -/
def FlagChange.ofLetters (on off : List Char) : FlagChange where
  ignoreCase := if 'i' ∈ off then some false else if 'i' ∈ on then some true else .none
  multiline := if 'm' ∈ off then some false else if 'm' ∈ on then some true else .none
  dotAll := if 's' ∈ off then some false else if 's' ∈ on then some true else .none
  ascii := if 'a' ∈ on then some true else if 'u' ∈ on then some false else .none

/-- Turn flags on for the whole pattern. -/
def Progress.turnOn (s : Progress) (on : List Char) : Progress :=
  let flags := (FlagChange.ofLetters on []).apply s.flags
  { s with
    flags := { flags with ascii := s.flags.ascii || 'a' ∈ on }
    unicode := s.unicode || 'u' ∈ on
    verbose := s.verbose || 'x' ∈ on
    template := s.template || 't' ∈ on }

/-- What stands in parentheses before the colon: flags of the whole pattern, or flags that a group
turns on and off. -/
inductive FlagGroup where
  | everywhere
  | inside (on off : List Char)

namespace Pattern

/-- One more flag to turn on. -/
def flagOn (p : Pattern) (on : List Char) (c : Char) : Scan (List Char) := do
  if c = 'L' then p.failBack .localeFlag 0
  if (c = 'a' && 'u' ∈ on) || (c = 'u' && 'a' ∈ on) then p.failBack .typeFlags 0
  return c :: on

/-- One more flag to turn off. -/
def flagOff (p : Pattern) (off : List Char) (c : Char) : Scan (List Char) := do
  if c = 'L' || c = 'a' || c = 'u' then p.failBack .typeFlagsOff 0
  return c :: off

/-- Refuse what stands where a flag or one of `ends` should. -/
def noFlag {α : Type} (p : Pattern) (text : List Char) (ends : String) : Scan α :=
  match text with
  | [c] => p.failBack (if Text.isLetter c then .unknownFlag else .missing ends) 1
  | _ => p.failBack (.missing ends) text.length

/-- Flags up to one of some characters, after those in `flags`; gives that character as well. -/
def flagsUntil (p : Pattern) (flags : List Char) (stops : List Char) (ends : String)
    (add : List Char → Char → Scan (List Char)) : Scan (List Char × Char) := do
  let (flags, stop) ← p.loop (flags, none) fun (flags, stop) t =>
    if stop.isSome then none
    else
      match t.text with
      | [c] =>
        if c ∈ stops then some (return (flags, some c))
        else if c ∈ flagLetters then some (do return (← add flags c, none))
        else some (p.noFlag t.text ends)
      | text => some (p.noFlag text ends)
  match stop with
  | some c => return (flags, c)
  | none => p.failBack (.missing ends) 0

/-- The flags to turn off, after the dash. -/
def flagsOff (p : Pattern) : Scan (List Char) := do
  match ← p.take with
  | none => p.failBack (.missing "flag") 0
  | some [c] =>
    if c ∈ flagLetters then
      let off ← p.flagOff [] c
      let (off, _) ← p.flagsUntil off [':'] ":" p.flagOff
      return off
    else p.noFlag [c] "flag"
  | some text => p.noFlag text "flag"

/-- **Flags** in parentheses, of which the first character was taken. -/
def flagGroup (p : Pattern) (first : Char) : Scan FlagGroup := do
  let (on, stop) ←
    if first = '-' then pure ([], '-')
    else do p.flagsUntil (← p.flagOn [] first) [')', '-', ':'] "-, : or )" p.flagOn
  if stop = ')' then
    modify (·.turnOn on)
    return .everywhere
  if 't' ∈ on then p.failBack .globalFlagOn 1
  let off ← if stop = '-' then p.flagsOff else pure []
  if 't' ∈ off then p.failBack .globalFlagOff 1
  if on.any (· ∈ off) then p.failBack .flagOnAndOff 1
  return .inside on off

/-! ## Repetitions -/

/-- The bounds of a repetition that are too large. -/
def repetitionLimit : Nat := 4294967295

/-- The bound that some digits write; none without digits. -/
def repetitionBound (digits : List Char) : Scan (Option Nat) :=
  if digits.isEmpty then return none
  else
    match Text.readDecimal (String.ofList digits) with
    | .error cause => (Reader.fail (.numeral cause) : Reader Error Token _)
    | .ok n =>
      if n.toNat ≥ repetitionLimit then (Reader.fail .repetitionTooLarge : Reader Error Token _)
      else return some n.toNat

/-- The digits of the two bounds of a repetition, after its opening brace; nothing, and nothing is
taken, when these are no bounds. -/
def boundDigits? (p : Pattern) : Scan (Option (List Char × List Char)) := fun progress =>
  let read : Scan (Option (List Char × List Char)) := do
    let least ← p.takeAll isDecimal
    let most ← if ← p.accept ',' then p.takeAll isDecimal else pure least
    if ← p.accept '\x7d' then return some (least, most) else return none
  do
    let bounds ← Reader.attempt do
      let (bounds, _) ← read progress
      return bounds
    return (bounds, progress)

/-- The bounds of a repetition between braces, or nothing when the brace stands for itself. -/
def bounds? (p : Pattern) : Scan (Option (Nat × Option Nat)) := do
  if (← p.next) == some ['\x7d'] then return none
  let here ← p.here
  match ← p.boundDigits? with
  | none => return none
  | some (least, most) =>
    let least := (← repetitionBound least).getD 0
    let most ← repetitionBound most
    if most.any (· < least) then p.failAt .minOverMax here
    return some (least, most)

/-- **Repeat the last item.** The items are held backwards; `place` is where the repetition stands. -/
def repetition (p : Pattern) (place : Nat) (least : Nat) (most : Option Nat) :
    List Tree → Scan (List Tree)
  | [] | .anchor _ :: _ => p.failAt .nothingToRepeat place
  | .repeat .. :: _ => p.failAt .multipleRepeat place
  | item :: items => do
    let body := unpack [item]
    let greed ← do
      if ← p.accept '?' then pure Greed.lazy
      else if ← p.accept '+' then pure Greed.possessive
      else pure Greed.greedy
    return .repeat greed least most body :: items

/-! ## Groups -/

/-- A name that a group may have. -/
def isGroupName (name : String) : Bool :=
  match name.toList with
  | c :: rest =>
    (Text.isLetter c || c == '_') &&
      rest.all fun c => Text.isLetter c || Text.isDecimal c || c == '_'
  | [] => false

/-- The name of a group up to a terminator. -/
def groupName (p : Pattern) (terminator : Char) : Scan String := do
  let name ← p.takeName terminator "group name"
  if isGroupName name then return name
  else p.failBack (.badGroupName name) (name.length + 1)

/-- Open a group that remembers what it matches; gives its number. -/
def openGroup (p : Pattern) (name : Option String) : Scan Nat := do
  let s ← get
  let number := s.groupCount
  let names ←
    match name with
    | none => pure s.names
    | some name =>
      match s.names.lookup name with
      | some old => p.failBack (.redefinedGroup name number old) (name.length + 1)
      | none => pure ((name, number) :: s.names)
  modify fun s => { s with widths := s.widths ++ [none], names }
  return number

/-- Close a group: from here on it has a width. -/
def closeGroup (number : Nat) (body : List Tree) : Scan Unit :=
  modify fun s =>
    { s with widths := s.widths.set (number - 1) (some (Tree.widthSum s.widthOf body)) }

/-- The closing parenthesis of a group that was opened at a place. -/
def closeParen (p : Pattern) (start : Nat) : Scan Unit := do
  if !(← p.accept ')') then p.failAt .unterminatedGroup start

/-- A group that remembers what it matches. -/
def capture (p : Pattern) (inside : Inside) (verbose : Bool) (start : Nat)
    (name : Option String) : Scan Tree := do
  let number ← p.openGroup name
  let body ← inside.alternatives verbose
  p.closeParen start
  closeGroup number body
  return .group (some number) .none body

/-- A group that only holds items together. -/
def plainGroup (p : Pattern) (inside : Inside) (verbose : Bool) (start : Nat)
    (on off : List Char) : Scan Tree := do
  let body ← inside.alternatives ((verbose || 'x' ∈ on) && !('x' ∈ off))
  p.closeParen start
  return .group none (.ofLetters on off) body

/-- A group into which matching does not return. -/
def atomicGroup (p : Pattern) (inside : Inside) (verbose : Bool) (start : Nat) : Scan Tree := do
  let body ← inside.alternatives verbose
  p.closeParen start
  return .atomic body

/-- A look ahead or behind. -/
def look (p : Pattern) (inside : Inside) (verbose : Bool) (start : Nat)
    (behind negated : Bool) : Scan Tree := do
  let outer := (← get).lookbehind
  if behind then modify fun s => { s with lookbehind := some (outer.getD s.groupCount) }
  let body ← inside.alternatives verbose
  if behind then modify fun s => { s with lookbehind := outer }
  p.closeParen start
  let s ← get
  return .look (if behind then some (Tree.widthSum s.widthOf body) else none) negated body

/-- A reference to a group by name. -/
def namedReference (p : Pattern) : Scan Tree := do
  let name ← p.groupName ')'
  let s ← get
  match s.names.lookup name with
  | none => p.failBack (.unknownGroupName name) (name.length + 1)
  | some group =>
    if (s.width? group).isNone then p.failBack .openGroup (name.length + 1)
    p.checkLookbehind group
    return .reference group

/-- The greatest number of a group. -/
def maxGroups : Nat := 1073741823

/-- The group that a condition names, by name or by number. -/
def conditionGroup (p : Pattern) : Scan Nat := do
  let name ← p.takeName ')' "group name"
  let back := name.length + 1
  let s ← get
  if isGroupName name then
    match s.names.lookup name with
    | none => p.failBack (.unknownGroupName name) back
    | some group => return group
  else
    match Text.readDecimal name with
    | .error _ => p.failBack (.badGroupName name) back
    | .ok n =>
      if n < 0 then p.failBack (.badGroupName name) back
      if n = 0 then p.failBack .badGroupNumber back
      if n.toNat ≥ maxGroups then p.failBack (.invalidGroup n.toNat) back
      if (s.conditions.lookup n.toNat).isNone then
        let place := (← p.here) - back
        modify fun s => { s with conditions := s.conditions ++ [(n.toNat, place)] }
      return n.toNat

/-- One of two sequences by what a group has matched. -/
def conditional (p : Pattern) (inside : Inside) (verbose : Bool) (start : Nat) : Scan Tree := do
  let group ← p.conditionGroup
  p.checkLookbehind group
  let yes ← inside.items verbose
  let no ←
    if ← p.accept '|' then
      let no ← inside.items verbose
      if (← p.next) == some ['|'] then p.failBack .tooManyBranches 0
      pure (some no)
    else pure none
  p.closeParen start
  return .conditional group yes no

/-- Skip a comment in parentheses that were opened at a place. -/
def skipComment (p : Pattern) (start : Nat) : Scan Unit := do
  let closed ← p.loop false fun closed t =>
    if closed then none else some (return t.text == [')'])
  if !closed then p.failAt .unterminatedComment start

/-- A group with a `P` after the question mark. -/
def extendedGroup (p : Pattern) (inside : Inside) (verbose : Bool) (start : Nat) : Scan Tree := do
  if ← p.accept '<' then
    let name ← p.groupName '>'
    p.capture inside verbose start (some name)
  else if ← p.accept '=' then p.namedReference
  else
    match ← p.take with
    | none => p.failBack .unexpectedEnd 0
    | some text => p.failBack (.unknownExtension (String.ofList ('P' :: text))) (text.length + 2)

/-- A look behind, of which the angle bracket was taken. -/
def lookBehind (p : Pattern) (inside : Inside) (verbose : Bool) (start : Nat) : Scan Tree := do
  match ← p.take with
  | none => p.failBack .unexpectedEnd 0
  | some ['='] => p.look inside verbose start true false
  | some ['!'] => p.look inside verbose start true true
  | some text => p.failBack (.unknownExtension (String.ofList ('<' :: text))) (text.length + 2)

/-- **A group** whose opening parenthesis was taken. It may be no item at all: a comment, or flags
of the whole pattern, which may stand only `first`. -/
def group (p : Pattern) (inside : Inside) (verbose first : Bool) (start : Nat) :
    Scan (Option Tree) := do
  if !(← p.accept '?') then return some (← p.capture inside verbose start none)
  match ← p.take with
  | none => p.failBack .unexpectedEnd 0
  | some ['P'] => return some (← p.extendedGroup inside verbose start)
  | some [':'] => return some (← p.plainGroup inside verbose start [] [])
  | some ['#'] =>
    p.skipComment start
    return none
  | some ['='] => return some (← p.look inside verbose start false false)
  | some ['!'] => return some (← p.look inside verbose start false true)
  | some ['<'] => return some (← p.lookBehind inside verbose start)
  | some ['('] => return some (← p.conditional inside verbose start)
  | some ['>'] => return some (← p.atomicGroup inside verbose start)
  | some [c] =>
    if c ∈ flagLetters || c = '-' then
      match ← p.flagGroup c with
      | .everywhere =>
        if !first then p.failAt .lateGlobalFlags start
        return none
      | .inside on off => return some (← p.plainGroup inside verbose start on off)
    else p.failBack (.unknownExtension (String.ofList [c])) 2
  | some text => p.failBack (.unknownExtension (String.ofList text)) (text.length + 1)

/-! ## Sequences -/

/-- White space that may be skipped. -/
def isSkipped (c : Char) : Bool :=
  c == ' ' || (9 ≤ c.toNat && c.toNat ≤ 13)

/-- Skip the rest of a line. -/
def skipLine (p : Pattern) : Scan Unit := do
  let _ ← p.loop false fun ended t => if ended then none else some (return t.text == ['\n'])

/-- What a character means after some items, which are held backwards. -/
def item (p : Pattern) (inside : Inside) (verbose first : Bool) (place : Nat) (items : List Tree)
    (c : Char) : Scan (List Tree × Bool) := do
  let done (items : List Tree) : Scan (List Tree × Bool) := return (items, verbose)
  match c with
  | '.' => done (.any :: items)
  | '^' => done (.anchor .lineStart :: items)
  | '$' => done (.anchor .lineEnd :: items)
  | '[' =>
    let (members, negated) ← p.set place
    done (.ofSet members negated :: items)
  | '?' => done (← p.repetition place 0 (some 1) items)
  | '*' => done (← p.repetition place 0 none items)
  | '+' => done (← p.repetition place 1 none items)
  | '\x7b' =>
    match ← p.bounds? with
    | some (least, most) => done (← p.repetition place least most items)
    | none => done (.char c.toNat false :: items)
  | '(' =>
    match ← p.group inside verbose (first && items.isEmpty) place with
    | some item => done (item :: items)
    | none =>
      let s ← get
      return (items, verbose || (first && items.isEmpty && s.verbose))
  | _ => done (.char c.toNat false :: items)

/-- One turn in a sequence: an item, or what may be skipped. The items are held backwards. -/
def itemTurn (p : Pattern) (inside : Inside) (first : Bool) (state : List Tree × Bool) (t : Token) :
    Option (Scan (List Tree × Bool)) :=
  let (items, verbose) := state
  match t.text with
  | [c] =>
    if c = '|' || c = ')' then none
    else if verbose && isSkipped c then some (return (items, verbose))
    else if verbose && c = '#' then some (do p.skipLine; return (items, verbose))
    else some (p.item inside verbose first t.position items c)
  | ['\\', c] => some (do return ((← p.itemEscape c) :: items, verbose))
  | _ => none

/-- **A sequence of items**, up to a bar, a closing parenthesis or the end. -/
def items (p : Pattern) (inside : Inside) (first verbose : Bool) : Scan (List Tree) := do
  let (items, _) ← p.loop ([], verbose) (p.itemTurn inside first)
  return unpack items.reverse

/-- **Sequences between bars.** Outside all groups, flags of the whole pattern hold from the next
sequence on. -/
def alternatives (p : Pattern) (inside : Inside) (outermost verbose : Bool) :
    Scan (List Tree) := do
  let start ← p.items inside outermost verbose
  let branches ← p.loop [start] fun branches t =>
    if t.text = ['|'] then
      some do
        let s ← get
        let branch ← p.items inside false (if outermost then s.verbose else verbose)
        return branch :: branches
    else none
  return alternativeItems branches.reverse

/-- The readers of groups that hold groups to a depth. -/
def inside (p : Pattern) : (depth : Nat) → Inside
  | 0 => ⟨fun _ => p.failBack .unexpectedEnd 0, fun _ => p.failBack .unexpectedEnd 0⟩
  | depth + 1 => ⟨p.items (p.inside depth) false, p.alternatives (p.inside depth) false⟩

end Pattern

/-! ## What shows only in the end -/

mutual

/-- The first flaw of an item that is found when the whole pattern has been read. -/
def Tree.flaw? (template : Bool) : Tree → Option Flaw
  | .any | .char .. | .set .. | .anchor _ | .reference _ => none
  | .group _ _ body | .atomic body => Tree.flawIn? template body
  | .choice branches => Tree.flawAmong? template branches
  | .look behind _ body =>
    match behind with
    | some (low, high) =>
      if low > Pattern.repetitionLimit then some .longLookbehind
      else if low ≠ high then some .variableLookbehind
      else Tree.flawIn? template body
    | none => Tree.flawIn? template body
  | .conditional _ yes no => Tree.flawElse? template (Tree.flawIn? template yes) no
  | .repeat greed _ _ body =>
    if template then
      some (.templateRepeat
        (match greed with
        | .greedy => "MAX_REPEAT"
        | .lazy => "MIN_REPEAT"
        | .possessive => "POSSESSIVE_REPEAT"))
    else Tree.flawIn? template body
termination_by structural t => t

/-- The first such flaw of a sequence. -/
def Tree.flawIn? (template : Bool) : List Tree → Option Flaw
  | [] => none
  | t :: rest => (t.flaw? template).or (Tree.flawIn? template rest)
termination_by structural ts => ts

/-- The first such flaw of alternatives. -/
def Tree.flawAmong? (template : Bool) : List (List Tree) → Option Flaw
  | [] => none
  | branch :: rest => (Tree.flawIn? template branch).or (Tree.flawAmong? template rest)
termination_by structural bs => bs

/-- The first such flaw, or the first of a sequence. -/
def Tree.flawElse? (template : Bool) (flaw : Option Flaw) : Option (List Tree) → Option Flaw
  | none => flaw
  | some no => flaw.or (Tree.flawIn? template no)
termination_by structural no => no

end

end Regex

/-- A regular expression: what it matches and how characters are compared. -/
structure Regex where
  body : List Regex.Tree
  flags : Regex.Flags

namespace Regex

/-- What is known before anything is read. -/
def Progress.start (flags : Flags) : Progress where
  flags := flags
  unicode := false
  verbose := false
  template := false
  widths := []
  names := []
  lookbehind := none
  conditions := []

/-- A whole pattern. -/
def Pattern.whole (p : Pattern) : Scan Regex := do
  p.checkNext
  let body ← p.alternatives (p.inside p.length) true false
  let s ← get
  if s.flags.ascii && s.unicode then (Reader.fail .incompatibleFlags : Reader Error Token Unit)
  if (← p.next).isSome then p.failBack .unbalancedParen 0
  match s.conditions.find? fun c => c.1 ≥ s.groupCount with
  | some (group, place) => p.failAt (.invalidGroup group) place
  | none =>
    match Tree.flawIn? s.template body with
    | some flaw => (Reader.fail (.flaw flaw none) : Reader Error Token Regex)
    | none => return ⟨body, s.flags⟩

/-- **Reading a regular expression.** The names of characters and the flags to begin with are
given. -/
def compile (named? : String → Option Char) (flags : Flags) (pattern : String) :
    Except Error Regex :=
  match (Pattern.ofText named? pattern).whole (.start flags) (tokensFrom 0 pattern.toList) with
  | .ok ((regex, _), _) => .ok regex
  | .error e => .error e

end VirtualShell.Regex
