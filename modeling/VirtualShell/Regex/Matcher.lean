import VirtualShell.Regex.Letter
import VirtualShell.Regex.Parser

/-!
# Matching by backtracking

An item is matched at a place in the text, and then what comes after it is tried; when that fails,
the next way to match the item is tried. The order of the ways decides which match is found: a
greedy repetition takes another turn first and a lazy one goes on first, and of alternatives the
first comes first.

A repetition takes no further turn where its last optional turn began, so it ends even when a turn
matches nothing.
-/

namespace VirtualShell.Regex

/-- A place in a text: what stands before it, backwards, and what stands after it. -/
structure Place where
  before : List Char
  after : List Char
  position : Nat
  deriving DecidableEq, Repr

namespace Place

/-- The start of a text. -/
def start (text : List Char) : Place := ⟨[], text, 0⟩

/-- The place some characters back; nothing when there are not so many. -/
def back (place : Place) : Nat → Option Place
  | 0 => some place
  | n + 1 =>
    match place with
    | ⟨c :: before, after, position + 1⟩ => back ⟨before, c :: after, position⟩ n
    | _ => none

/-- The text between an earlier place and this one. -/
def since (place earlier : Place) : List Char :=
  (place.before.take (place.position - earlier.position)).reverse

/-- The place after the next character if it passes a test. -/
def pass (place : Place) (test : Char → Bool) : Option Place :=
  match place.after with
  | c :: after => if test c then some ⟨c :: place.before, after, place.position + 1⟩ else none
  | [] => none

/-- The place after a text that stands here. -/
def passText (flags : Flags) (place : Place) (text : List Char) : Option Place :=
  let found := place.after.take text.length
  if found.length == text.length && sameText flags text found then
    some ⟨found.reverse ++ place.before, place.after.drop text.length,
      place.position + text.length⟩
  else none

/-- The condition of an anchor holds at a place. In an empty text there is no word boundary, and no
place that is none. -/
def fits (place : Place) (flags : Flags) (anchor : Anchor) : Bool :=
  let isWord (c : Char) : Bool := Category.word.holds flags.ascii c.toNat
  let atBoundary := place.before.head?.any isWord != place.after.head?.any isWord
  let isEmpty := place.before.isEmpty && place.after.isEmpty
  match anchor with
  | .textStart => place.before.isEmpty
  | .textEnd => place.after.isEmpty
  | .lineStart => place.before.isEmpty || (flags.multiline && place.before.head? == some '\n')
  | .lineEnd =>
    place.after.isEmpty || place.after == ['\n'] ||
      (flags.multiline && place.after.head? == some '\n')
  | .wordBoundary => !isEmpty && atBoundary
  | .noWordBoundary => !isEmpty && !atBoundary

end Place

/-- What groups have matched, the latest first. -/
abbrev Captures := List (Nat × List Char)

/-- Goes on from a place with what groups have matched, and may fail. -/
abbrev Goal := Place → Captures → Option (Place × Captures)

/-- Nothing is left to be matched. -/
def accept : Goal := fun place captures => some (place, captures)

/-! ## Turns of a repetition -/

/-- A number of turns. -/
def turns (turn : Goal → Goal) : Nat → Goal → Goal
  | 0, next => next
  | n + 1, next => fun place captures => turn (turns turn n next) place captures

/-- At most a number of turns, as many as there are first. `last` is where the last turn began. -/
def greedyTurns (turn : Goal → Goal) (next : Goal) : Nat → (last : Option Nat) → Goal
  | 0, _ => next
  | n + 1, last => fun place captures =>
    if last = some place.position then next place captures
    else
      match turn (greedyTurns turn next n (some place.position)) place captures with
      | some found => some found
      | none => next place captures

/-- At most a number of turns, as few as will do first. -/
def lazyTurns (turn : Goal → Goal) (next : Goal) : Nat → (last : Option Nat) → Goal
  | 0, _ => next
  | n + 1, last => fun place captures =>
    match next place captures with
    | some found => some found
    | none =>
      if last = some place.position then none
      else turn (lazyTurns turn next n (some place.position)) place captures

/-- At most a number of turns, each in the first way it matches and as many as there are. -/
def possessiveTurns (turn : Goal → Goal) : Nat → Place → Captures → Place × Captures
  | 0, place, captures => (place, captures)
  | n + 1, place, captures =>
    match turn accept place captures with
    | none => (place, captures)
    | some (place', captures') =>
      if place'.position = place.position then (place', captures')
      else possessiveTurns turn n place' captures'

/-- A number of turns, each in the first way it matches. -/
def firmTurns (turn : Goal → Goal) : Nat → Place → Captures → Option (Place × Captures)
  | 0, place, captures => some (place, captures)
  | n + 1, place, captures =>
    match turn accept place captures with
    | none => none
    | some (place', captures') => firmTurns turn n place' captures'

/-- How many optional turns there can be at a place: each but the last one takes a character. -/
def turnLimit (least : Nat) (most : Option Nat) (place : Place) : Nat :=
  match most with
  | some most => min (most - least) (place.after.length + 2)
  | none => place.after.length + 2

/-- **A repetition.** -/
def repeated (turn : Goal → Goal) (greed : Greed) (least : Nat) (most : Option Nat)
    (next : Goal) : Goal :=
  match greed with
  | .greedy =>
    turns turn least fun place captures =>
      greedyTurns turn next (turnLimit least most place) none place captures
  | .lazy =>
    turns turn least fun place captures =>
      lazyTurns turn next (turnLimit least most place) none place captures
  | .possessive => fun place captures =>
    match firmTurns turn least place captures with
    | none => none
    | some (place, captures) =>
      let (place, captures) := possessiveTurns turn (turnLimit least most place) place captures
      next place captures

/-! ## Items -/

/-- Go on after a step that may fail. -/
def goOn (next : Goal) (place : Option Place) (captures : Captures) :
    Option (Place × Captures) :=
  match place with
  | some place => next place captures
  | none => none

/-- Look at what a body does at a place, and go on from another one when it is as wanted. -/
def lookAt (body : Goal → Goal) (negated : Bool) (there : Option Place) (next : Goal) : Goal :=
  fun place captures =>
    match there with
    | none => if negated then next place captures else none
    | some start =>
      match body accept start captures, negated with
      | some (_, captures'), false => next place captures'
      | none, true => next place captures
      | _, _ => none

mutual

/-- **Match an item**, and go on. -/
def Tree.run (flags : Flags) : Tree → Goal → Goal
  | .any, next => fun place captures =>
    goOn next (place.pass fun c => flags.dotAll || c != '\n') captures
  | .char code negated, next => fun place captures =>
    goOn next (place.pass fun c => matchesChar flags code c.toNat != negated) captures
  | .set items negated, next => fun place captures =>
    goOn next (place.pass fun c => matchesSet flags items c.toNat != negated) captures
  | .anchor kind, next => fun place captures =>
    if place.fits flags kind then next place captures else none
  | .reference number, next => fun place captures =>
    match captures.lookup number with
    | some text => goOn next (place.passText flags text) captures
    | none => none
  | .group none change body, next => Tree.runAll (change.apply flags) body next
  | .group (some number) change body, next => fun place captures =>
    Tree.runAll (change.apply flags) body
      (fun ending captures => next ending ((number, ending.since place) :: captures))
      place captures
  | .atomic body, next => fun place captures =>
    match Tree.runAll flags body accept place captures with
    | some (place, captures) => next place captures
    | none => none
  | .choice branches, next => Tree.runAny flags branches next
  | .look none negated body, next => fun place captures =>
    lookAt (Tree.runAll flags body) negated (some place) next place captures
  | .look (some (width, _)) negated body, next => fun place captures =>
    lookAt (Tree.runAll flags body) negated (place.back width) next place captures
  | .conditional number yes no, next => fun place captures =>
    if (captures.lookup number).isSome then Tree.runAll flags yes next place captures
    else Tree.runElse flags no next place captures
  | .repeat greed least most body, next =>
    repeated (Tree.runAll flags body) greed least most next
termination_by structural t => t

/-- Match a sequence, and go on. -/
def Tree.runAll (flags : Flags) : List Tree → Goal → Goal
  | [], next => next
  | t :: rest, next => t.run flags (Tree.runAll flags rest next)
termination_by structural ts => ts

/-- Match the first of some alternatives that lets what follows be matched. -/
def Tree.runAny (flags : Flags) : List (List Tree) → Goal → Goal
  | [], _ => fun _ _ => none
  | branch :: rest, next => fun place captures =>
    match Tree.runAll flags branch next place captures with
    | some found => some found
    | none => Tree.runAny flags rest next place captures
termination_by structural bs => bs

/-- Match a sequence if there is one, and go on. -/
def Tree.runElse (flags : Flags) : Option (List Tree) → Goal → Goal
  | none, next => next
  | some no, next => Tree.runAll flags no next
termination_by structural no => no

end

/-! ## Whole texts -/

/-- Nothing is left to be matched, and nothing of the text is left. -/
def acceptAtEnd : Goal := fun place captures =>
  if place.after.isEmpty then some (place, captures) else none

/-- **A whole text is matched.** -/
def isFullMatch (r : Regex) (text : String) : Bool :=
  (Tree.runAll r.flags r.body acceptAtEnd (.start text.toList) []).isSome

/-! ## Searching -/

/-- The end of the match at a place; with `advance` it has to be past the place. -/
def matchAt (r : Regex) (advance : Bool) (place : Place) : Option Place :=
  let ends : Goal := fun ending captures =>
    if advance && ending.position == place.position then none else some (ending, captures)
  (Tree.runAll r.flags r.body ends place []).map (·.1)

/-- The start and the end of the first match from a place on, of which the parts are given. -/
def searchFrom (r : Regex) (advance : Bool) (before : List Char) (position : Nat) :
    List Char → Option (Place × Place)
  | [] => (r.matchAt advance ⟨before, [], position⟩).map (⟨before, [], position⟩, ·)
  | c :: after =>
    match r.matchAt advance ⟨before, c :: after, position⟩ with
    | some ending => some (⟨before, c :: after, position⟩, ending)
    | none => searchFrom r false (c :: before) (position + 1) after

/-- **The first match** in a text. -/
def search? (r : Regex) (text : String) : Option String :=
  (r.searchFrom false [] 0 text.toList).map fun (start, ending) =>
    String.ofList (ending.since start)

/-- The matches from a place on, at most a number of them. -/
def matchesFrom (r : Regex) (advance : Bool) (place : Place) : Nat → List (List Char)
  | 0 => []
  | n + 1 =>
    match r.searchFrom advance place.before place.position place.after with
    | none => []
    | some (start, ending) =>
      ending.since start :: matchesFrom r (ending.position == start.position) ending n

/-- **All matches** in a text, from left to right and none inside another one. -/
def allMatches (r : Regex) (text : String) : List String :=
  (r.matchesFrom false (.start text.toList) (2 * text.length + 2)).map String.ofList

end VirtualShell.Regex
