/-!
# Regular expressions as trees

A regular expression is a sequence of items: characters, sets of characters, anchors, groups,
repetitions, alternatives, and the conditions that look ahead, behind, or at what a group has
matched. Characters are kept as code points, since an escape may name one that no text holds.
-/

namespace VirtualShell.Regex

/-- How characters are compared and what the anchors mean. -/
structure Flags where
  ignoreCase : Bool
  multiline : Bool
  dotAll : Bool
  /-- Only ASCII characters have a case or belong to a category. -/
  ascii : Bool
  deriving DecidableEq, Repr

/-- No flag is set. -/
def Flags.none : Flags := ⟨false, false, false, false⟩

/-- The flags that a group turns on and off for what is in it. -/
structure FlagChange where
  ignoreCase : Option Bool
  multiline : Option Bool
  dotAll : Option Bool
  ascii : Option Bool
  deriving DecidableEq, Repr

/-- No flag is changed. -/
def FlagChange.none : FlagChange := ⟨.none, .none, .none, .none⟩

/-- The flags inside a group. -/
def FlagChange.apply (change : FlagChange) (flags : Flags) : Flags where
  ignoreCase := change.ignoreCase.getD flags.ignoreCase
  multiline := change.multiline.getD flags.multiline
  dotAll := change.dotAll.getD flags.dotAll
  ascii := change.ascii.getD flags.ascii

/-- A kind of characters. -/
inductive Category where
  | digit
  | space
  | word
  deriving DecidableEq, Repr

/-- A member of a set: a character, a range, or a category or all but a category. -/
inductive SetItem where
  | char (code : Nat)
  | range (first last : Nat)
  | category (category : Category) (negated : Bool)
  deriving DecidableEq, Repr

/-- A condition on a place in the text. -/
inductive Anchor where
  | lineStart
  | lineEnd
  | textStart
  | textEnd
  | wordBoundary
  | noWordBoundary
  deriving DecidableEq, Repr

/-- How many turns of a repetition are tried first: as many as there are, as few as will do, or as
many as there are and never fewer. -/
inductive Greed where
  | greedy
  | lazy
  | possessive
  deriving DecidableEq, Repr

/-- An item of a regular expression. -/
inductive Tree where
  | any
  | char (code : Nat) (negated : Bool)
  | set (items : List SetItem) (negated : Bool)
  | anchor (anchor : Anchor)
  /-- What a group has matched. -/
  | reference (group : Nat)
  /-- A group, which remembers what it matched when it has a number. -/
  | group (number : Option Nat) (change : FlagChange) (body : List Tree)
  /-- A group into which matching does not return. -/
  | atomic (body : List Tree)
  | choice (branches : List (List Tree))
  /-- A look ahead, or behind when the width of the body is given. -/
  | look (behind : Option (Nat × Nat)) (negated : Bool) (body : List Tree)
  /-- One of two sequences, depending on whether a group has matched. -/
  | conditional (group : Nat) (yes : List Tree) (no : Option (List Tree))
  | repeat (greed : Greed) (least : Nat) (most : Option Nat) (body : List Tree)

/-! ## Widths -/

/-- A bound above every width. -/
def maxWidth : Nat := Nat.pow 2 64

/-- The least and the greatest width of two alternatives. -/
def widen (a b : Nat × Nat) : Nat × Nat := (min a.1 b.1, max a.2 b.2)

mutual

/-- The least and the greatest number of characters an item can match, where `groups` gives those of
the groups. -/
def Tree.width (groups : Nat → Nat × Nat) : Tree → Nat × Nat
  | .any | .char .. | .set .. => (1, 1)
  | .anchor _ | .look .. => (0, 0)
  | .reference number => groups number
  | .group _ _ body | .atomic body => Tree.widthSum groups body
  | .choice branches => Tree.widthChoice groups branches
  | .conditional _ yes no => Tree.widthElse groups (Tree.widthSum groups yes) no
  | .repeat _ least most body =>
    let (low, high) := Tree.widthSum groups body
    (low * least,
      match most with
      | some most => high * most
      | none => if high = 0 then 0 else maxWidth)
termination_by structural t => t

/-- The width of a sequence. -/
def Tree.widthSum (groups : Nat → Nat × Nat) : List Tree → Nat × Nat
  | [] => (0, 0)
  | t :: rest =>
    let (low, high) := t.width groups
    let (lowRest, highRest) := Tree.widthSum groups rest
    (min (low + lowRest) maxWidth, min (high + highRest) maxWidth)
termination_by structural ts => ts

/-- The width of alternatives. -/
def Tree.widthChoice (groups : Nat → Nat × Nat) : List (List Tree) → Nat × Nat
  | [] => (maxWidth, 0)
  | branch :: rest => widen (Tree.widthSum groups branch) (Tree.widthChoice groups rest)
termination_by structural bs => bs

/-- The width of a sequence that may be replaced by another one, or by nothing. -/
def Tree.widthElse (groups : Nat → Nat × Nat) (yes : Nat × Nat) :
    Option (List Tree) → Nat × Nat
  | none => (0, yes.2)
  | some no => widen yes (Tree.widthSum groups no)
termination_by structural no => no

end

end VirtualShell.Regex
