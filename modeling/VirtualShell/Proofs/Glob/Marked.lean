import Mathlib
import VirtualShell.Expansion.Segment
import VirtualShell.Proofs.Glob.Match

/-!
# Reading a pattern with its quotes

A pattern comes in characters of which some were quoted. Here it is read with that knowledge: only a
character that was not quoted means something, and a quoted one stands for itself, be it outside a
set or in one. A backslash protects the character after it, but only one that was not quoted.

The reader finds the pieces of a pattern first and keeps of a set what stands between its brackets;
what these members mean is found in a second step. Each function has a lemma on where what it
returns stands in what it was given.

* `Marked.pieces` — the pieces of a pattern.
* `Marked.members` — what the set with such a body holds.
* **`Marked.isMatch?`** — a pattern that is read with its quotes matches a text.
-/

namespace VirtualShell.Glob

/-- A character of a pattern, and whether it was quoted. -/
structure Mark where
  char : Char
  quoted : Bool
  deriving DecidableEq, Repr

namespace Marked

/-! ## Sets -/

/-- The name of a class up to its end, and what follows. -/
def className? : List Mark → Option (List Mark × List Mark)
  | ⟨':', false⟩ :: ⟨']', false⟩ :: rest => some ([⟨':', false⟩, ⟨']', false⟩], rest)
  | m :: rest => (className? rest).map fun (name, rest) => (m :: name, rest)
  | [] => none

theorem append_of_className? {marks name rest : List Mark}
    (h : className? marks = some (name, rest)) : marks = name ++ rest := by
  fun_induction className? marks generalizing name rest with
  | case1 rest' =>
    cases h
    rfl
  | case2 m marks hend ih =>
    obtain ⟨⟨name', rest'⟩, hfound, heq⟩ := Option.map_eq_some_iff.1 h
    cases heq
    rw [ih hfound, List.cons_append]
  | case3 => cases h

theorem length_className? {marks name rest : List Mark}
    (h : className? marks = some (name, rest)) : rest.length ≤ marks.length := by
  rw [append_of_className? h, List.length_append]
  exact Nat.le_add_left _ _

/-- What stands up to the bracket that closes a set, and what follows that bracket. -/
def closed? : List Mark → Option (List Mark × List Mark)
  | [] => none
  | ⟨']', false⟩ :: rest => some ([], rest)
  | ⟨'\\', false⟩ :: ⟨c, false⟩ :: rest =>
    (closed? rest).map fun (body, rest) => (⟨'\\', false⟩ :: ⟨c, false⟩ :: body, rest)
  | ⟨'[', false⟩ :: ⟨':', false⟩ :: rest =>
    match _h : className? rest with
    | some (name, rest) =>
      (closed? rest).map fun (body, rest) => (⟨'[', false⟩ :: ⟨':', false⟩ :: name ++ body, rest)
    | none => (closed? (⟨':', false⟩ :: rest)).map fun (body, rest) => (⟨'[', false⟩ :: body, rest)
  | m :: rest => (closed? rest).map fun (body, rest) => (m :: body, rest)
termination_by marks => marks.length
decreasing_by
  · simp only [List.length_cons]; omega
  · have := length_className? (by assumption)
    simp only [List.length_cons]; omega
  · simp only [List.length_cons]; omega
  · simp only [List.length_cons]; omega

theorem append_of_closed? {marks body rest : List Mark} (h : closed? marks = some (body, rest)) :
    marks = body ++ ⟨']', false⟩ :: rest := by
  fun_induction closed? marks generalizing body rest with
  | case1 => cases h
  | case2 rest' =>
    cases h
    rfl
  | case4 marks name rest' hname ih =>
    obtain ⟨⟨body', rest''⟩, hfound, heq⟩ := Option.map_eq_some_iff.1 h
    cases heq
    rw [append_of_className? hname, ih hfound]
    simp
  | case3 _ _ ih | case5 _ _ ih | case6 _ _ _ _ _ ih =>
    obtain ⟨⟨body', rest'⟩, hfound, heq⟩ := Option.map_eq_some_iff.1 h
    cases heq
    rw [ih hfound]
    rfl

/-- What stands between the brackets of a set that is not negated. -/
def body? : List Mark → Option (List Mark × List Mark)
  | ⟨']', false⟩ :: rest => (closed? rest).map fun (body, rest) => (⟨']', false⟩ :: body, rest)
  | marks => closed? marks

theorem append_of_body? {marks body rest : List Mark} (h : body? marks = some (body, rest)) :
    marks = body ++ ⟨']', false⟩ :: rest := by
  unfold body? at h
  split at h
  · obtain ⟨⟨body', rest'⟩, hfound, heq⟩ := Option.map_eq_some_iff.1 h
    cases heq
    rw [append_of_closed? hfound]
    rfl
  · exact append_of_closed? h

/-- The set that starts after an opening bracket, if it is closed: whether it is negated, what
stands between its brackets, and what follows it. -/
def set? : List Mark → Option (Bool × List Mark × List Mark)
  | ⟨'!', false⟩ :: rest | ⟨'^', false⟩ :: rest => (body? rest).map fun found => (true, found)
  | marks => (body? marks).map fun found => (false, found)

theorem suffix_set? {marks body rest : List Mark} {negated : Bool}
    (h : set? marks = some (negated, body, rest)) :
    body ++ ⟨']', false⟩ :: rest <:+ marks := by
  unfold set? at h
  split at h
  all_goals
    obtain ⟨⟨body', rest'⟩, hfound, heq⟩ := Option.map_eq_some_iff.1 h
    cases heq
    rw [← append_of_body? hfound]
  · exact List.suffix_cons _ _
  · exact List.suffix_cons _ _

/-! ## Pieces -/

/-- A piece of a pattern. -/
inductive Piece where
  | star
  | any
  | char (c : Char)
  /-- A set, with what stands between its brackets. -/
  | set (negated : Bool) (body : List Mark)
  deriving DecidableEq, Repr

/-- The body of a set, and nothing for another piece. -/
def Piece.body : Piece → List Mark
  | .set _ body => body
  | _ => []

/-- The first piece of a pattern, and what follows it. -/
def nextPiece (m : Mark) (rest : List Mark) : Piece × List Mark :=
  match m, rest with
  | ⟨'*', false⟩, rest => (.star, rest)
  | ⟨'?', false⟩, rest => (.any, rest)
  | ⟨'\\', false⟩, ⟨c, false⟩ :: rest => (.char c, rest)
  | ⟨'[', false⟩, rest =>
    match set? rest with
    | some (negated, body, rest) => (.set negated body, rest)
    | none => (.char '[', rest)
  | m, rest => (.char m.char, rest)

theorem suffix_nextPiece (m : Mark) (rest : List Mark) : (nextPiece m rest).2 <:+ rest := by
  unfold nextPiece
  split
  · exact List.suffix_refl _
  · exact List.suffix_refl _
  · exact List.suffix_cons _ _
  · split
    · next body rest' hset =>
      exact ((List.suffix_cons _ rest').trans (List.suffix_append body _)).trans (suffix_set? hset)
    · exact List.suffix_refl _
  · exact List.suffix_refl _

theorem infix_body_nextPiece (m : Mark) (rest : List Mark) :
    (nextPiece m rest).1.body <:+: rest := by
  unfold nextPiece
  split
  · exact List.nil_infix
  · exact List.nil_infix
  · exact List.nil_infix
  · split
    · next hset => exact (List.prefix_append _ _).isInfix.trans (suffix_set? hset).isInfix
    · exact List.nil_infix
  · exact List.nil_infix

/-- **The pieces** of a pattern. -/
def pieces : List Mark → List Piece
  | [] => []
  | m :: rest => (nextPiece m rest).1 :: pieces (nextPiece m rest).2
termination_by marks => marks.length
decreasing_by exact Nat.lt_succ_of_le (suffix_nextPiece m rest).length_le

/-- The body of a set stands in the pattern. -/
theorem infix_body {marks : List Mark} {piece : Piece} (h : piece ∈ pieces marks) :
    piece.body <:+: marks := by
  fun_induction pieces marks with
  | case1 => cases h
  | case2 m rest ih =>
    rcases List.mem_cons.1 h with rfl | h
    · exact (infix_body_nextPiece m rest).trans (List.suffix_cons m rest).isInfix
    · exact (ih h).trans ((suffix_nextPiece m rest).trans (List.suffix_cons m rest)).isInfix

/-! ## Members of sets -/

/-- The class some marks start with, and what follows it. -/
def class? (marks : List Mark) : Option (List Member × List Mark) :=
  (classes.find? fun c => (c.1.toList.map (Mark.mk · false)).isPrefixOf marks).map fun c =>
    (membersOf c.2, marks.drop c.1.length)

/-- The first members of a set, and the marks after them. -/
def nextMembers (m : Mark) (rest : List Mark) : List Member × List Mark :=
  match class? (m :: rest) with
  | some found => found
  | none =>
    match m, rest with
    | ⟨'\\', false⟩, ⟨c, false⟩ :: rest => ([.escaped c], rest)
    | ⟨c, false⟩, rest => ([.plain c], rest)
    | ⟨c, true⟩, rest => ([.escaped c], rest)

theorem suffix_nextMembers (m : Mark) (rest : List Mark) : (nextMembers m rest).2 <:+ rest := by
  have hnames : ∀ c ∈ classes, 0 < c.1.length := by decide
  unfold nextMembers
  split
  · next found hclass =>
    obtain ⟨c, hc, rfl⟩ := Option.map_eq_some_iff.1 hclass
    obtain ⟨n, hn⟩ := Nat.exists_eq_add_of_lt (hnames c (List.mem_of_find?_eq_some hc))
    rw [hn, Nat.zero_add, List.drop_succ_cons]
    exact List.drop_suffix _ _
  · split
    · exact List.suffix_cons _ _
    · exact List.suffix_refl _
    · exact List.suffix_refl _

/-- The members of a set. -/
def members : List Mark → List Member
  | [] => []
  | m :: rest => (nextMembers m rest).1 ++ members (nextMembers m rest).2
termination_by marks => marks.length
decreasing_by exact Nat.lt_succ_of_le (suffix_nextMembers m rest).length_le

/-- A piece as it is meant. -/
def Piece.meant : Piece → Glob.Piece
  | .star => .star
  | .any => .any
  | .char c => .char c
  | .set negated body => .set negated (members body)

/-- **Reading a pattern with its quotes.** It fails on a range whose ends are in the wrong order. -/
def read (marks : List Mark) : Option (List Atom) :=
  (atoms 0 ((pieces marks).map Piece.meant)).toOption

/-- **The pattern matches the text**, read with its quotes. -/
def isMatch? (marks : List Mark) (text : List Char) : Option Bool :=
  (read marks).map fun atoms => decide (Matches atoms text)

end Marked

end VirtualShell.Glob
