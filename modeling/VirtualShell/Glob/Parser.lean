import VirtualShell.Glob.Basic
import VirtualShell.Regex.Escape

/-!
# Reading glob patterns

A backslash makes the character after it stand for itself. An opening bracket starts a set if there
is a bracket that closes it, and stands for itself otherwise. In a set an exclamation mark or a
caret at the start means all other characters, a closing bracket right at the start is a member,
and so are the characters of a class such as `[:digit:]`.

What is wrong with a pattern is a range whose ends are in the wrong order. It is reported at its
place in the regular expression that means the same as the pattern, so each piece of a pattern also
has a form in which it is written there.
-/

namespace VirtualShell.Glob

/-! ## Members of sets -/

/-- A character in a set and how it is written in a regular expression. -/
structure Member where
  written : List Char
  char : Char
  deriving DecidableEq, Repr

/-- The character that a letter stands for after a backslash in a regular expression. -/
def control (c : Char) : Char :=
  match c with
  | 't' => '\t'
  | 'n' => '\n'
  | 'r' => '\r'
  | 'f' => '\x0c'
  | 'v' => '\x0b'
  | c => c

/-- The members that a regular expression writes. -/
def membersOf (text : String) : List Member :=
  (Regex.tokensFrom 0 text.toList).map fun t =>
    match t.text with
    | ['\\', c] => ⟨['\\', c], control c⟩
    | text => ⟨text, text.headD '\\'⟩

/-- The named classes of characters. -/
def classes : List (String × String) :=
  [("[:alpha:]", "a-zA-Z"),
   ("[:digit:]", "0-9"),
   ("[:alnum:]", "a-zA-Z0-9"),
   ("[:upper:]", "A-Z"),
   ("[:lower:]", "a-z"),
   ("[:space:]", " \\t\\n\\r\\f\\v"),
   ("[:blank:]", " \\t"),
   ("[:punct:]", "!\\\"#$%&'()*+,\\-./:;<=>?@\\[\\\\\\]^_`\x7b|\x7d~"),
   ("[:xdigit:]", "0-9a-fA-F")]

/-- The class a text starts with, and what follows it. -/
def class? (text : List Char) : Option (List Member × List Char) :=
  (classes.find? fun c => c.1.toList.isPrefixOf text).map fun c =>
    (membersOf c.2, text.drop c.1.length)

theorem length_class? {c : Char} {text rest : List Char} {found : List Member}
    (h : class? (c :: text) = some (found, rest)) : rest.length ≤ text.length := by
  have names : ∀ c ∈ classes, 0 < c.1.length := by decide
  obtain ⟨named, hn, he⟩ := Option.map_eq_some_iff.1 h
  have := names named (List.mem_of_find?_eq_some hn)
  simp only [Prod.mk.injEq] at he
  simp only [← he.2, List.length_drop, List.length_cons]
  omega

/-- A character that stands in a set unprotected. -/
def Member.plain (c : Char) : Member :=
  ⟨if c ∈ ['\\', ']', '^', '['] then ['\\', c] else [c], c⟩

/-- A character that stands in a set after a backslash. -/
def Member.escaped (c : Char) : Member := ⟨Regex.quoteChar c, c⟩

/-- The first members of the text between the brackets of a set, and the text after them. -/
def nextMembers (c : Char) (rest : List Char) : List Member × List Char :=
  match class? (c :: rest) with
  | some found => found
  | none =>
    match c, rest with
    | '\\', c' :: rest => ([.escaped c'], rest)
    | c, rest => ([.plain c], rest)

theorem length_nextMembers (c : Char) (rest : List Char) :
    (nextMembers c rest).2.length ≤ rest.length := by
  unfold nextMembers
  split
  · exact length_class? (by assumption)
  · split <;> simp

/-- The members that stand between the brackets of a set. -/
def members : List Char → List Member
  | [] => []
  | c :: rest => (nextMembers c rest).1 ++ members (nextMembers c rest).2
termination_by body => body.length
decreasing_by
  simp only [List.length_cons]
  exact Nat.lt_succ_of_le (length_nextMembers c rest)

/-- The member is the dash of a range. -/
def Member.isDash (m : Member) : Bool := m.written == ['-']

/-- A range whose ends are in the wrong order, and how many characters stand before it. -/
structure BadRange where
  first : List Char
  last : List Char
  offset : Nat

/-- **The ranges** that members make up. A dash between two of them makes a range. -/
def ranges (offset : Nat) : List Member → Except BadRange (List (Char × Char))
  | [] => .ok []
  | [m] => .ok [(m.char, m.char)]
  | [m, m'] => .ok [(m.char, m.char), (m'.char, m'.char)]
  | m :: m' :: m'' :: rest =>
    if m'.isDash then
      if m''.char < m.char then .error ⟨m.written, m''.written, offset⟩
      else do
        let more ← ranges (offset + m.written.length + 1 + m''.written.length) rest
        return (m.char, m''.char) :: more
    else do
      let more ← ranges (offset + m.written.length) (m' :: m'' :: rest)
      return (m.char, m.char) :: more

/-! ## Pieces -/

/-- A piece of a pattern. -/
inductive Piece where
  | star
  | any
  | char (c : Char)
  | set (negated : Bool) (members : List Member)
  deriving DecidableEq, Repr

/-- How a piece is written in a regular expression. -/
def Piece.written : Piece → List Char
  | .star => ['.', '*']
  | .any => ['.']
  | .char c => Regex.quoteChar c
  | .set negated members =>
    (if negated then ['[', '^'] else ['[']) ++ members.flatMap Member.written ++ [']']

/-- The name of a class up to its end, and what follows. -/
def className? : List Char → Option (List Char × List Char)
  | ':' :: ']' :: rest => some ([':', ']'], rest)
  | c :: rest => (className? rest).map fun (name, rest) => (c :: name, rest)
  | [] => none

theorem length_className? {text name rest : List Char} (h : className? text = some (name, rest)) :
    rest.length < text.length := by
  fun_induction className? text generalizing name rest with
  | case1 =>
    simp only [Option.some.injEq, Prod.mk.injEq] at h
    rw [← h.2]
    simp only [List.length_cons]
    omega
  | case2 _ _ _ ih =>
    obtain ⟨⟨name', rest'⟩, hr, he⟩ := Option.map_eq_some_iff.1 h
    have := ih hr
    simp only [Prod.mk.injEq] at he
    rw [← he.2]
    simp only [List.length_cons]
    omega
  | case3 => simp at h

/-- The text up to the bracket that closes a set, and what follows that bracket. -/
def closed? : List Char → Option (List Char × List Char)
  | [] => none
  | ']' :: rest => some ([], rest)
  | '\\' :: c :: rest => (closed? rest).map fun (body, rest) => ('\\' :: c :: body, rest)
  | '[' :: ':' :: rest =>
    match _h : className? rest with
    | some (name, rest) =>
      (closed? rest).map fun (body, rest) => ('[' :: ':' :: name ++ body, rest)
    | none => (closed? (':' :: rest)).map fun (body, rest) => ('[' :: body, rest)
  | c :: rest => (closed? rest).map fun (body, rest) => (c :: body, rest)
termination_by text => text.length
decreasing_by
  · simp only [List.length_cons]; omega
  · have := length_className? (by assumption)
    simp only [List.length_cons]; omega
  · simp only [List.length_cons]; omega
  · simp only [List.length_cons]; omega

theorem length_closed? {text body rest : List Char} (h : closed? text = some (body, rest)) :
    rest.length < text.length := by
  fun_induction closed? text generalizing body rest with
  | case1 => simp at h
  | case2 => simp_all
  | case4 _ name rest' hn ih =>
    obtain ⟨⟨body', rest''⟩, hr, he⟩ := Option.map_eq_some_iff.1 h
    have := ih hr
    have := length_className? hn
    simp only [Prod.mk.injEq] at he
    rw [← he.2]
    simp only [List.length_cons]
    omega
  | case3 _ _ ih | case5 _ _ ih | case6 _ _ _ _ _ ih =>
    obtain ⟨⟨body', rest''⟩, hr, he⟩ := Option.map_eq_some_iff.1 h
    have := ih hr
    simp only [Prod.mk.injEq] at he
    rw [← he.2]
    simp only [List.length_cons] at this ⊢
    omega

/-- Put a character in front of the text between brackets. -/
def within (c : Char) (found : Option (List Char × List Char)) :
    Option (List Char × List Char) :=
  found.map fun (body, rest) => (c :: body, rest)

/-- The text between the brackets of a set that is not negated. -/
def body? : List Char → Option (List Char × List Char)
  | ']' :: rest => within ']' (closed? rest)
  | text => closed? text

/-- The set that starts after an opening bracket, if it is closed, and what follows it. -/
def set? (text : List Char) : Option (Piece × List Char) :=
  let (negated, text) :=
    match text with
    | '!' :: rest | '^' :: rest => (true, rest)
    | _ => (false, text)
  (body? text).map fun (body, rest) => (.set negated (members body), rest)

/-- The first piece of a pattern, and what follows it. -/
def nextPiece (c : Char) (rest : List Char) : Piece × List Char :=
  match c with
  | '*' => (.star, rest)
  | '?' => (.any, rest)
  | '\\' =>
    match rest with
    | c :: rest => (.char c, rest)
    | [] => (.char '\\', [])
  | '[' => (set? rest).getD (.char '[', rest)
  | c => (.char c, rest)

theorem length_body? {text body rest : List Char} (h : body? text = some (body, rest)) :
    rest.length < text.length := by
  unfold body? within at h
  split at h
  · obtain ⟨⟨body', rest'⟩, hr, he⟩ := Option.map_eq_some_iff.1 h
    have := length_closed? hr
    simp_all
    omega
  · exact length_closed? h

theorem length_set? {text rest : List Char} {piece : Piece} (h : set? text = some (piece, rest)) :
    rest.length < text.length := by
  obtain ⟨⟨body', rest'⟩, hr, he⟩ := Option.map_eq_some_iff.1 h
  have := length_body? hr
  simp only [Prod.mk.injEq] at he
  rw [← he.2]
  split at this <;> simp_all <;> omega

theorem length_nextPiece (c : Char) (rest : List Char) :
    (nextPiece c rest).2.length ≤ rest.length := by
  unfold nextPiece
  split
  · simp
  · simp
  · split <;> simp
  · cases h : set? rest with
    | none => simp
    | some found => exact Nat.le_of_lt (length_set? h)
  · simp

/-- The pieces of a pattern. -/
def pieces : List Char → List Piece
  | [] => []
  | c :: rest => (nextPiece c rest).1 :: pieces (nextPiece c rest).2
termination_by text => text.length
decreasing_by
  simp only [List.length_cons]
  exact Nat.lt_succ_of_le (length_nextPiece c rest)

/-- The atom that a piece stands for; the number of characters before it is given. -/
def Piece.atom (offset : Nat) : Piece → Except BadRange Atom
  | .star => .ok .star
  | .any => .ok .any
  | .char c => .ok (.char c)
  | .set negated members => do
    return .set negated (← ranges (offset + if negated then 2 else 1) members)

/-- The atoms that pieces stand for. -/
def atoms (offset : Nat) : List Piece → Except BadRange (List Atom)
  | [] => .ok []
  | piece :: rest => do
    let a ← piece.atom offset
    let more ← atoms (offset + piece.written.length) rest
    return a :: more

/-- **A pattern as a regular expression** that means the same. -/
def translation (text : String) : String :=
  String.ofList ((pieces text.toList).flatMap Piece.written)

/-- In that regular expression a dot matches line feeds, too. -/
def translationFlags : Regex.Flags := { Regex.Flags.none with dotAll := true }

/-- What is said of a range in a regular expression. -/
def BadRange.error (bad : BadRange) (regex : String) : Regex.Error :=
  .flaw (.badRange (String.ofList bad.first) (String.ofList bad.last)) (some (regex, bad.offset))

/-- **Reading a pattern.** -/
def compile (text : String) : Except Regex.Error (List Atom) :=
  match atoms 0 (pieces text.toList) with
  | .ok atoms => .ok atoms
  | .error bad => .error (bad.error (translation text))

end VirtualShell.Glob
