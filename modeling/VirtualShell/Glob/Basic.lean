/-!
# Glob patterns

A pattern is a sequence of atoms: a star matches any text, a question mark any character, a set the
characters in its ranges, or all others, and a character itself.

What is left of a text after a pattern has matched a part at its start depends on how much the
stars took. All of these rests are found at once, the longest first, so that a match never has to
be tried again.
-/

namespace VirtualShell.Glob

/-- One item of a pattern. -/
inductive Atom where
  /-- Any text. -/
  | star
  /-- Any character. -/
  | any
  | char (c : Char)
  /-- The characters in some ranges, or all others. -/
  | set (negated : Bool) (ranges : List (Char × Char))
  deriving DecidableEq, Repr

/-- A character lies in one of some ranges. -/
def inRanges (ranges : List (Char × Char)) (c : Char) : Bool :=
  ranges.any fun r => r.1 ≤ c && c ≤ r.2

/-- An atom matches a single character. -/
def Atom.holds (a : Atom) (c : Char) : Bool :=
  match a with
  | .star | .any => true
  | .char c' => c == c'
  | .set negated ranges => inRanges ranges c != negated

/-- The text after its first character, if the atom matches that. -/
def Atom.rest? (a : Atom) (text : List Char) : Option (List Char) :=
  match text with
  | [] => none
  | c :: rest => if a.holds c then some rest else none

/-- The ends of a text, the whole first and the empty one last. -/
def ends : List Char → List (List Char)
  | [] => [[]]
  | c :: rest => (c :: rest) :: ends rest

/-- What one atom leaves of some ends of one text, of which the longest comes first. -/
def Atom.step (a : Atom) (rests : List (List Char)) : List (List Char) :=
  match a, rests with
  | .star, [] => []
  | .star, longest :: _ => ends longest
  | a, rests => rests.filterMap a.rest?

/-- **What a pattern leaves** of a text when it has matched a part at the start, longest first. -/
def rests (pattern : List Atom) (text : List Char) : List (List Char) :=
  pattern.foldl (fun rests a => a.step rests) [text]

/-- **A pattern matches a whole text.** -/
def isMatch (pattern : List Atom) (text : List Char) : Bool :=
  (rests pattern text).any (·.isEmpty)

/-! ## Removing and replacing -/

/-- One of the rests: after the longest match, or after the shortest one. -/
def choose (longest : Bool) (rests : List (List Char)) : Option (List Char) :=
  if longest then rests.getLast? else rests.head?

/-- What is left when a match at the start is taken away. -/
def afterPrefix? (longest : Bool) (pattern : List Atom) (text : List Char) :
    Option (List Char) :=
  choose longest (rests pattern text)

/-- What is left when a match at the end is taken away. The text is read backwards. -/
def beforeSuffix? (longest : Bool) (pattern : List Atom) (text : List Char) :
    Option (List Char) :=
  (choose longest (rests pattern.reverse text.reverse)).map List.reverse

/-- What follows the longest match at the start that is not empty. Only a pattern without atoms and
stars in an empty text match nothing else than the empty text. -/
def afterMatch? (pattern : List Atom) (text : List Char) : Option (List Char) :=
  if pattern.isEmpty || text.isEmpty then none else (rests pattern text).getLast?

theorem length_le_of_mem_ends {text rest : List Char} (h : rest ∈ ends text) :
    rest.length ≤ text.length := by
  induction text with
  | nil => simp_all [ends]
  | cons c text ih =>
    rcases List.mem_cons.1 h with rfl | h
    · simp
    · exact Nat.le_succ_of_le (ih h)

theorem getLast?_ends (text : List Char) : (ends text).getLast? = some [] := by
  induction text with
  | nil => rfl
  | cons c text ih => simp [ends, List.getLast?_cons, ih]

theorem length_of_rest? {a : Atom} {text rest : List Char} (h : a.rest? text = some rest) :
    rest.length < text.length := by
  unfold Atom.rest? at h
  grind

theorem length_le_of_mem_step {a : Atom} {texts : List (List Char)} {n : Nat} {rest : List Char}
    (hn : ∀ text ∈ texts, text.length ≤ n) (h : rest ∈ a.step texts) : rest.length ≤ n := by
  unfold Atom.step at h
  split at h
  · simp at h
  · exact Nat.le_trans (length_le_of_mem_ends h) (hn _ (by simp))
  · obtain ⟨text, ht, hr⟩ := List.mem_filterMap.1 h
    exact Nat.le_trans (Nat.le_of_lt (length_of_rest? hr)) (hn _ ht)

/-- What a pattern leaves is no longer than the text. -/
theorem length_le_of_mem_rests {pattern : List Atom} {text rest : List Char}
    (h : rest ∈ rests pattern text) : rest.length ≤ text.length := by
  have key (texts : List (List Char)) (hn : ∀ t ∈ texts, t.length ≤ text.length) :
      ∀ t ∈ pattern.foldl (fun rests a => a.step rests) texts, t.length ≤ text.length := by
    clear h
    induction pattern generalizing texts with
    | nil => exact hn
    | cons a pattern ih => exact ih _ fun _ => length_le_of_mem_step hn
  exact key [text] (by simp) rest h

/-- The last atom of a pattern makes the longest match take a character, if there is one. -/
theorem length_of_getLast?_step {a : Atom} {texts : List (List Char)} {n : Nat}
    {rest : List Char} (hn : ∀ text ∈ texts, text.length ≤ n) (pos : 0 < n)
    (h : (a.step texts).getLast? = some rest) : rest.length < n := by
  unfold Atom.step at h
  split at h
  · simp at h
  · rw [getLast?_ends] at h
    grind
  · obtain ⟨text, ht, hr⟩ := List.mem_filterMap.1 (List.mem_of_getLast? h)
    exact Nat.lt_of_lt_of_le (length_of_rest? hr) (hn _ ht)

theorem length_afterMatch? {pattern : List Atom} {text rest : List Char}
    (h : afterMatch? pattern text = some rest) : rest.length < text.length := by
  unfold afterMatch? at h
  split at h
  · simp at h
  · rcases List.eq_nil_or_concat pattern with rfl | ⟨front, a, rfl⟩
    · simp_all
    · have last : (a.step (rests front text)).getLast? = some rest := by
        simpa [rests, List.foldl_append] using h
      exact length_of_getLast?_step (fun _ => length_le_of_mem_rests)
        (by cases text <;> simp_all) last

/-- Replace the first match that is not empty, or all of them, from left to right. -/
def replaceIn (pattern : List Atom) (replacement : List Char) (all : Bool) (text : List Char) :
    List Char :=
  match _h : afterMatch? pattern text with
  | some rest =>
    replacement ++ if all then replaceIn pattern replacement all rest else rest
  | none =>
    match text with
    | [] => []
    | c :: rest => c :: replaceIn pattern replacement all rest
termination_by text.length
decreasing_by
  · exact length_afterMatch? (by assumption)
  · simp

end VirtualShell.Glob
