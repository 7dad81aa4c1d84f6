import Mathlib
import VirtualShell.Proofs.Glob.Marked

/-!
# The text of a pattern

A pattern is put into a text with a backslash before each quoted character that means something, and
read from the text again. Other characters mean something in some places only, and there the text
does not show whether they were quoted. `QuotesCount` says that no quoted one stands in such a
place. Then what is read from the text is what was meant.

The proof follows the reader. A character of the pattern is one or two characters of the text
(`Mark.spelling_cases`), so each function of the reader on a text is compared with the one on marks,
from the names of classes over sets to pieces. The members of a set are compared up to how they are
written in a regular expression, which does not matter for what they match.

* `pieces_spell` — the pieces of the text are those of the marks.
* `members_spell` — the members of a set are alike.
* **`toOption_atoms_spell`** — a pattern whose quotes count is read from its text as it was meant.
-/

namespace VirtualShell.Glob

/-! ## Spelling -/

/-- How a character of a pattern is put into its text. -/
def Mark.spelling (m : Mark) : List Char := if m.quoted then escapeChar m.char else [m.char]

/-- **The text of a pattern.** -/
def spell (marks : List Mark) : List Char := marks.flatMap Mark.spelling

@[simp] theorem spell_nil : spell [] = [] := rfl

theorem spell_cons (m : Mark) (marks : List Mark) :
    spell (m :: marks) = m.spelling ++ spell marks := rfl

theorem spell_append (marks marks' : List Mark) :
    spell (marks ++ marks') = spell marks ++ spell marks' := List.flatMap_append

/-- **A character in the text** stands after a backslash or alone, and alone it means nothing or was
not quoted. -/
theorem Mark.spelling_cases (m : Mark) :
    m.quoted = true ∧ m.char ∈ specials ∧ m.spelling = ['\\', m.char] ∨
      (∀ c ∈ specials, m.char = c → m = ⟨c, false⟩) ∧ m.spelling = [m.char] := by
  obtain ⟨c, quoted⟩ := m
  cases quoted with
  | false => exact .inr ⟨fun _ _ heq => heq ▸ rfl, rfl⟩
  | true =>
    by_cases hc : c ∈ specials
    · exact .inl ⟨rfl, hc, by simp [spelling, escapeChar, hc]⟩
    · refine .inr ⟨fun _ h heq => ?_, by simp [spelling, escapeChar, hc]⟩
      cases heq
      exact absurd h hc

/-- A special character other than a backslash at the front of the text was not quoted. -/
theorem exists_cons_of_spell {c : Char} (hc : c ∈ specials) (hne : c ≠ '\\') {marks : List Mark}
    {text : List Char} (h : spell marks = c :: text) : ∃ rest, marks = ⟨c, false⟩ :: rest := by
  cases marks with
  | nil => cases h
  | cons m rest =>
    rw [spell_cons] at h
    rcases m.spelling_cases with ⟨-, -, hm⟩ | ⟨hplain, hm⟩
    · rw [hm] at h
      exact absurd (List.cons.inj h).1.symm hne
    · rw [hm] at h
      obtain ⟨rfl, -⟩ := List.cons.inj h
      exact ⟨rest, by rw [← hplain _ hc rfl]⟩

/-! ## Where quotes count -/

/-- **The quotes of two neighbours count**: a backslash takes no quoted character, after an opening
bracket stands no quoted sign that means something there, and no quoted colon ends a class. -/
structure Mark.Clear (m n : Mark) : Prop where
  backslash : m = ⟨'\\', false⟩ → n.quoted = false
  opening : m = ⟨'[', false⟩ → n.char ∈ ['!', '^', ':'] → n.quoted = false
  closing : n = ⟨']', false⟩ → m.char = ':' → m.quoted = false

instance (m n : Mark) : Decidable (m.Clear n) :=
  decidable_of_iff ((m = ⟨'\\', false⟩ → n.quoted = false) ∧
      (m = ⟨'[', false⟩ → n.char ∈ ['!', '^', ':'] → n.quoted = false) ∧
      (n = ⟨']', false⟩ → m.char = ':' → m.quoted = false))
    ⟨fun ⟨h, h', h''⟩ => ⟨h, h', h''⟩, fun ⟨h, h', h''⟩ => ⟨h, h', h''⟩⟩

/-- After a mark next to which quotes count, the text starts with a sign only if the sign was not
quoted. -/
theorem exists_cons_of_isChain {m : Mark} {marks : List Mark} (h : (m :: marks).IsChain Mark.Clear)
    (hm : m = ⟨'[', false⟩) {c : Char} (hc : c ∈ ['!', '^', ':']) {text : List Char}
    (htext : spell marks = c :: text) : ∃ rest, marks = ⟨c, false⟩ :: rest := by
  cases marks with
  | nil => cases htext
  | cons n rest =>
    rw [spell_cons] at htext
    rcases n.spelling_cases with ⟨-, -, hn⟩ | ⟨-, hn⟩
    · rw [hn] at htext
      obtain ⟨rfl, -⟩ := List.cons.inj htext
      simp at hc
    · rw [hn] at htext
      obtain ⟨rfl, -⟩ := List.cons.inj htext
      have hplain := (List.isChain_cons_cons.1 h).1.opening hm hc
      exact ⟨rest, by rw [← hplain]⟩

/-- A backslash that takes no character stands at the end. -/
theorem eq_nil_of_isChain {m : Mark} {marks : List Mark} (h : (m :: marks).IsChain Mark.Clear)
    (hm : m = ⟨'\\', false⟩) (htaken : ∀ c rest, marks ≠ ⟨c, false⟩ :: rest) : marks = [] := by
  cases marks with
  | nil => rfl
  | cons n rest =>
    have hunquoted := (List.isChain_cons_cons.1 h).1.backslash hm
    exact absurd (by rw [← hunquoted]) (htaken n.char rest)

/-- What was read of the marks, as it is in the text. -/
def spellBoth (found : List Mark × List Mark) : List Char × List Char :=
  (spell found.1, spell found.2)

theorem map_spellBoth_cons (m : Mark) (found : Option (List Mark × List Mark)) :
    (found.map fun (read, rest) => (m :: read, rest)).map spellBoth =
      (found.map spellBoth).map fun (read, rest) => (m.spelling ++ read, rest) := by
  cases found <;> rfl

/-! ### Names of classes -/

theorem className?_cons {c : Char} {text : List Char} (h : c = ':' → ∀ rest, text ≠ ']' :: rest) :
    className? (c :: text) = (className? text).map fun (name, rest) => (c :: name, rest) := by
  rw [className?]
  rintro rest rfl rfl
  exact h rfl rest rfl

theorem className?_spelling {m : Mark} {text : List Char}
    (h : m.char = ':' → ∀ rest, text ≠ ']' :: rest) :
    className? (m.spelling ++ text) =
      (className? text).map fun (name, rest) => (m.spelling ++ name, rest) := by
  rcases m.spelling_cases with ⟨-, -, hm⟩ | ⟨-, hm⟩
  · rw [hm, List.cons_append, List.singleton_append,
      className?_cons (fun heq => absurd heq (by decide)), className?_cons h,
      Option.map_map]
    rfl
  · rw [hm, List.singleton_append, className?_cons h]
    rfl

theorem className?_spell {marks : List Mark} (h : marks.IsChain Mark.Clear) :
    className? (spell marks) = (Marked.className? marks).map spellBoth := by
  fun_induction Marked.className? marks with
  | case1 rest => rfl
  | case2 m marks hend ih =>
    rw [map_spellBoth_cons, ← ih h.tail, spell_cons, className?_spelling]
    intro hm rest htext
    obtain ⟨rest, rfl⟩ := exists_cons_of_spell (by decide) (by decide) htext
    have hplain := (List.isChain_cons_cons.1 h).1.closing rfl hm
    exact hend rest (by rw [← hm, ← hplain]) rfl
  | case3 => rfl

/-! ### Sets -/

theorem closed?_cons {c : Char} {text : List Char} (hclose : c ≠ ']')
    (hbackslash : c = '\\' → text = []) (hclass : c = '[' → ∀ rest, text ≠ ':' :: rest) :
    closed? (c :: text) = (closed? text).map fun (body, rest) => (c :: body, rest) := by
  rw [closed?]
  · exact hclose
  · rintro c rest rfl rfl
    cases hbackslash rfl
  · rintro rest rfl rfl
    exact hclass rfl rest rfl

theorem closed?_spelling {m : Mark} {text : List Char} (hclose : m ≠ ⟨']', false⟩)
    (hbackslash : m = ⟨'\\', false⟩ → text = [])
    (hclass : m = ⟨'[', false⟩ → ∀ rest, text ≠ ':' :: rest) :
    closed? (m.spelling ++ text) =
      (closed? text).map fun (body, rest) => (m.spelling ++ body, rest) := by
  rcases m.spelling_cases with ⟨-, -, hm⟩ | ⟨hplain, hm⟩
  · rw [hm, List.cons_append, List.singleton_append, closed?]
    rfl
  · rw [hm, List.singleton_append, closed?_cons]
    · rfl
    · exact fun heq => hclose (hplain ']' (by decide) heq)
    · exact fun heq => hbackslash (hplain '\\' (by decide) heq)
    · exact fun heq => hclass (hplain '[' (by decide) heq)

theorem closed?_spell {marks : List Mark} (h : marks.IsChain Mark.Clear) :
    closed? (spell marks) = (Marked.closed? marks).map spellBoth := by
  fun_induction Marked.closed? marks with
  | case1 =>
    rw [spell_nil, closed?]
    rfl
  | case2 rest =>
    change closed? (']' :: spell rest) = _
    rw [closed?]
    rfl
  | case3 c rest ih =>
    change closed? ('\\' :: c :: spell rest) = _
    rw [closed?, ih h.tail.tail, Option.map_map, Option.map_map]
    rfl
  | case4 marks name rest hname ih =>
    have hmarks : marks.IsChain Mark.Clear := h.tail.tail
    have hfound := className?_spell hmarks
    rw [hname] at hfound
    rw [Marked.append_of_className? hname] at hmarks
    change closed? ('[' :: ':' :: spell marks) = _
    rw [closed?]
    split
    · next name' rest' heq =>
      rw [hfound] at heq
      obtain ⟨rfl, rfl⟩ := heq
      rw [ih hmarks.right_of_append]
      cases Marked.closed? rest with
      | none => rfl
      | some found =>
        simp only [Option.map_some, spellBoth, List.cons_append, spell_cons, spell_append]
        rfl
    · next heq =>
      rw [hfound] at heq
      cases heq
  | case5 marks hname ih =>
    have hmarks : marks.IsChain Mark.Clear := h.tail.tail
    have hfound := className?_spell hmarks
    rw [hname] at hfound
    change closed? ('[' :: ':' :: spell marks) = _
    rw [closed?]
    split
    · next name' rest' heq =>
      rw [hfound] at heq
      cases heq
    · next heq =>
      change (closed? (spell (⟨':', false⟩ :: marks))).map _ = _
      rw [ih h.tail, map_spellBoth_cons]
      rfl
  | case6 m marks hclose hbackslash hclass ih =>
    rw [map_spellBoth_cons, ← ih h.tail, spell_cons, closed?_spelling]
    · exact hclose
    · intro hm
      rw [eq_nil_of_isChain h hm fun c rest => hbackslash c rest hm, spell_nil]
    · intro hm rest htext
      obtain ⟨rest, rfl⟩ := exists_cons_of_isChain h hm (by decide) htext
      exact hclass rest hm rfl

theorem body?_spell {marks : List Mark} (h : marks.IsChain Mark.Clear) :
    body? (spell marks) = (Marked.body? marks).map spellBoth := by
  unfold Marked.body?
  split
  · next rest =>
    change within ']' (closed? (spell rest)) = _
    have hrest : rest.IsChain Mark.Clear := h.tail
    rw [map_spellBoth_cons, ← closed?_spell hrest]
    rfl
  · next hclose =>
    rw [← closed?_spell h]
    unfold body?
    split
    · next rest htext =>
      obtain ⟨rest, rfl⟩ := exists_cons_of_spell (by decide) (by decide) htext
      exact absurd rfl (hclose rest)
    · rfl

/-- A set in the text. -/
def spellSet (found : Bool × List Mark × List Mark) : Glob.Piece × List Char :=
  (.set found.1 (members (spell found.2.1)), spell found.2.2)

theorem set?_of_plain {text : List Char} (h : ∀ c ∈ ['!', '^'], ∀ rest, text ≠ c :: rest) :
    set? text = (body? text).map fun (body, rest) => (.set false (members body), rest) := by
  unfold set?
  split
  next negated rest heq =>
  split at heq
  · exact absurd rfl (h '!' (by simp) _)
  · exact absurd rfl (h '^' (by simp) _)
  · cases heq
    rfl

theorem set?_spell {marks : List Mark} (h : (⟨'[', false⟩ :: marks).IsChain Mark.Clear) :
    set? (spell marks) = (Marked.set? marks).map spellSet := by
  unfold Marked.set?
  split
  · next rest =>
    change (body? (spell rest)).map _ = _
    have hrest : rest.IsChain Mark.Clear := h.tail.tail
    rw [body?_spell hrest, Option.map_map, Option.map_map]
    rfl
  · next rest =>
    change (body? (spell rest)).map _ = _
    have hrest : rest.IsChain Mark.Clear := h.tail.tail
    rw [body?_spell hrest, Option.map_map, Option.map_map]
    rfl
  · next hexclamation hcaret =>
    have hplain : ∀ c ∈ ['!', '^'], ∀ text, spell marks ≠ c :: text := by
      intro c hc text htext
      obtain ⟨rest, rfl⟩ := exists_cons_of_isChain h rfl (by simp at hc ⊢; tauto) htext
      rcases List.mem_pair.1 hc with rfl | rfl
      · exact hexclamation rest rfl
      · exact hcaret rest rfl
    have hmarks : marks.IsChain Mark.Clear := h.tail
    rw [set?_of_plain hplain, body?_spell hmarks, Option.map_map, Option.map_map]
    rfl

/-! ### Pieces -/

/-- A piece as it is read from the text. -/
def Marked.Piece.seen : Marked.Piece → Glob.Piece
  | .star => .star
  | .any => .any
  | .char c => .char c
  | .set negated body => .set negated (Glob.members (spell body))

theorem nextPiece_of_plain {c : Char} {text : List Char} (h : c ∉ ['*', '?', '['])
    (hbackslash : c = '\\' → text = []) : nextPiece c text = (.char c, text) := by
  unfold nextPiece
  split
  · simp at h
  · simp at h
  · rw [hbackslash rfl]
  · simp at h
  · rfl

theorem pieces_cons_spell {m : Mark} {rest : List Mark} (h : (m :: rest).IsChain Mark.Clear) :
    pieces (spell (m :: rest)) =
      (Marked.nextPiece m rest).1.seen :: pieces (spell (Marked.nextPiece m rest).2) := by
  unfold Marked.nextPiece
  split
  · change pieces ('*' :: spell rest) = _
    rw [pieces]
    rfl
  · change pieces ('?' :: spell rest) = _
    rw [pieces]
    rfl
  · next c rest =>
    change pieces ('\\' :: c :: spell rest) = _
    rw [pieces]
    rfl
  · change pieces ('[' :: spell rest) = _
    rw [pieces]
    change (((set? (spell rest)).getD (.char '[', spell rest)).1 ::
      pieces ((set? (spell rest)).getD (.char '[', spell rest)).2) = _
    rw [set?_spell h]
    cases Marked.set? rest with
    | none => rfl
    | some found =>
      obtain ⟨negated, body, rest⟩ := found
      rfl
  · next hstar hany hset hbackslash =>
    rw [spell_cons]
    rcases m.spelling_cases with ⟨-, -, hm⟩ | ⟨hplain, hm⟩
    · rw [hm, List.cons_append, List.singleton_append, pieces]
      rfl
    · have hchar : m.char ∉ ['*', '?', '['] := by
        intro hc
        simp only [List.mem_cons, List.not_mem_nil, or_false] at hc
        rcases hc with hc | hc | hc
        · exact hstar (hplain _ (by decide) hc)
        · exact hany (hplain _ (by decide) hc)
        · exact hset (hplain _ (by decide) hc)
      rw [hm, List.singleton_append, pieces, nextPiece_of_plain hchar]
      · rfl
      · intro hc
        have hm := hplain '\\' (by decide) hc
        rw [eq_nil_of_isChain h hm fun c rest => hbackslash c rest hm, spell_nil]

/-- **The pieces** of the text are those of the marks, each with its own text. -/
theorem pieces_spell {marks : List Mark} (h : marks.IsChain Mark.Clear) :
    pieces (spell marks) = (Marked.pieces marks).map Marked.Piece.seen := by
  fun_induction Marked.pieces marks with
  | case1 =>
    rw [spell_nil, pieces]
    rfl
  | case2 m rest ih =>
    have hrest := (h.tail : rest.IsChain Mark.Clear).suffix (Marked.suffix_nextPiece m rest)
    rw [pieces_cons_spell h, ih hrest, List.map_cons]

/-! ### Members -/

theorem exists_append_of_prefix {name : List Char} (hname : '\\' ∉ name) {marks : List Mark}
    (h : name <+: spell marks) :
    ∃ part rest, marks = part ++ rest ∧ spell part = name ∧ part.map Mark.char = name := by
  induction name generalizing marks with
  | nil => exact ⟨[], marks, rfl, rfl, rfl⟩
  | cons c name ih =>
    rw [List.mem_cons, not_or] at hname
    cases marks with
    | nil => simp at h
    | cons m marks =>
      rw [spell_cons] at h
      rcases m.spelling_cases with ⟨-, -, hm⟩ | ⟨-, hm⟩
      · rw [hm, List.cons_append, List.cons_prefix_cons] at h
        exact absurd h.1.symm hname.1
      · rw [hm, List.singleton_append, List.cons_prefix_cons] at h
        obtain ⟨part, rest, rfl, hspell, hchars⟩ := ih hname.2 h.2
        refine ⟨m :: part, rest, rfl, ?_, by simp [hchars, h.1]⟩
        rw [spell_cons, hm, hspell, h.1]
        rfl

/-- **The quotes in the name of a class count**: what reads as such a name has none. -/
def ClearNames (marks : List Mark) : Prop :=
  ∀ part, part <:+: marks → ∀ c ∈ classes, spell part = c.1.toList → ∀ m ∈ part, m.quoted = false

instance (marks : List Mark) : Decidable (ClearNames marks) :=
  decidable_of_iff (∀ part ∈ marks.tails.flatMap List.inits, ∀ c ∈ classes,
      spell part = c.1.toList → ∀ m ∈ part, m.quoted = false) <| by
    simp only [ClearNames, List.mem_flatMap, List.mem_tails, List.mem_inits,
      List.infix_iff_prefix_suffix, and_comm]

theorem spell_unquoted (name : List Char) : spell (name.map (Mark.mk · false)) = name := by
  induction name with
  | nil => rfl
  | cons c name ih => rw [List.map_cons, spell_cons, ih]; rfl

theorem isPrefixOf_spell {marks : List Mark} (h : ClearNames marks) {c : String × String}
    (hc : c ∈ classes) :
    c.1.toList.isPrefixOf (spell marks) =
      (c.1.toList.map (Mark.mk · false)).isPrefixOf marks := by
  have hbackslash : ∀ c ∈ classes, '\\' ∉ c.1.toList := by decide
  rw [Bool.eq_iff_iff, List.isPrefixOf_iff_prefix, List.isPrefixOf_iff_prefix]
  constructor
  · intro hprefix
    obtain ⟨part, rest, rfl, hspell, hchars⟩ := exists_append_of_prefix (hbackslash c hc) hprefix
    have hplain := h part (List.prefix_append _ _).isInfix c hc hspell
    have hpart : c.1.toList.map (Mark.mk · false) = part := by
      rw [← hchars, List.map_map]
      exact (List.map_congr_left fun m hm => by simp [← hplain m hm]).trans (List.map_id part)
    exact hpart ▸ List.prefix_append _ _
  · rintro ⟨rest, rfl⟩
    rw [spell_append, spell_unquoted]
    exact List.prefix_append _ _

theorem class?_spell {marks : List Mark} (h : ClearNames marks) :
    class? (spell marks) = (Marked.class? marks).map fun found => (found.1, spell found.2) := by
  have hfind : classes.find? (fun c => c.1.toList.isPrefixOf (spell marks)) =
      classes.find? fun c => (c.1.toList.map (Mark.mk · false)).isPrefixOf marks :=
    List.find?_congr fun c hc => isPrefixOf_spell h hc
  rw [class?, Marked.class?, hfind]
  cases hfound : classes.find? fun c => (c.1.toList.map (Mark.mk · false)).isPrefixOf marks with
  | none => rfl
  | some c =>
    have hprefix : (c.1.toList.map (Mark.mk · false)).isPrefixOf marks = true := by
      simpa using List.find?_some hfound
    obtain ⟨rest, rfl⟩ := List.isPrefixOf_iff_prefix.1 hprefix
    rw [Option.map_some, Option.map_some, Option.map_some, spell_append, spell_unquoted,
      List.drop_left' String.length_toList,
      List.drop_left' ((List.length_map _).trans String.length_toList)]

/-- Members that are the same character, both or neither of them the dash of a range. -/
structure Member.Alike (m n : Member) : Prop where
  char : m.char = n.char
  isDash : m.isDash = n.isDash

theorem Member.Alike.refl (m : Member) : m.Alike m := ⟨rfl, rfl⟩

theorem forall₂_alike_refl (members : List Member) : List.Forall₂ Member.Alike members members :=
  List.forall₂_same.2 fun m _ => .refl m

theorem plain_alike_escaped {c : Char} (h : c ≠ '-') : (Member.plain c).Alike (.escaped c) := by
  refine ⟨rfl, ?_⟩
  simp only [Member.isDash, Member.plain, Member.escaped, Regex.quoteChar]
  split <;> split <;> simp [h]

theorem nextMembers_of_class?_eq_none {c : Char} {text : List Char}
    (h : class? (c :: text) = none) (hbackslash : c = '\\' → text = []) :
    nextMembers c text = ([.plain c], text) := by
  rw [nextMembers, h]
  rintro c' rest rfl rfl
  cases hbackslash rfl

theorem members_cons_spell {m : Mark} {rest : List Mark} (h : (m :: rest).IsChain Mark.Clear)
    (hnames : ClearNames (m :: rest)) (hdash : m ≠ ⟨'-', true⟩) :
    ∃ first, members (spell (m :: rest)) = first ++ members (spell (Marked.nextMembers m rest).2) ∧
      List.Forall₂ Member.Alike first (Marked.nextMembers m rest).1 := by
  have hclass := class?_spell hnames
  unfold Marked.nextMembers
  split
  · next found hfound =>
    rw [hfound, Option.map_some] at hclass
    refine ⟨found.1, ?_, forall₂_alike_refl _⟩
    obtain ⟨c, text, htext⟩ : ∃ c text, spell (m :: rest) = c :: text := by
      rw [spell_cons]
      rcases m.spelling_cases with ⟨-, -, hm⟩ | ⟨-, hm⟩ <;> rw [hm] <;> exact ⟨_, _, rfl⟩
    rw [htext] at hclass ⊢
    rw [members]
    unfold nextMembers
    rw [hclass]
  · next hnone =>
    rw [hnone, Option.map_none] at hclass
    split
    · next c rest =>
      refine ⟨[.escaped c], ?_, forall₂_alike_refl _⟩
      change members ('\\' :: c :: spell rest) = _
      change class? ('\\' :: c :: spell rest) = none at hclass
      rw [members, nextMembers, hclass]
    · next c hbackslash =>
      refine ⟨[.plain c], ?_, forall₂_alike_refl _⟩
      change members (c :: spell rest) = _
      change class? (c :: spell rest) = none at hclass
      rw [members, nextMembers_of_class?_eq_none hclass]
      rintro rfl
      rw [eq_nil_of_isChain h rfl fun c rest heq => hbackslash c rest heq rfl, spell_nil]
    · next c =>
      rw [spell_cons] at hclass ⊢
      rcases Mark.spelling_cases ⟨c, true⟩ with ⟨-, -, hm⟩ | ⟨hplain, hm⟩
      · refine ⟨[.escaped c], ?_, forall₂_alike_refl _⟩
        rw [hm] at hclass ⊢
        change members ('\\' :: c :: spell rest) = _
        change class? ('\\' :: c :: spell rest) = none at hclass
        rw [members, nextMembers, hclass]
      · have hdash : c ≠ '-' := fun heq => hdash (by rw [heq])
        refine ⟨[.plain c], ?_, .cons (plain_alike_escaped hdash) .nil⟩
        rw [hm] at hclass ⊢
        change members (c :: spell rest) = _
        change class? (c :: spell rest) = none at hclass
        rw [members, nextMembers_of_class?_eq_none hclass]
        exact fun heq => absurd (hplain '\\' (by decide) heq) (by simp)

/-- The members of the text are those of the marks, if no dash was quoted. -/
theorem members_spell {body : List Mark} (h : body.IsChain Mark.Clear) (hnames : ClearNames body)
    (hdash : ⟨'-', true⟩ ∉ body) :
    List.Forall₂ Member.Alike (members (spell body)) (Marked.members body) := by
  fun_induction Marked.members body with
  | case1 =>
    rw [spell_nil, members]
    exact .nil
  | case2 m rest ih =>
    rw [List.mem_cons, not_or] at hdash
    obtain ⟨first, heq, hfirst⟩ := members_cons_spell h hnames (Ne.symm hdash.1)
    have hsuffix := Marked.suffix_nextMembers m rest
    rw [heq]
    have hinfix := (hsuffix.trans (List.suffix_cons m rest)).isInfix
    refine List.rel_append hfirst (ih ((h.tail : rest.IsChain _).suffix hsuffix) ?_ ?_)
    · exact fun part hpart => hnames part (hpart.trans hinfix)
    · exact fun hmem => hdash.2 (hsuffix.subset hmem)

/-! ### Atoms -/

theorem toOption_map {ε α β : Type} (x : Except ε α) (f : α → β) :
    (do let a ← x; return f a : Except ε β).toOption = x.toOption.map f := by
  cases x <;> rfl

/-- Ranges depend on the characters and on which of them are dashes, not on where they stand. -/
theorem toOption_ranges {ms ns : List Member} (h : List.Forall₂ Member.Alike ms ns)
    (offset offset' : Nat) : (ranges offset ms).toOption = (ranges offset' ns).toOption := by
  fun_induction ranges offset ms generalizing ns offset' with
  | case1 =>
    cases h
    rfl
  | case2 =>
    obtain _ | ⟨h, _ | _⟩ := h
    simp [ranges, h.char]
  | case3 =>
    obtain _ | ⟨h, _ | ⟨h', _ | _⟩⟩ := h
    simp [ranges, h.char, h'.char]
  | case4 offset m m' m'' rest hdash hlt =>
    obtain _ | ⟨h, _ | ⟨h', _ | ⟨h'', _⟩⟩⟩ := h
    rw [ranges, if_pos (h'.isDash ▸ hdash), if_pos (by rwa [← h.char, ← h''.char])]
    rfl
  | case5 offset m m' m'' rest hdash hle ih =>
    obtain _ | ⟨h, _ | ⟨h', _ | ⟨h'', hrest⟩⟩⟩ := h
    rw [ranges, if_pos (h'.isDash ▸ hdash), if_neg (by rwa [← h.char, ← h''.char]), toOption_map,
      toOption_map, h.char, h''.char, ih hrest]
  | case6 offset m m' m'' rest hdash ih =>
    obtain _ | ⟨h, _ | ⟨h', _ | ⟨h'', hrest⟩⟩⟩ := h
    rw [ranges, if_neg (h'.isDash ▸ hdash), toOption_map, toOption_map, h.char,
      ih (.cons h' (.cons h'' hrest))]

/-- Pieces of one kind, with members that are alike. -/
def Piece.Alike : Piece → Piece → Prop
  | .set negated ms, .set negated' ns => negated = negated' ∧ List.Forall₂ Member.Alike ms ns
  | p, q => p = q

theorem toOption_atom {p q : Piece} (h : p.Alike q) (offset offset' : Nat) :
    (p.atom offset).toOption = (q.atom offset').toOption := by
  unfold Piece.Alike at h
  split at h
  · next negated ms negated' ns =>
    obtain ⟨rfl, h⟩ := h
    rw [Piece.atom, Piece.atom, toOption_map, toOption_map, toOption_ranges h]
  · next hset =>
    subst h
    cases p with
    | set negated ms => exact (hset negated ms negated ms rfl rfl).elim
    | star | any | char => rfl

theorem toOption_atoms {ps qs : List Piece} (h : List.Forall₂ Piece.Alike ps qs)
    (offset offset' : Nat) : (atoms offset ps).toOption = (atoms offset' qs).toOption := by
  induction h generalizing offset offset' with
  | nil => rfl
  | @cons p q ps qs hpq hrest ih =>
    have hstep (offset : Nat) (p : Piece) (rest : List Piece) :
        (atoms offset (p :: rest)).toOption = (p.atom offset).toOption.bind fun a =>
          (atoms (offset + p.written.length) rest).toOption.map (a :: ·) := by
      rw [atoms]
      cases p.atom offset with
      | error e => rfl
      | ok a => exact toOption_map _ _
    rw [hstep, hstep, toOption_atom hpq offset offset']
    simp only [ih _ (offset' + q.written.length)]

/-! ## Quotes that count -/

/-- **The quotes count**: next to their neighbours, in names of classes and in sets, where a quoted
dash would make a range. -/
structure QuotesCount (marks : List Mark) : Prop where
  neighbours : marks.IsChain Mark.Clear
  names : ClearNames marks
  dashes : ∀ piece ∈ Marked.pieces marks, ⟨'-', true⟩ ∉ piece.body

instance (marks : List Mark) : Decidable (QuotesCount marks) :=
  decidable_of_iff (marks.IsChain Mark.Clear ∧ ClearNames marks ∧
      ∀ piece ∈ Marked.pieces marks, ⟨'-', true⟩ ∉ piece.body)
    ⟨fun ⟨h, h', h''⟩ => ⟨h, h', h''⟩, fun ⟨h, h', h''⟩ => ⟨h, h', h''⟩⟩

theorem seen_alike_meant {piece : Marked.Piece} (h : piece.body.IsChain Mark.Clear)
    (hnames : ClearNames piece.body) (hdash : ⟨'-', true⟩ ∉ piece.body) :
    piece.seen.Alike piece.meant := by
  cases piece with
  | set negated body => exact ⟨rfl, members_spell h hnames hdash⟩
  | star | any | char => rfl

/-- **A pattern is read from its text** as it is read with its quotes. -/
theorem toOption_atoms_spell {marks : List Mark} (h : QuotesCount marks) :
    (atoms 0 (pieces (spell marks))).toOption = Marked.read marks := by
  rw [pieces_spell h.neighbours, Marked.read]
  refine toOption_atoms (List.forall₂_map_left_iff.2 (List.forall₂_map_right_iff.2
    (List.forall₂_same.2 fun piece hpiece => ?_))) 0 0
  have hbody := Marked.infix_body hpiece
  have hneighbours : piece.body.IsChain Mark.Clear := List.IsChain.infix h.neighbours hbody
  exact seen_alike_meant hneighbours (fun part hpart => h.names part (hpart.trans hbody))
    (h.dashes piece hpiece)

end VirtualShell.Glob
