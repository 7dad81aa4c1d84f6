import Mathlib
import VirtualShell.Proofs.Glob.Quoting
import VirtualShell.Proofs.Glob.Translation

/-!
# What written patterns mean

A pattern is written term by term: a character that means nothing, any character after a backslash, a
star, a question mark, or brackets around single characters, ranges and named classes. Each term says
by itself which parts of a text it takes, without a word about how patterns are read. Translating the
pattern to a regular expression and matching that gives just this: the text is cut into parts, one
for each term.

The proof follows the reader from the inside out. Between brackets each member is read as one or more
single characters and ranges (`Block`), the bracket that closes the set is the one that was written
(`closed?_items`), and so each term is read as one atom (`pieces_term`, `atoms_terms`).

* `Term` — a term of a pattern; `Term.text` — how it is written; `Term.Takes` — what it takes.
* `ranges_blocks` — the ranges that members of a set are read as.
* `Term.takes_atom_iff` — the atom of a term takes what the term takes.
* **`isMatchOf_text`** — a written pattern matches the texts that its terms make up.
-/

namespace VirtualShell.Glob

/-! ## Written patterns -/

/-- The characters that mean something between brackets. -/
def bracketSigns : List Char := [']', '[', '\\', '-', '!', '^']

/-- **A character between brackets**, as it is or after a backslash. As it is, it means nothing. -/
structure Letter where
  char : Char
  escaped : Bool
  clear : escaped = false → char ∉ bracketSigns

/-- How a character between brackets is written. -/
def Letter.text (l : Letter) : List Char := if l.escaped then ['\\', l.char] else [l.char]

/-- The classes of characters that have a name. -/
inductive NamedClass where
  | alpha
  | digit
  | alnum
  | upper
  | lower
  | space
  | blank
  | punct
  | xdigit
  deriving DecidableEq, Repr

namespace NamedClass

/-- How a class is written between brackets. -/
def text : NamedClass → String
  | alpha => "[:alpha:]"
  | digit => "[:digit:]"
  | alnum => "[:alnum:]"
  | upper => "[:upper:]"
  | lower => "[:lower:]"
  | space => "[:space:]"
  | blank => "[:blank:]"
  | punct => "[:punct:]"
  | xdigit => "[:xdigit:]"

/-- **The characters of a class**, all of them ASCII. Punctuation is what can be seen and is neither
letter nor digit. -/
def holds : NamedClass → Char → Bool
  | alpha, c => c.isAlpha
  | digit, c => c.isDigit
  | alnum, c => c.isAlphanum
  | upper, c => c.isUpper
  | lower, c => c.isLower
  | space, c => c ∈ [' ', '\t', '\n', '\x0b', '\x0c', '\r']
  | blank, c => c ∈ [' ', '\t']
  | punct, c => '!' ≤ c && c ≤ '~' && !c.isAlphanum
  | xdigit, c => c.isDigit || ('a' ≤ c && c ≤ 'f') || ('A' ≤ c && c ≤ 'F')

end NamedClass

/-- **A member of a set** as it is written between brackets. -/
inductive Item where
  | single (l : Letter)
  | range (first last : Letter) (ordered : first.char ≤ last.char)
  | named (k : NamedClass)

namespace Item

/-- How a member is written. -/
def text : Item → List Char
  | single l => l.text
  | range first last _ => first.text ++ '-' :: last.text
  | named k => k.text.toList

/-- The characters of a member. -/
def Holds : Item → Char → Prop
  | single l, c => c = l.char
  | range first last _, c => first.char ≤ c ∧ c ≤ last.char
  | named k, c => k.holds c = true

end Item

/-- The signs that turn a set into all other characters. -/
inductive Sign where
  | exclamation
  | caret
  deriving DecidableEq, Repr

/-- How a sign is written. -/
def Sign.char : Sign → Char
  | exclamation => '!'
  | caret => '^'

/-- **A term of a pattern.** -/
inductive Term where
  | plain (c : Char) (clear : c ∉ ['*', '?', '[', '\\'])
  | escaped (c : Char)
  | star
  | any
  /-- The characters of some members, or with a sign all others. -/
  | bracket (sign : Option Sign) (members : List Item) (nonempty : members ≠ [])

namespace Term

/-- How a term is written. -/
def text : Term → List Char
  | plain c _ => [c]
  | escaped c => ['\\', c]
  | star => ['*']
  | any => ['?']
  | bracket sign members _ =>
    '[' :: (sign.map Sign.char).toList ++ members.flatMap Item.text ++ [']']

/-- **What a term takes** of a text. -/
def Takes : Term → List Char → Prop
  | plain c _, part | escaped c, part => part = [c]
  | star, _ => True
  | any, part => ∃ c, part = [c]
  | bracket sign members _, part =>
    ∃ c, part = [c] ∧ ((∃ m ∈ members, m.Holds c) ↔ sign = none)

end Term

/-- The text of a pattern. -/
def textOf (pattern : List Term) : String := String.ofList (pattern.flatMap Term.text)

/-! ## Members of sets -/

/-- Members that are read as one range: a single one, or two with a dash between them. -/
inductive Block where
  | one (m : Member)
  | range (first last : Member)

namespace Block

/-- The members of a block. -/
def members : Block → List Member
  | one m => [m]
  | range first last => [first, .plain '-', last]

/-- The range of a block. -/
def bounds : Block → Char × Char
  | one m => (m.char, m.char)
  | range first last => (first.char, last.char)

/-- A block does not start with the dash of a range, and its ends are in order. -/
def IsProper : Block → Prop
  | one m => m.isDash = false
  | range first last => first.isDash = false ∧ first.char ≤ last.char

end Block

/-- A member after which no dash comes stands alone. -/
theorem ranges_cons {m : Member} {rest : List Member} (h : ∀ n ∈ rest.head?, n.isDash = false)
    (offset : Nat) : ranges offset (m :: rest) = do
      let more ← ranges (offset + m.written.length) rest
      return (m.char, m.char) :: more := by
  cases rest with
  | nil => rfl
  | cons n rest =>
    cases rest with
    | nil => rfl
    | cons n' rest =>
      have hdash : n.isDash = false := h n rfl
      rw [ranges, if_neg (by simp [hdash])]

theorem isDash_head?_blocks {blocks : List Block} (h : ∀ b ∈ blocks, b.IsProper) :
    ∀ n ∈ (blocks.flatMap Block.members).head?, n.isDash = false := by
  cases blocks with
  | nil => simp
  | cons b blocks =>
    have hb := h b List.mem_cons_self
    cases b with
    | one m =>
      have hm : m.isDash = false := hb
      simpa [Block.members] using hm
    | range first last => simpa [Block.members] using hb.1

instance : (b : Block) → Decidable b.IsProper
  | .one m => inferInstanceAs (Decidable (m.isDash = false))
  | .range first last => inferInstanceAs (Decidable (first.isDash = false ∧ first.char ≤ last.char))

/-- **Proper blocks are read as their ranges.** -/
theorem ranges_blocks {blocks : List Block} (h : ∀ b ∈ blocks, b.IsProper) (offset : Nat) :
    ranges offset (blocks.flatMap Block.members) = .ok (blocks.map Block.bounds) := by
  induction blocks generalizing offset with
  | nil => rfl
  | cons b blocks ih =>
    have hblocks : ∀ b ∈ blocks, b.IsProper := fun b hb => h b (List.mem_cons_of_mem _ hb)
    have hrest := ih hblocks
    cases b with
    | one m =>
      change ranges offset (m :: blocks.flatMap Block.members) = _
      rw [ranges_cons (isDash_head?_blocks hblocks), hrest]
      rfl
    | range first last =>
      obtain ⟨-, hordered⟩ := h (.range first last) List.mem_cons_self
      have hdash : (Member.plain '-').isDash = true := rfl
      change ranges offset (first :: .plain '-' :: last :: blocks.flatMap Block.members) = _
      rw [ranges, if_pos hdash, if_neg (not_lt.2 hordered), hrest]
      rfl

/-! ### Letters -/

namespace Letter

/-- How a character between brackets is read. -/
def member (l : Letter) : Member := if l.escaped then .escaped l.char else .plain l.char

@[simp] theorem char_member (l : Letter) : l.member.char = l.char := by
  unfold member
  split <;> rfl

theorem isDash_member (l : Letter) : l.member.isDash = false := by
  unfold member
  split
  · simp only [Member.isDash, Member.escaped, Regex.quoteChar]
    split
    · simp
    · next hc =>
      have hne : l.char ≠ '-' := fun heq => hc (heq ▸ by decide)
      simp [hne]
  · next hplain =>
    have hne : l.char ≠ '-' := fun heq => l.clear (by simpa using hplain) (heq ▸ by decide)
    simp only [Member.isDash, Member.plain]
    split <;> simp [hne]

/-- A character as it is, or one after a backslash. -/
theorem text_cases (l : Letter) :
    l.text = ['\\', l.char] ∧ l.member = .escaped l.char ∨
      l.char ∉ bracketSigns ∧ l.text = [l.char] ∧ l.member = .plain l.char := by
  obtain ⟨c, escaped, clear⟩ := l
  cases escaped with
  | true => exact .inl ⟨rfl, rfl⟩
  | false => exact .inr ⟨clear rfl, rfl, rfl⟩

end Letter

/-! ### Classes -/

namespace NamedClass

/-- The members that a class stands for. -/
def members (k : NamedClass) : List Member := membersOf ((classes.lookup k.text).getD "")

/-- The ranges of a class; the members of the classes without ranges are single characters. -/
def blocks : NamedClass → List Block
  | alpha => [.range (.plain 'a') (.plain 'z'), .range (.plain 'A') (.plain 'Z')]
  | digit => [.range (.plain '0') (.plain '9')]
  | alnum => [.range (.plain 'a') (.plain 'z'), .range (.plain 'A') (.plain 'Z'),
      .range (.plain '0') (.plain '9')]
  | upper => [.range (.plain 'A') (.plain 'Z')]
  | lower => [.range (.plain 'a') (.plain 'z')]
  | xdigit => [.range (.plain '0') (.plain '9'), .range (.plain 'a') (.plain 'f'),
      .range (.plain 'A') (.plain 'F')]
  | k => k.members.map .one

theorem members_eq (k : NamedClass) : k.members = k.blocks.flatMap Block.members := by
  cases k <;> decide +kernel

theorem isProper_of_mem_blocks (k : NamedClass) : ∀ b ∈ k.blocks, b.IsProper := by
  cases k <;> decide +kernel

theorem class?_text (k : NamedClass) (text : List Char) :
    class? (k.text.toList ++ text) = some (k.members, text) := by
  cases k <;> rfl

/-- The name of a class goes up to the signs that close it. -/
theorem exists_className (k : NamedClass) : ∃ name, k.text.toList = '[' :: ':' :: name ∧
    ∀ text, className? (name ++ text) = some (name, text) := by
  cases k <;> exact ⟨_, rfl, fun _ => rfl⟩

theorem toNat_lt_of_le {c d : Char} (h : c ≤ d) (hd : d.toNat < 128) : c.toNat < 128 :=
  lt_of_le_of_lt h hd

theorem toNat_lt_of_isAlphanum {c : Char} (h : c.isAlphanum = true) : c.toNat < 128 := by
  simp [Char.isAlphanum, Char.isAlpha, Char.isUpper, Char.isLower, Char.isDigit,
    UInt32.le_iff_toNat_le] at h
  omega

/-- Classes hold ASCII characters only. -/
theorem toNat_lt_of_holds {k : NamedClass} {c : Char} (h : k.holds c = true) : c.toNat < 128 := by
  have hmem {cs : List Char} (hcs : ∀ d ∈ cs, d.toNat < 128) (hc : decide (c ∈ cs) = true) :
      c.toNat < 128 := hcs c (of_decide_eq_true hc)
  cases k with
  | alpha | digit | alnum | upper | lower =>
    refine toNat_lt_of_isAlphanum ?_
    simp_all [holds, Char.isAlphanum, Char.isAlpha]
  | space | blank => exact hmem (by simp) h
  | punct =>
    simp only [holds, Bool.and_eq_true, decide_eq_true_eq] at h
    exact toNat_lt_of_le h.1.2 (by decide)
  | xdigit =>
    simp only [holds, Bool.or_eq_true, Bool.and_eq_true, decide_eq_true_eq] at h
    rcases h with (h | h) | h
    · exact toNat_lt_of_isAlphanum (by simp [Char.isAlphanum, h])
    · exact toNat_lt_of_le h.2 (by decide)
    · exact toNat_lt_of_le h.2 (by decide)

/-- **The ranges of a class** are its characters. Both are ASCII, and there they are compared. -/
theorem inRanges_blocks (k : NamedClass) (c : Char) :
    inRanges (k.blocks.map Block.bounds) c = k.holds c := by
  have hascii : ∀ n < 128,
      inRanges (k.blocks.map Block.bounds) (Char.ofNat n) = k.holds (Char.ofNat n) := by
    cases k <;> decide +kernel
  have hbounds : ∀ r ∈ k.blocks.map Block.bounds, r.2.toNat < 128 := by
    cases k <;> decide +kernel
  by_cases hsmall : c.toNat < 128
  · simpa using hascii c.toNat hsmall
  · have hholds : k.holds c = false := Bool.eq_false_iff.2 fun h => hsmall (toNat_lt_of_holds h)
    rw [hholds, inRanges, List.any_eq_false]
    intro r hr hc
    rw [Bool.and_eq_true, decide_eq_true_eq, decide_eq_true_eq] at hc
    exact hsmall (toNat_lt_of_le hc.2 (hbounds r hr))

end NamedClass

/-! ### Items -/

namespace Item

/-- How a member of a set is read. -/
def blocks : Item → List Block
  | single l => [.one l.member]
  | range first last _ => [.range first.member last.member]
  | named k => k.blocks

theorem isProper_of_mem_blocks (m : Item) : ∀ b ∈ m.blocks, b.IsProper := by
  cases m with
  | single l => simpa [blocks, Block.IsProper] using l.isDash_member
  | range first last ordered => simpa [blocks, Block.IsProper, first.isDash_member] using ordered
  | named k => exact k.isProper_of_mem_blocks

/-- **The ranges of a member** are its characters. -/
theorem inRanges_blocks (m : Item) (c : Char) :
    inRanges (m.blocks.map Block.bounds) c = true ↔ m.Holds c := by
  cases m with
  | single l =>
    simp only [blocks, Block.bounds, inRanges, Holds, List.map_cons, List.map_nil, List.any_cons,
      List.any_nil, Bool.or_false, Bool.and_eq_true, decide_eq_true_eq, Letter.char_member]
    exact ⟨fun h => le_antisymm h.2 h.1, fun h => ⟨h.ge, h.le⟩⟩
  | range first last ordered => simp [blocks, Block.bounds, inRanges, Holds]
  | named k => rw [blocks, k.inRanges_blocks, Holds]

end Item

/-! ### Sets -/

theorem closed?_letter (l : Letter) (text : List Char) :
    closed? (l.text ++ text) = (closed? text).map fun (body, rest) => (l.text ++ body, rest) := by
  rcases l.text_cases with ⟨htext, -⟩ | ⟨hclear, htext, -⟩
  · rw [htext, List.cons_append, List.singleton_append, closed?]
    rfl
  · have hne {c : Char} (hc : c ∈ bracketSigns) : l.char ≠ c := fun heq => hclear (heq ▸ hc)
    rw [htext, List.singleton_append, closed?_cons (hne (by decide))
      (fun heq => absurd heq (hne (by decide))) (fun heq => absurd heq (hne (by decide)))]
    rfl

/-- **The bracket that closes a set** does not stand in a member of it. -/
theorem closed?_item (m : Item) (text : List Char) :
    closed? (m.text ++ text) = (closed? text).map fun (body, rest) => (m.text ++ body, rest) := by
  cases m with
  | single l => exact closed?_letter l text
  | range first last ordered =>
    have hdash : closed? ('-' :: (last.text ++ text)) =
        (closed? (last.text ++ text)).map fun (body, rest) => ('-' :: body, rest) :=
      closed?_cons (by decide) (by simp) (by simp)
    rw [Item.text, List.append_assoc, List.cons_append, closed?_letter, hdash, closed?_letter,
      Option.map_map, Option.map_map]
    simp [Function.comp_def]
  | named k =>
    obtain ⟨name, htext, hname⟩ := k.exists_className
    rw [Item.text, htext, List.cons_append, List.cons_append, closed?]
    split
    · next name' rest heq =>
      rw [hname text] at heq
      cases heq
      simp
    · next heq =>
      rw [hname text] at heq
      cases heq

theorem closed?_items (items : List Item) (text : List Char) :
    closed? (items.flatMap Item.text ++ ']' :: text) = some (items.flatMap Item.text, text) := by
  induction items with
  | nil =>
    change closed? (']' :: text) = _
    rw [closed?]
    rfl
  | cons m items ih => rw [List.flatMap_cons, List.append_assoc, closed?_item, ih]; rfl

theorem class?_eq_none {c : Char} (h : c ≠ '[') (text : List Char) : class? (c :: text) = none := by
  have hnames : ∀ k ∈ classes, k.1.toList.head? = some '[' := by decide
  rw [class?, Option.map_eq_none_iff, List.find?_eq_none]
  intro k hk hstart
  have hhead := hnames k hk
  cases hname : k.1.toList with
  | nil => simp [hname] at hhead
  | cons d name =>
    rw [hname, List.isPrefixOf_iff_prefix, List.cons_prefix_cons] at hstart
    rw [hname] at hhead
    exact h (hstart.1.symm.trans (Option.some.inj hhead))

theorem members_letter (l : Letter) (text : List Char) :
    members (l.text ++ text) = l.member :: members text := by
  rcases l.text_cases with ⟨htext, hmember⟩ | ⟨hclear, htext, hmember⟩
  · have hclass : class? ('\\' :: l.char :: text) = none := class?_eq_none (by decide) _
    rw [htext, hmember, List.cons_append, List.singleton_append, members, nextMembers, hclass]
    rfl
  · have hne {c : Char} (hc : c ∈ bracketSigns) : l.char ≠ c := fun heq => hclear (heq ▸ hc)
    rw [htext, hmember, List.singleton_append, members,
      nextMembers_of_class?_eq_none (class?_eq_none (hne (by decide)) text)
        (fun heq => absurd heq (hne (by decide)))]
    rfl

/-- **A member is read as its blocks.** -/
theorem members_item (m : Item) (text : List Char) :
    members (m.text ++ text) = m.blocks.flatMap Block.members ++ members text := by
  cases m with
  | single l => exact members_letter l text
  | range first last ordered =>
    have hdash : members ('-' :: (last.text ++ text)) =
        .plain '-' :: members (last.text ++ text) := by
      rw [members, nextMembers_of_class?_eq_none (class?_eq_none (by decide) _) (by simp)]
      rfl
    rw [Item.text, List.append_assoc, List.cons_append, members_letter, hdash, members_letter]
    rfl
  | named k =>
    obtain ⟨name, htext, -⟩ := k.exists_className
    have hclass := k.class?_text text
    rw [Item.text, Item.blocks, ← k.members_eq]
    rw [htext, List.cons_append] at hclass ⊢
    rw [members]
    unfold nextMembers
    rw [hclass]

theorem members_items (items : List Item) :
    members (items.flatMap Item.text) = (items.flatMap Item.blocks).flatMap Block.members := by
  induction items with
  | nil =>
    rw [List.flatMap_nil, members]
    rfl
  | cons m items ih =>
    rw [List.flatMap_cons, members_item, ih, List.flatMap_cons, List.flatMap_append]

/-- The first character of a member does not close a set, and is no sign. -/
theorem Item.exists_text_eq_cons (m : Item) : ∃ c text, m.text = c :: text ∧ c ∉ [']', '!', '^'] := by
  have hletter (l : Letter) : ∃ c text, l.text = c :: text ∧ c ∉ [']', '!', '^'] := by
    rcases l.text_cases with ⟨htext, -⟩ | ⟨hclear, htext, -⟩
    · exact ⟨_, _, htext, by decide⟩
    · have hsub : [']', '!', '^'] ⊆ bracketSigns := by decide
      exact ⟨_, _, htext, fun hc => hclear (hsub hc)⟩
  cases m with
  | single l => exact hletter l
  | range first last ordered =>
    obtain ⟨c, text, htext, hc⟩ := hletter first
    exact ⟨c, text ++ '-' :: last.text, by rw [Item.text, htext, List.cons_append], hc⟩
  | named k =>
    obtain ⟨name, htext, -⟩ := k.exists_className
    exact ⟨'[', ':' :: name, htext, by decide⟩

theorem exists_items_eq_cons {items : List Item} (h : items ≠ []) :
    ∃ c text, items.flatMap Item.text = c :: text ∧ c ∉ [']', '!', '^'] := by
  obtain ⟨m, items, rfl⟩ := List.exists_cons_of_ne_nil h
  obtain ⟨c, text, htext, hc⟩ := m.exists_text_eq_cons
  exact ⟨c, text ++ items.flatMap Item.text, by rw [List.flatMap_cons, htext, List.cons_append], hc⟩

theorem body?_items {items : List Item} (h : items ≠ []) (text : List Char) :
    body? (items.flatMap Item.text ++ ']' :: text) = some (items.flatMap Item.text, text) := by
  have hclosed := closed?_items items text
  obtain ⟨c, rest, htext, hc⟩ := exists_items_eq_cons h
  rw [htext, List.cons_append] at hclosed ⊢
  unfold body?
  split
  · next heq =>
    obtain ⟨rfl, -⟩ := List.cons.inj heq
    simp at hc
  · exact hclosed

/-- **A set is read as it is written**: what stands between its brackets, without the sign. -/
theorem set?_items (sign : Option Sign) {items : List Item} (h : items ≠ []) (text : List Char) :
    set? ((sign.map Sign.char).toList ++ (items.flatMap Item.text ++ ']' :: text)) =
      some (.set sign.isSome (members (items.flatMap Item.text)), text) := by
  have hbody := body?_items h text
  cases sign with
  | none =>
    rw [Option.map_none, Option.toList_none, List.nil_append, set?_of_plain, hbody]
    · rfl
    · intro c hc rest heq
      obtain ⟨c', rest', htext, hc'⟩ := exists_items_eq_cons h
      rw [htext, List.cons_append] at heq
      obtain ⟨rfl, -⟩ := List.cons.inj heq
      exact hc' (List.mem_cons_of_mem _ hc)
  | some sign =>
    cases sign with
    | exclamation | caret =>
      change (body? (items.flatMap Item.text ++ ']' :: text)).map
        (fun (body, rest) => (Piece.set true (members body), rest)) = _
      rw [hbody]
      rfl

/-! ## Patterns -/

namespace Term

/-- How a term is read. -/
def piece : Term → Piece
  | plain c _ | escaped c => .char c
  | star => .star
  | any => .any
  | bracket sign items _ => .set sign.isSome (Glob.members (items.flatMap Item.text))

/-- What a term stands for when its ranges are read. -/
def atom : Term → Atom
  | plain c _ | escaped c => .char c
  | star => .star
  | any => .any
  | bracket sign items _ => .set sign.isSome ((items.flatMap Item.blocks).map Block.bounds)

theorem atom_piece (t : Term) (offset : Nat) : t.piece.atom offset = .ok t.atom := by
  cases t with
  | bracket sign items nonempty =>
    have hproper : ∀ b ∈ items.flatMap Item.blocks, b.IsProper := by
      intro b hb
      obtain ⟨m, -, hm⟩ := List.mem_flatMap.1 hb
      exact m.isProper_of_mem_blocks b hm
    rw [piece, Piece.atom, members_items, ranges_blocks hproper]
    rfl
  | plain | escaped | star | any => rfl

/-- **The atom of a term** takes what the term takes. -/
theorem takes_atom_iff (t : Term) (part : List Char) : t.atom.Takes part ↔ t.Takes part := by
  cases t with
  | plain c _ | escaped c => simp [atom, Atom.Takes, Atom.holds, Takes]
  | star => rfl
  | any => simp [atom, Atom.Takes, Atom.holds, Takes]
  | bracket sign items nonempty =>
    have hranges (c : Char) :
        inRanges ((items.flatMap Item.blocks).map Block.bounds) c = true ↔
          ∃ m ∈ items, m.Holds c := by
      simp only [← Item.inRanges_blocks, inRanges, List.map_flatMap, List.any_flatMap,
        List.any_eq_true]
    refine exists_congr fun c => and_congr_right fun _ => ?_
    rw [atom, Atom.holds, ← hranges, bne_iff_ne]
    cases sign <;> simp

end Term

theorem pieces_term (t : Term) (text : List Char) :
    pieces (t.text ++ text) = t.piece :: pieces text := by
  cases t with
  | plain c clear =>
    have hne {d : Char} (hd : d ∈ ['*', '?', '[', '\\']) : c ≠ d := fun heq => clear (heq ▸ hd)
    rw [Term.text, List.singleton_append, pieces, nextPiece_of_plain]
    · rfl
    · exact fun hc => clear (List.mem_append_left ['\\'] hc)
    · exact fun heq => absurd heq (hne (by decide))
  | escaped c =>
    change pieces ('\\' :: c :: text) = _
    rw [pieces]
    rfl
  | star =>
    change pieces ('*' :: text) = _
    rw [pieces]
    rfl
  | any =>
    change pieces ('?' :: text) = _
    rw [pieces]
    rfl
  | bracket sign items nonempty =>
    have hset := set?_items sign nonempty text
    have htext : (Term.bracket sign items nonempty).text ++ text =
        '[' :: ((sign.map Sign.char).toList ++ (items.flatMap Item.text ++ ']' :: text)) := by
      simp [Term.text]
    rw [htext, pieces]
    change (((set? _).getD (.char '[', _)).1 :: pieces ((set? _).getD (.char '[', _)).2) = _
    rw [hset]
    rfl

theorem pieces_terms (pattern : List Term) :
    pieces (pattern.flatMap Term.text) = pattern.map Term.piece := by
  induction pattern with
  | nil =>
    rw [List.flatMap_nil, pieces]
    rfl
  | cons t pattern ih => rw [List.flatMap_cons, pieces_term, ih, List.map_cons]

theorem atoms_terms (pattern : List Term) (offset : Nat) :
    atoms offset (pattern.map Term.piece) = .ok (pattern.map Term.atom) := by
  induction pattern generalizing offset with
  | nil => rfl
  | cons t pattern ih =>
    rw [List.map_cons, atoms, t.atom_piece, ih]
    rfl

/-- A pattern matches a text that is cut into parts, one for each atom. -/
theorem matches_iff_parts {pattern : List Atom} {text : List Char} : Matches pattern text ↔
    ∃ parts, text = parts.flatten ∧ List.Forall₂ Atom.Takes pattern parts := by
  induction pattern generalizing text with
  | nil => simp [matches_nil_iff]
  | cons a pattern ih =>
    rw [matches_cons_iff]
    constructor
    · rintro ⟨part, rest, rfl, ha, h⟩
      obtain ⟨parts, rfl, hparts⟩ := ih.1 h
      exact ⟨part :: parts, rfl, .cons ha hparts⟩
    · rintro ⟨parts, rfl, hparts⟩
      cases hparts with
      | @cons _ part _ parts ha hparts =>
        exact ⟨part, parts.flatten, rfl, ha, ih.2 ⟨parts, rfl, hparts⟩⟩

/-- **A written pattern matches** exactly the texts that are cut into parts, one after another, each
of which is taken by the term in its place: so do the atoms that it is read as, and so does the
regular expression that it is translated to. -/
theorem isMatchOf_text (named? : String → Option Char) (pattern : List Term) :
    ∃ regex, Regex.compile named? translationFlags (translation (textOf pattern)) = .ok regex ∧
      ∀ value : String, isMatchOf (textOf pattern) value = .ok (regex.isFullMatch value) ∧
        (regex.isFullMatch value = true ↔
          ∃ parts, value.toList = parts.flatten ∧ List.Forall₂ Term.Takes pattern parts) := by
  have hcompile : compile (textOf pattern) = .ok (pattern.map Term.atom) := by
    rw [compile, textOf, String.toList_ofList, pieces_terms]
    simp only [atoms_terms]
  have htranslation := compile_translation named? (textOf pattern)
  rw [hcompile] at htranslation
  obtain ⟨regex, hregex, hmatch⟩ := htranslation
  refine ⟨regex, hregex, fun value => ⟨?_, ?_⟩⟩
  · rw [isMatchOf_eq named?, hregex]
    rfl
  · rw [hmatch, isMatch_iff, matches_iff_parts]
    simp only [List.forall₂_map_left_iff, Term.takes_atom_iff]

end VirtualShell.Glob
