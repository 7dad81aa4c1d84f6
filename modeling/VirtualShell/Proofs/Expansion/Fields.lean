import Mathlib
import VirtualShell.Expansion.Segment

/-!
# Field splitting

What is split is the text of the segments as one sequence of characters, each with the knowledge
whether it was quoted and whether it may separate fields. Quotes with nothing between them are an
item of their own, since they make a field.

A delimiter is a run of blank separators, or one other separator with all the blank ones around it.
No delimiter could be longer: what follows it is the end, a field, or, if it has a separator that is
not blank, another separator of that kind. In this last case nothing stands between the two, and
that is an empty field; there is one as well before such a separator at the start. Every other field
has items, be it only quotes with nothing between them.

Splitting is described from the fields to the text: `IsSplit` says how the items were put together.

* `Parts` — fields and delimiters in turn.
* `Field.Splitting.fields_foldl_item` — the program finds the fields that were put together.
* `exists_parts` — every sequence is put together from fields.
* **`Field.ofSegments_eq_iff`** — the fields of some segments are those that their items are put
  together from.
-/

namespace VirtualShell

/-! ## Items -/

/-- A character of some segments, or quotes that hold none. -/
inductive Item where
  | quoted (c : Char)
  /-- A character outside quotes, which may be a separator if it is to be split. -/
  | plain (split : Bool) (c : Char)
  | emptyQuotes
  deriving DecidableEq, Repr

namespace Item

/-- The text that the item adds to a field. -/
def text : Item → List Char
  | .quoted c | .plain _ c => [c]
  | .emptyQuotes => []

/-- What the item adds to the pattern of a field. Only quoted characters are escaped. -/
def pattern : Item → List Char
  | .quoted c => Glob.escapeChar c
  | .plain _ c => [c]
  | .emptyQuotes => []

/-- A separator that is a space, a tab or a line feed. -/
def isBlank (separators : List Char) : Item → Bool
  | .plain true c => c ∈ separators && c ∈ [' ', '\t', '\n']
  | _ => false

/-- A separator that is none of these. -/
def isHard (separators : List Char) : Item → Bool
  | .plain true c => c ∈ separators && c ∉ [' ', '\t', '\n']
  | _ => false

/-- A separator of either kind. -/
def isSeparator (separators : List Char) (i : Item) : Bool :=
  i.isBlank separators || i.isHard separators

end Item

/-- The items of a segment. -/
def Segment.items (s : Segment) : List Item :=
  if s.quoted then
    if s.text.isEmpty then [.emptyQuotes] else s.text.toList.map .quoted
  else s.text.toList.map (.plain s.split)

/-- **The items** of some segments. -/
def itemsOf (segments : List Segment) : List Item := segments.flatMap Segment.items

/-- The field that some items make up. -/
def Field.ofItems (items : List Item) : Field :=
  ⟨String.ofList (items.flatMap Item.text), String.ofList (items.flatMap Item.pattern)⟩

/-! ## Putting fields together -/

section

variable (separators : List Char)

/-- **A delimiter**, and whether it has a separator that is not blank. -/
inductive Delimits : Bool → List Item → Prop
  | blanks {run} (hne : run ≠ []) (hrun : ∀ i ∈ run, i.isBlank separators) : Delimits false run
  | hard {before i after} (hbefore : ∀ i ∈ before, i.isBlank separators)
      (hi : i.isHard separators) (hafter : ∀ i ∈ after, i.isBlank separators) :
      Delimits true (before ++ i :: after)

/-- **A delimiter ends here**: no blank separator follows that it could take, and after blanks alone
no other separator. -/
def EndsDelimiter (hard : Bool) (rest : List Item) : Prop :=
  ∀ i ∈ rest.head?, i.isBlank separators = false ∧ (hard = false → i.isHard separators = false)

/-- **Fields with delimiters between them.** The mark says whether an empty field may come first: it
may at the start, and after a delimiter with a separator that is not blank. -/
inductive Parts : Bool → List Item → List (List Item) → Prop
  /-- After a delimiter at the end there is no field. -/
  | done {mark} : Parts mark [] []
  | last {mark body} (hne : body ≠ []) (hbody : ∀ i ∈ body, i.isSeparator separators = false) :
      Parts mark body [body]
  | field {mark hard body delimiter rest parts} (hne : body ≠ [])
      (hbody : ∀ i ∈ body, i.isSeparator separators = false)
      (hdelimiter : Delimits separators hard delimiter) (hend : EndsDelimiter separators hard rest)
      (hrest : Parts hard rest parts) :
      Parts mark (body ++ (delimiter ++ rest)) (body :: parts)
  /-- Nothing stands before a separator that is not blank. -/
  | empty {i blanks rest parts} (hi : i.isHard separators)
      (hblanks : ∀ i ∈ blanks, i.isBlank separators) (hend : EndsDelimiter separators true rest)
      (hrest : Parts true rest parts) : Parts true (i :: (blanks ++ rest)) ([] :: parts)

/-- **Splitting.** All blank separators at the start are left out. -/
def IsSplit (items : List Item) (parts : List (List Item)) : Prop :=
  ∃ blanks rest, items = blanks ++ rest ∧ (∀ i ∈ blanks, i.isBlank separators) ∧
    EndsDelimiter separators true rest ∧ Parts separators true rest parts

end

/-! ## One item at a time -/

namespace Field.Splitting

variable {separators : List Char}

/-- Read an item. -/
def item (separators : List Char) (s : Splitting) : Item → Splitting
  | .quoted c => s.add [c] (Glob.escapeChar c)
  | .plain split c => s.char separators split c
  | .emptyQuotes => s.add [] []

/-- **A blank separator** ends the field that has begun, if one has. -/
theorem item_of_isBlank {i : Item} (hi : i.isBlank separators) (s : Splitting) :
    s.item separators i = if s.begun then s.finish true else s := by
  match i, hi with
  | .plain true c, hi =>
    have hblank : isBlankSeparator separators c = true := by
      simpa [isBlankSeparator, Item.isBlank, and_comm, or_assoc] using hi
    rw [item, char, hblank]
    rfl

/-- **Another separator** ends a field, which may be empty. After blanks that have ended a field it
goes with them. -/
theorem item_of_isHard {i : Item} (hi : i.isHard separators) (s : Splitting) :
    s.item separators i =
      if s.begun || !s.afterBlank then s.finish false
      else { s with begun := false, afterBlank := false } := by
  match i, hi with
  | .plain true c, hi =>
    rw [Item.isHard, Bool.and_eq_true, decide_eq_true_eq, decide_eq_true_eq] at hi
    have hblank : isBlankSeparator separators c = false := by
      simpa [isBlankSeparator, or_assoc] using fun h => absurd h (by simpa using hi.2)
    rw [item, char, hblank, Bool.and_false, if_neg Bool.false_ne_true, Bool.true_and,
      if_pos (decide_eq_true hi.1)]

/-- **What is no separator** is added to the field. -/
theorem item_of_not_isSeparator {i : Item} (hi : i.isSeparator separators = false)
    (s : Splitting) : s.item separators i = s.add i.text i.pattern := by
  cases i with
  | quoted c => rfl
  | emptyQuotes => rfl
  | plain split c =>
    have hnone : (split && c ∈ separators) = false := by
      cases split with
      | false => rfl
      | true =>
        by_cases hc : c ∈ separators
        · by_cases hblank : c ∈ [' ', '\t', '\n'] <;>
            simp_all [Item.isSeparator, Item.isBlank, Item.isHard]
        · simp [hc]
    have hblank : (split && isBlankSeparator separators c) = false := by
      rw [isBlankSeparator, Bool.and_left_comm, hnone, Bool.and_false]
    rw [item, char, hblank, hnone, if_neg Bool.false_ne_true, if_neg Bool.false_ne_true]
    rfl

/-- Items without a separator make up one field. -/
theorem foldl_item_of_body {body : List Item} (hne : body ≠ [])
    (hbody : ∀ i ∈ body, i.isSeparator separators = false) (s : Splitting) :
    body.foldl (item separators) s =
      s.add (body.flatMap Item.text) (body.flatMap Item.pattern) := by
  obtain ⟨i, body, rfl⟩ := List.exists_cons_of_ne_nil hne
  induction body generalizing s i with
  | nil => simp [item_of_not_isSeparator (hbody i List.mem_cons_self)]
  | cons j body ih =>
    rw [List.foldl_cons, item_of_not_isSeparator (hbody i List.mem_cons_self),
      ih _ j (List.cons_ne_nil _ _) fun k hk => hbody k (List.mem_cons_of_mem _ hk), add_add]
    rfl

/-- Between fields a blank separator changes nothing. -/
theorem foldl_item_of_blanks {blanks : List Item} (hblanks : ∀ i ∈ blanks, i.isBlank separators)
    {s : Splitting} (hs : s.begun = false) : blanks.foldl (item separators) s = s := by
  induction blanks with
  | nil => rfl
  | cons i blanks ih =>
    rw [List.foldl_cons, item_of_isBlank (hblanks i List.mem_cons_self), hs,
      if_neg Bool.false_ne_true, ih fun j hj => hblanks j (List.mem_cons_of_mem _ hj)]

/-- **A delimiter** ends the field, and the program knows of which kind it was. -/
theorem foldl_item_of_delimits {hard : Bool} {delimiter : List Item}
    (h : Delimits separators hard delimiter) {s : Splitting} (hs : s.begun = true) :
    delimiter.foldl (item separators) s = s.finish !hard := by
  cases h with
  | blanks hne hrun =>
    obtain ⟨i, run, rfl⟩ := List.exists_cons_of_ne_nil hne
    rw [List.foldl_cons, item_of_isBlank (hrun i List.mem_cons_self), hs, if_pos rfl,
      foldl_item_of_blanks (fun j hj => hrun j (List.mem_cons_of_mem _ hj)) rfl]
    rfl
  | @hard before i after hbefore hi hafter =>
    rw [List.foldl_append, List.foldl_cons]
    cases before with
    | nil =>
      rw [List.foldl_nil, item_of_isHard hi, hs, Bool.true_or, if_pos rfl,
        foldl_item_of_blanks hafter rfl]
      rfl
    | cons j before =>
      rw [List.foldl_cons, item_of_isBlank (hbefore j List.mem_cons_self), hs, if_pos rfl,
        foldl_item_of_blanks (fun k hk => hbefore k (List.mem_cons_of_mem _ hk)) rfl,
        item_of_isHard hi]
      exact foldl_item_of_blanks hafter rfl

/-- **Reading a segment** is reading its items. -/
theorem foldl_item_items (s : Splitting) {piece : Segment} (h : piece.boundary = false) :
    piece.items.foldl (item separators) s = s.segment separators piece := by
  rw [segment, h, if_neg Bool.false_ne_true, Segment.items]
  split
  · split
    · next hempty =>
      rw [String.isEmpty_iff] at hempty
      rw [hempty]
      rfl
    · next hne =>
      have hbody : ∀ i ∈ piece.text.toList.map Item.quoted, i.isSeparator separators = false := by
        simp [Item.isSeparator, Item.isBlank, Item.isHard]
      rw [foldl_item_of_body (by simpa using hne) hbody]
      simp [Glob.escape, List.flatMap_map, Item.text, Item.pattern]
  · rw [List.foldl_map]
    rfl

/-! ## Fields that were put together are found -/

/-- Nothing of a field is read, and the kind of delimiter before it is known. -/
structure IsFresh (s : Splitting) (mark : Bool) : Prop where
  text : s.text = []
  pattern : s.pattern = []
  begun : s.begun = false
  afterBlank : s.afterBlank = !mark

theorem isFresh_finish (s : Splitting) (hard : Bool) : (s.finish !hard).IsFresh hard :=
  ⟨rfl, rfl, rfl, rfl⟩

theorem IsFresh.finish_add {s : Splitting} {mark : Bool} (hs : s.IsFresh mark) (items : List Item)
    (afterBlank : Bool) :
    ((s.add (items.flatMap Item.text) (items.flatMap Item.pattern)).finish afterBlank).done =
      .ofItems items :: s.done := by
  simp [finish, add, hs.text, hs.pattern, Field.ofItems]

/-- **Fields that were put together** are found, whatever was read before. -/
theorem fields_foldl_item {mark : Bool} {items : List Item}
    {parts : List (List Item)} (h : Parts separators mark items parts) {s : Splitting}
    (hs : s.IsFresh mark) :
    (items.foldl (item separators) s).fields = s.done.reverse ++ parts.map Field.ofItems := by
  induction h generalizing s with
  | done =>
    rw [List.foldl_nil, fields, hs.begun, if_neg Bool.false_ne_true, List.map_nil, List.append_nil]
  | @last mark body hne hbody =>
    rw [foldl_item_of_body hne hbody, fields, if_pos (by rfl), hs.finish_add, List.reverse_cons]
    rfl
  | @field mark hard body delimiter rest parts hne hbody hdelimiter _ _ ih =>
    rw [List.foldl_append, List.foldl_append, foldl_item_of_body hne hbody,
      foldl_item_of_delimits hdelimiter rfl, ih (isFresh_finish _ hard), hs.finish_add,
      List.reverse_cons, List.append_assoc]
    rfl
  | @empty i blanks rest parts hi hblanks _ _ ih =>
    have hfresh : (s.finish false).IsFresh true := isFresh_finish s true
    rw [List.foldl_cons, List.foldl_append, item_of_isHard hi, hs.begun, hs.afterBlank,
      if_pos (by rfl), foldl_item_of_blanks hblanks hfresh.begun, ih hfresh]
    simp [finish, hs.text, hs.pattern, Field.ofItems]

end Field.Splitting

/-! ## Every sequence is put together from fields -/

section

variable (separators : List Char)

theorem exists_span {α : Type} (p : α → Bool) (l : List α) :
    ∃ run rest, l = run ++ rest ∧ (∀ x ∈ run, p x) ∧ ∀ x ∈ rest.head?, p x = false := by
  refine ⟨l.takeWhile p, l.dropWhile p, List.takeWhile_append_dropWhile.symm,
    fun x => List.mem_takeWhile_imp, fun x hx => ?_⟩
  have hnot := List.head?_dropWhile_not p l
  rw [Option.mem_def.1 hx] at hnot
  exact hnot

/-- All blank separators at the front of some items. -/
theorem exists_blanks (items : List Item) :
    ∃ blanks rest, items = blanks ++ rest ∧ (∀ i ∈ blanks, i.isBlank separators) ∧
      EndsDelimiter separators true rest := by
  obtain ⟨blanks, rest, heq, hblanks, hrest⟩ := exists_span (Item.isBlank separators) items
  exact ⟨blanks, rest, heq, hblanks, fun i hi => ⟨hrest i hi, nofun⟩⟩

/-- The delimiter at the front of some items. -/
theorem exists_delimiter {i : Item} (items : List Item) (hi : i.isSeparator separators = true) :
    ∃ hard delimiter rest, i :: items = delimiter ++ rest ∧ Delimits separators hard delimiter ∧
      EndsDelimiter separators hard rest := by
  obtain ⟨before, rest, heq, hbefore, hrest⟩ := exists_span (Item.isBlank separators) (i :: items)
  by_cases hhard : ∃ j ∈ rest.head?, j.isHard separators = true
  · obtain ⟨j, hj, hhard⟩ := hhard
    obtain ⟨tail, rfl⟩ := List.head?_eq_some_iff.1 hj
    obtain ⟨after, rest, rfl, hafter, hend⟩ := exists_blanks separators tail
    exact ⟨true, before ++ j :: after, rest, by rw [heq]; simp, .hard hbefore hhard hafter, hend⟩
  · have hnone : ∀ j ∈ rest.head?, j.isHard separators = false := by simpa using hhard
    refine ⟨false, before, rest, heq, .blanks ?_ hbefore, fun j hj =>
      ⟨hrest j hj, fun _ => hnone j hj⟩⟩
    -- without blanks the first item would be no separator at all
    rintro rfl
    obtain rfl : i :: items = rest := heq
    rw [Item.isSeparator, hrest i rfl, hnone i rfl] at hi
    cases hi

/-- **Every sequence** after a delimiter is put together from fields. -/
theorem exists_parts (mark : Bool) (items : List Item)
    (hend : EndsDelimiter separators mark items) :
    ∃ parts, Parts separators mark items parts := by
  induction hn : items.length using Nat.strongRecOn generalizing mark items with
  | ind n ih =>
    cases items with
    | nil => exact ⟨[], .done⟩
    | cons i items =>
      by_cases hi : i.isHard separators = true
      · obtain rfl : mark = true := by
          by_contra hmark
          rw [(hend i rfl).2 (by simpa using hmark)] at hi
          cases hi
        obtain ⟨blanks, rest, rfl, hblanks, hrest⟩ := exists_blanks separators items
        obtain ⟨parts, hparts⟩ := ih rest.length (by simp at hn; omega) true rest hrest rfl
        exact ⟨[] :: parts, .empty hi hblanks hrest hparts⟩
      · have hbody : i.isSeparator separators = false := by
          rw [Item.isSeparator, (hend i rfl).1, Bool.false_or]
          exact Bool.eq_false_iff.2 hi
        obtain ⟨body, after, rfl, hrun, hafter⟩ :=
          exists_span (fun i => !Item.isSeparator separators i) items
        have hrun : ∀ j ∈ i :: body, j.isSeparator separators = false :=
          List.forall_mem_cons.2 ⟨hbody, fun j hj => by simpa using hrun j hj⟩
        cases after with
        | nil => exact ⟨[i :: body], by simpa using .last (List.cons_ne_nil _ _) hrun⟩
        | cons j after =>
          have hj : j.isSeparator separators = true := by simpa using hafter j rfl
          obtain ⟨hard, delimiter, rest, heq, hdelimiter, hrest⟩ :=
            exists_delimiter separators after hj
          have hlength := congrArg List.length heq
          simp only [List.length_cons, List.length_append] at hlength hn
          have hshort : rest.length < n := by omega
          obtain ⟨parts, hparts⟩ := ih rest.length hshort hard rest hrest rfl
          refine ⟨(i :: body) :: parts, ?_⟩
          rw [heq, ← List.cons_append]
          exact .field (List.cons_ne_nil i body) hrun hdelimiter hrest hparts

theorem exists_isSplit (items : List Item) : ∃ parts, IsSplit separators items parts := by
  obtain ⟨blanks, rest, heq, hblanks, hend⟩ := exists_blanks separators items
  obtain ⟨parts, hparts⟩ := exists_parts separators true rest hend
  exact ⟨parts, blanks, rest, heq, hblanks, hend, hparts⟩

end

/-! ## The fields of segments -/

theorem Field.Splitting.foldl_segment {separators : List Char} {segments : List Segment}
    (h : ∀ s ∈ segments, s.boundary = false) (s : Splitting) :
    segments.foldl (segment separators) s = (itemsOf segments).foldl (item separators) s := by
  induction segments generalizing s with
  | nil => rfl
  | cons piece segments ih =>
    rw [itemsOf, List.flatMap_cons, List.foldl_append,
      foldl_item_items s (h piece List.mem_cons_self), List.foldl_cons,
      ih fun t ht => h t (List.mem_cons_of_mem _ ht)]
    rfl

/-- However the items were put together, the program finds the fields. -/
theorem Field.ofSegments_of_isSplit {separators : String} {segments : List Segment}
    (h : ∀ s ∈ segments, s.boundary = false) {parts : List (List Item)}
    (hparts : IsSplit separators.toList (itemsOf segments) parts) :
    Field.ofSegments separators segments = parts.map Field.ofItems := by
  obtain ⟨blanks, rest, heq, hblanks, -, hrest⟩ := hparts
  rw [ofSegments, Splitting.foldl_segment h, heq, List.foldl_append,
    Splitting.foldl_item_of_blanks hblanks rfl,
    Splitting.fields_foldl_item hrest ⟨rfl, rfl, rfl, rfl⟩]
  rfl

/-- **Field splitting.** The fields of some segments are those that their items are put together
from, with delimiters between them. So they depend on the items alone, and not on how these come in
segments. -/
theorem Field.ofSegments_eq_iff (separators : String) (segments : List Segment)
    (h : ∀ s ∈ segments, s.boundary = false) :
    (∀ fields, Field.ofSegments separators segments = fields ↔
      ∃ parts, IsSplit separators.toList (itemsOf segments) parts ∧
        parts.map Field.ofItems = fields) ∧
    ∀ others : List Segment, (∀ s ∈ others, s.boundary = false) →
      itemsOf others = itemsOf segments →
      Field.ofSegments separators others = Field.ofSegments separators segments := by
  obtain ⟨parts, hparts⟩ := exists_isSplit separators.toList (itemsOf segments)
  refine ⟨fun fields => ⟨?_, ?_⟩, fun others hothers heq => ?_⟩
  · rintro rfl
    exact ⟨parts, hparts, (ofSegments_of_isSplit h hparts).symm⟩
  · rintro ⟨parts, hparts, rfl⟩
    exact ofSegments_of_isSplit h hparts
  · rw [ofSegments_of_isSplit h hparts, ofSegments_of_isSplit hothers (heq ▸ hparts)]

/-- A value between blanks and colons, next to a quoted star. -/
def starAfterColons : List Segment := [.value false " a : :", .literal true "*"]

/-- The first colon goes with the blanks around it, and an empty field stands between the colons. -/
theorem Field.ofSegments_starAfterColons :
    (∀ s ∈ starAfterColons, s.boundary = false) ∧
      Field.ofSegments " :" starAfterColons = [⟨"a", "a"⟩, ⟨"", ""⟩, ⟨"*", "\\*"⟩] := by
  have hends {hard : Bool} {i : Item} {items : List Item} (hblank : i.isBlank " :".toList = false)
      (hhard : hard = false → i.isHard " :".toList = false) :
      EndsDelimiter " :".toList hard (i :: items) := by
    rintro _ ⟨⟩
    exact ⟨hblank, hhard⟩
  have hdelimiter : Delimits " :".toList true
      ([.plain true ' '] ++ .plain true ':' :: [.plain true ' ']) :=
    .hard (by decide) (by decide) (by decide)
  have hstar : Parts " :".toList true [.quoted '*'] [[.quoted '*']] := .last (by decide) (by decide)
  have hcolon : Parts " :".toList true (.plain true ':' :: ([] ++ [.quoted '*']))
      [[], [.quoted '*']] :=
    .empty (by decide) (by decide) (hends (by decide) (by decide)) hstar
  have hparts : Parts " :".toList true ([.plain true 'a'] ++ (_ ++ _))
      [[.plain true 'a'], [], [.quoted '*']] :=
    .field (by decide) (by decide) hdelimiter (hends (by decide) (by decide)) hcolon
  exact ⟨by decide, ((ofSegments_eq_iff " :" starAfterColons (by decide)).1 _).2
    ⟨_, ⟨[.plain true ' '], _, rfl, by decide, hends (by decide) (by decide), hparts⟩, by decide⟩⟩

end VirtualShell
