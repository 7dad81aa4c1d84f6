import Mathlib
import VirtualShell.Proofs.Glob.Match
import VirtualShell.Proofs.Glob.Spelling

/-!
# Quoted characters in patterns

The text of a pattern shows only some of its quotes: a special character after a backslash was
quoted, and all others look as if they were not. These quotes always count, so every pattern matches
what it matches with the quotes that its text shows.

Those are not the quotes that the pattern had, and what it matches may be something else. After an
opening bracket a quoted exclamation mark negates the set, between two members a quoted dash makes
a range, the name of a class may be quoted, and a backslash that was not quoted takes the one before
a quoted star. Without such places a pattern matches what it matches with all of its quotes.

* `shown` — the quotes that a text shows.
* `quotesCount_shown` — they count.
* **`isMatchOf_patternOf`** — what a pattern in segments matches.
-/

namespace VirtualShell

/-- The characters of a segment, each with its quotes. -/
def Segment.marks (s : Segment) : List Glob.Mark := s.text.toList.map (Glob.Mark.mk · s.quoted)

/-- **The characters of a pattern** that comes in segments. -/
def marksOf (segments : List Segment) : List Glob.Mark := segments.flatMap Segment.marks

namespace Glob

/-! ## The quotes that a text shows -/

/-- A character after a backslash in the text. -/
def protect (c : Char) : List Mark :=
  if c ∈ specials then [⟨c, true⟩] else [⟨'\\', false⟩, ⟨c, false⟩]

/-- **The quotes that a text shows.** A special character after a backslash was quoted, and nothing
else was. -/
def shown : List Char → List Mark
  | '\\' :: c :: text => protect c ++ shown text
  | c :: text => ⟨c, false⟩ :: shown text
  | [] => []

theorem spell_protect (c : Char) : spell (protect c) = ['\\', c] := by
  unfold protect
  split
  · next hc => simp [spell, Mark.spelling, escapeChar, hc]
  · rfl

/-- A text is what is made of the quotes that it shows. -/
theorem spell_shown (text : List Char) : spell (shown text) = text := by
  fun_induction shown text with
  | case1 c text ih =>
    rw [spell_append, spell_protect, ih]
    rfl
  | case2 c text _ ih =>
    rw [spell_cons, ih]
    rfl
  | case3 => rfl

/-- Only special characters are shown to be quoted. -/
theorem mem_specials_of_mem_shown {text : List Char} {m : Mark} (h : m ∈ shown text)
    (hm : m.quoted = true) : m.char ∈ specials := by
  fun_induction shown text with
  | case1 c text ih =>
    rcases List.mem_append.1 h with h | h
    · unfold protect at h
      split at h
      · next hc =>
        rw [List.mem_singleton.1 h]
        exact hc
      · rcases List.mem_pair.1 h with rfl | rfl <;> cases hm
    · exact ih h
  | case2 c text _ ih =>
    rcases List.mem_cons.1 h with rfl | h
    · cases hm
    · exact ih h
  | case3 => cases h

/-- After a backslash nothing is shown to be quoted. -/
theorem isChain_shown (text : List Char) :
    (shown text).IsChain fun m n => m = ⟨'\\', false⟩ → n.quoted = false := by
  have hcons {m : Mark} (hm : m ≠ ⟨'\\', false⟩) {marks : List Mark}
      (h : marks.IsChain fun m n => m = ⟨'\\', false⟩ → n.quoted = false) :
      (m :: marks).IsChain fun m n => m = ⟨'\\', false⟩ → n.quoted = false :=
    h.cons fun _ _ heq => absurd heq hm
  fun_induction shown text with
  | case1 c text ih =>
    unfold protect
    split
    · exact hcons (by simp) ih
    · next hc =>
      have hne : c ≠ '\\' := fun heq => hc (heq ▸ by decide)
      exact (hcons (by simpa using hne) ih).cons (by simp)
  | case2 c text hlast ih =>
    by_cases hc : c = '\\'
    · subst hc
      cases text with
      | nil => exact .singleton _
      | cons c' text => exact (hlast c' text rfl rfl).elim
    · exact hcons (by simpa using hc) ih
  | case3 => exact .nil

/-- **The quotes that a text shows count.** -/
theorem quotesCount_shown (text : List Char) : QuotesCount (shown text) := by
  have hplain {m : Mark} (h : m ∈ shown text) (hc : m.char ∉ specials) : m.quoted = false :=
    Bool.eq_false_iff.2 fun hm => hc (mem_specials_of_mem_shown h hm)
  have hsigns {c : Char} (hc : c ∈ ['!', '^', ':']) : c ∉ specials := by
    simp only [List.mem_cons, List.not_mem_nil, or_false] at hc
    rcases hc with rfl | rfl | rfl <;> decide
  have hbackslash : ∀ c ∈ classes, '\\' ∉ c.1.toList := by decide
  refine ⟨(isChain_shown text).imp_of_mem_imp fun m n hm hn h =>
      ⟨h, fun _ hc => ?_, fun _ hc => ?_⟩,
    fun part hpart c hc hspell m hm => ?_, fun piece hpiece hdash => ?_⟩
  · exact hplain hn (hsigns hc)
  · exact hplain hm (hsigns (by simp [hc]))
  · -- a quoted character would bring a backslash into the name
    refine Bool.eq_false_iff.2 fun hquoted => hbackslash c hc ?_
    have hspecial := mem_specials_of_mem_shown (hpart.subset hm) hquoted
    rw [← hspell]
    exact List.mem_flatMap.2 ⟨m, hm, by simp [Mark.spelling, hquoted, escapeChar, hspecial]⟩
  · have := mem_specials_of_mem_shown ((Marked.infix_body hpiece).subset hdash) rfl
    exact absurd this (by decide)

/-! ## Patterns in segments -/

theorem toList_patternOf (segments : List Segment) :
    (Segment.patternOf segments).toList = spell (marksOf segments) := by
  have hone (s : Segment) : s.pattern.toList = spell s.marks := by
    unfold Segment.pattern Segment.marks spell
    cases hquoted : s.quoted with
    | true => simp [escape, List.flatMap_map, Mark.spelling]
    | false => simp [List.flatMap_map, Mark.spelling]
  rw [Segment.patternOf, String.toList_join, List.flatMap_map, marksOf, spell, List.flatMap_assoc]
  exact congrArg (List.flatMap · segments) (funext hone)

theorem toOption_isMatchOf (pattern value : String) :
    (isMatchOf pattern value).toOption =
      (atoms 0 (pieces pattern.toList)).toOption.map (isMatch · value.toList) := by
  rw [isMatchOf, toOption_map, compile]
  cases atoms 0 (pieces pattern.toList) <;> rfl

theorem toOption_isMatchOf_spell {marks : List Mark} (h : QuotesCount marks) {pattern : String}
    (hpattern : pattern.toList = spell marks) (value : String) :
    (isMatchOf pattern value).toOption = Marked.isMatch? marks value.toList := by
  rw [toOption_isMatchOf, hpattern, toOption_atoms_spell h, Marked.isMatch?]
  congr 1
  funext atoms
  rw [Bool.eq_iff_iff, isMatch_iff, decide_eq_true_iff]

/-- **Quoted characters in patterns.** A pattern in segments matches what it matches with the quotes
that its text shows. If its quotes count, a quoted character stands for itself: the pattern matches
what it matches when it is read with all of its quotes. -/
theorem isMatchOf_patternOf (segments : List Segment) (value : String) :
    (isMatchOf (Segment.patternOf segments) value).toOption =
        Marked.isMatch? (shown (Segment.patternOf segments).toList) value.toList ∧
      (QuotesCount (marksOf segments) →
        (isMatchOf (Segment.patternOf segments) value).toOption =
          Marked.isMatch? (marksOf segments) value.toList) :=
  ⟨toOption_isMatchOf_spell (quotesCount_shown _) (spell_shown _).symm value,
    fun h => toOption_isMatchOf_spell h (toList_patternOf segments) value⟩

/-- A set with a class and a range, and quoted characters after it. -/
def quotedSigns : List Segment := [.literal false "[[:digit:]a-c]", .literal true "-!*"]

/-- Its quotes count, so the dash, the exclamation mark and the star match themselves alone. -/
theorem isMatchOf_quotedSigns :
    QuotesCount (marksOf quotedSigns) ∧
      (isMatchOf (Segment.patternOf quotedSigns) "b-!*").toOption = some true ∧
      (isMatchOf (Segment.patternOf quotedSigns) "b-!c").toOption = some false := by
  have hcount : QuotesCount (marksOf quotedSigns) := by decide +kernel
  exact ⟨hcount, ((isMatchOf_patternOf quotedSigns "b-!*").2 hcount).trans (by decide +kernel),
    ((isMatchOf_patternOf quotedSigns "b-!c").2 hcount).trans (by decide +kernel)⟩

/-- Patterns whose quotes do not all count, each with a text: a set with a quoted exclamation mark,
one with a quoted dash, the quoted name of a class, and a quoted star after a backslash. -/
def mistaken : List (List Segment × String) := [
  ([.literal false "[", .literal true "!", .literal false "a]"], "b"),
  ([.literal false "[a", .literal true "-", .literal false "c]"], "b"),
  ([.literal false "[[:", .literal true "alpha", .literal false ":]]"], "b"),
  ([.value false "\\", .literal true "*"], "\\abc")]

/-- They match these texts, and with their quotes they would not. -/
theorem isMatchOf_mistaken :
    (mistaken.map fun (segments, value) => (isMatchOf (Segment.patternOf segments) value).toOption) =
        [some true, some true, some true, some true] ∧
      (mistaken.map fun (segments, value) => Marked.isMatch? (marksOf segments) value.toList) =
        [some false, some false, some false, some false] := by
  decide +kernel

end Glob

end VirtualShell
