import Mathlib
import VirtualShell.Glob.Basic

/-!
# What a glob pattern matches

Each atom of a pattern takes a part of the text, and the parts together are the text. A star takes
any part, every other atom a single character. The matcher finds all rests at once; that it need
keep only the longest one for a star is so because each rest is the end of those before it.

* `Matches` — a pattern matches a text.
* `mem_step_iff` — what one atom leaves.
* **`isMatch_iff`** — the matcher decides whether a pattern matches.
-/

namespace VirtualShell.Glob

/-- The atom can take this part of a text. -/
def Atom.Takes (a : Atom) (part : List Char) : Prop :=
  match a with
  | .star => True
  | a => ∃ c, part = [c] ∧ a.holds c

/-- **The pattern matches the text**: its atoms take the text part by part. -/
inductive Matches : List Atom → List Char → Prop
  | nil : Matches [] []
  | cons {a pattern part text} (ha : a.Takes part) (h : Matches pattern text) :
      Matches (a :: pattern) (part ++ text)

theorem matches_nil_iff {text : List Char} : Matches [] text ↔ text = [] :=
  ⟨fun h => by cases h; rfl, fun h => h ▸ .nil⟩

theorem matches_cons_iff {a : Atom} {pattern : List Atom} {text : List Char} :
    Matches (a :: pattern) text ↔
      ∃ part rest, text = part ++ rest ∧ a.Takes part ∧ Matches pattern rest := by
  constructor
  · rintro ⟨⟩
    next part rest ha h => exact ⟨part, rest, rfl, ha, h⟩
  · rintro ⟨part, rest, rfl, ha, h⟩
    exact .cons ha h

/-! ## One atom -/

theorem mem_ends_iff {text rest : List Char} : rest ∈ ends text ↔ rest <:+ text := by
  induction text with
  | nil => simp [ends]
  | cons c text ih => rw [ends, List.mem_cons, ih, List.suffix_cons_iff]

theorem rest?_eq_some_iff {a : Atom} (ha : a ≠ .star) {text rest : List Char} :
    a.rest? text = some rest ↔ ∃ part, text = part ++ rest ∧ a.Takes part := by
  have htakes (part : List Char) : a.Takes part ↔ ∃ c, part = [c] ∧ a.holds c := by
    cases a <;> first | exact absurd rfl ha | rfl
  simp only [htakes]
  cases text with
  | nil => simp [Atom.rest?]
  | cons c text =>
    by_cases hc : a.holds c <;> simp [Atom.rest?, hc]

/-! ## The rests of a text -/

/-- **Each text is an end** of those before it. -/
def Shrinking (texts : List (List Char)) : Prop := texts.Pairwise fun long short => short <:+ long

theorem shrinking_ends (text : List Char) : Shrinking (ends text) := by
  induction text with
  | nil => simp [Shrinking, ends]
  | cons c text ih =>
    refine List.pairwise_cons.2 ⟨fun rest hrest => ?_, ih⟩
    exact (mem_ends_iff.1 hrest).trans (List.suffix_cons c text)

theorem step_of_ne_star {a : Atom} (ha : a ≠ .star) (texts : List (List Char)) :
    a.step texts = texts.filterMap a.rest? := by
  cases a with
  | star => exact absurd rfl ha
  | any | char | set => cases texts <;> rfl

theorem Shrinking.step {texts : List (List Char)} (h : Shrinking texts) (a : Atom) :
    Shrinking (a.step texts) := by
  by_cases ha : a = .star
  · subst ha
    cases texts with
    | nil => exact .nil
    | cons longest texts => exact shrinking_ends longest
  · rw [step_of_ne_star ha, Shrinking, List.pairwise_filterMap]
    refine h.imp fun {long short} hend rest hrest rest' hrest' => ?_
    unfold Atom.rest? at hrest hrest'
    split at hrest
    · cases hrest
    split at hrest'
    · cases hrest'
    next c long _ c' short =>
    obtain ⟨-, rfl⟩ := Option.ite_some_none_eq_some.1 hrest
    obtain ⟨-, rfl⟩ := Option.ite_some_none_eq_some.1 hrest'
    rcases List.suffix_cons_iff.1 hend with heq | hend
    · exact (List.cons.inj heq).2 ▸ List.suffix_refl _
    · exact (List.suffix_cons c' short).trans hend

/-- **One atom** leaves what it does not take of one of the texts. -/
theorem mem_step_iff {a : Atom} {texts : List (List Char)} (h : Shrinking texts)
    {rest : List Char} :
    rest ∈ a.step texts ↔ ∃ text ∈ texts, ∃ part, text = part ++ rest ∧ a.Takes part := by
  by_cases ha : a = .star
  · subst ha
    cases texts with
    | nil => simp [Atom.step]
    | cons longest texts =>
      rw [Atom.step, mem_ends_iff]
      constructor
      · rintro ⟨part, rfl⟩
        exact ⟨_, List.mem_cons_self, part, rfl, trivial⟩
      · rintro ⟨text, htext, part, rfl, -⟩
        have hrest := List.suffix_append part rest
        rcases List.mem_cons.1 htext with rfl | htext
        · exact hrest
        · exact hrest.trans (List.rel_of_pairwise_cons h htext)
  · rw [step_of_ne_star ha, List.mem_filterMap]
    simp only [rest?_eq_some_iff ha]

/-- **All atoms**: some text is taken whole just if the pattern matches one of them. -/
theorem any_isEmpty_foldl_iff {pattern : List Atom} {texts : List (List Char)}
    (h : Shrinking texts) :
    (pattern.foldl (fun rests a => a.step rests) texts).any (·.isEmpty) = true ↔
      ∃ text ∈ texts, Matches pattern text := by
  induction pattern generalizing texts with
  | nil => simp [matches_nil_iff]
  | cons a pattern ih =>
    rw [List.foldl_cons, ih (h.step a)]
    simp only [mem_step_iff h, matches_cons_iff]
    constructor
    · rintro ⟨rest, ⟨text, htext, part, heq, ha⟩, hrest⟩
      exact ⟨text, htext, part, rest, heq, ha, hrest⟩
    · rintro ⟨text, htext, part, rest, heq, ha, hrest⟩
      exact ⟨rest, ⟨text, htext, part, heq, ha⟩, hrest⟩

/-- **The matcher decides** whether a pattern matches a text. -/
theorem isMatch_iff {pattern : List Atom} {text : List Char} :
    isMatch pattern text = true ↔ Matches pattern text := by
  rw [isMatch, rests, any_isEmpty_foldl_iff (List.pairwise_singleton _ _)]
  simp

instance (pattern : List Atom) (text : List Char) : Decidable (Matches pattern text) :=
  decidable_of_iff _ isMatch_iff

end VirtualShell.Glob
