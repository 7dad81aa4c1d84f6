import VirtualShell.Expansion.Word
import VirtualShell.Proofs.Reading.Word

/-!
# Bounds of substrings

The bounds of a substring are read when a parameter is expanded, and may hold substrings again. A
bound inside a text that was read is shorter than this text, so reading bounds comes to an end, and
the levels that are set aside for it are never used up.

* `TextRule.short` — the bounds in a text are shorter than the text.
* `Expander.Agrees` — two expanders that give the same values to bounds of some kind. They expand a
  word that holds no other bounds in the same way.
* **`Expander.eq_ofSubstitute_iff`** — an expander whose bounds are read by itself is the expander
  over its way of running scripts.
-/

namespace VirtualShell

/-! ## Words with short bounds -/

/-- **Texts of at most some length**: the bounds in them are shorter. -/
def TextRule.short (n : Nat) : TextRule where
  fine text := text.length ≤ n
  bound text := text.length < n
  body _ := True
  refused _ := True
  fine_inner hwithin htext := Nat.le_trans hwithin.length_le htext
  fine_backticks {inner} htext := by
    have hlength := (unescapeBackticks_sublist inner).length_le
    simp only [List.length_cons] at htext
    omega
  bound_inner {text inner} hwithin htext := by
    have hlength := hwithin.length_le
    simp only [List.length_cons] at htext
    rw [String.length_ofList]
    omega
  body_parens _ _ := trivial
  body_backticks _ _ := trivial
  refused_lexical _ _ := trivial

/-- **The bounds in a text that was read are shorter than the text.** -/
theorem Word.bounds_short_of_parseExpanded {text : String} {word : Word}
    (h : Word.parseExpanded text = .ok word) :
    word.Only (·.length < text.length) fun _ => True := by
  have hlevel := Level.agree_self (.short text.length) (fun _ => trivial) maxNesting
  have htext : (TextRule.short text.length).fine text.toList := Nat.le_of_eq String.length_toList
  have hrepeats := hlevel.expandedText htext
  rw [parseExpanded, Level.outermost] at h
  rw [h] at hrepeats
  exact hrepeats.1

/-! ## Expanding with known bounds -/

/-- Two expanders that run scripts in the same way and give the same values to bounds of a kind. -/
structure Expander.Agrees (kind : String → Prop) (x y : Expander) : Prop where
  substitute : x.substitute = y.substitute
  bound : ∀ text, kind text → x.bound text = y.bound text

section

variable {kind : String → Prop} {body : Script → Prop} {x y : Expander}

theorem Expander.Agrees.output (hxy : x.Agrees kind y) (script : Script) :
    x.output script = y.output script := by
  simp only [Expander.output, hxy.substitute]

mutual

theorem Part.expand_congr (hxy : x.Agrees kind y) :
    ∀ (part : Part) (quoted : Bool), part.Only kind body →
      part.expand x quoted = part.expand y quoted
  | .literal _, _, _ | .quoted _, _, _ | .escaped _, _, _ | .parameter _ none, _, _
  | .tilde _, _, _ => rfl
  | .doubleQuoted parts, _, h => by
    simp only [Part.expand, Part.expandAll_congr hxy parts true h]
  | .parameter name (some op), quoted, h => by
    simp only [Part.expand, fun value => ParamOp.expand_congr hxy op name value quoted h]
  | .arithmetic expression, _, h => by
    simp only [Part.expand, Word.expand_congr hxy expression false h]
  | .substitution script _, _, _ => by simp only [Part.expand, hxy.output script]

/-- Only the values of its own bounds count for the expansion of a word. -/
theorem Word.expand_congr (hxy : x.Agrees kind y) :
    ∀ (word : Word) (quoted : Bool), word.Only kind body →
      word.expand x quoted = word.expand y quoted
  | ⟨parts, _⟩, quoted, h => Part.expandAll_congr hxy parts quoted h

theorem ParamOp.expand_congr (hxy : x.Agrees kind y) :
    ∀ (op : ParamOp) (name : String) (value : Option String) (quoted : Bool),
      op.Only kind body → op.expand x name value quoted = op.expand y name value quoted
  | .default word _, _, _, quoted, h => by
    simp only [ParamOp.expand, Word.expand_congr hxy word quoted h]
  | .assign word _, _, _, _, h => by
    simp only [ParamOp.expand, Word.expand_congr hxy word false h]
  | .alternative word _, _, _, quoted, h => by
    simp only [ParamOp.expand, Word.expand_congr hxy word quoted h]
  | .error word _, _, _, _, h => by
    simp only [ParamOp.expand, Word.expand_congr hxy word false h]
  | .length, _, _, _, _ => rfl
  | .removePrefix pattern _, _, _, _, h => by
    simp only [ParamOp.expand, Word.expand_congr hxy pattern false h]
  | .removeSuffix pattern _, _, _, _, h => by
    simp only [ParamOp.expand, Word.expand_congr hxy pattern false h]
  | .replace pattern replacement _, _, _, _, h => by
    simp only [ParamOp.expand, Word.expand_congr hxy pattern false h.1,
      Word.expand_congr hxy replacement false h.2]
  | .substring offset none, _, _, _, h => by
    simp only [ParamOp.expand, hxy.bound offset h.1]
  | .substring offset (some length), _, _, _, h => by
    simp only [ParamOp.expand, hxy.bound offset h.1, hxy.bound length (h.2 length rfl)]

theorem Part.expandAll_congr (hxy : x.Agrees kind y) :
    ∀ (parts : List Part) (quoted : Bool),
      Part.AllOnly kind body parts → Part.expandAll x parts quoted = Part.expandAll y parts quoted
  | [], _, _ => rfl
  | part :: parts, quoted, h => by
    simp only [Part.expandAll, Part.expand_congr hxy part quoted h.1,
      Part.expandAll_congr hxy parts quoted h.2]

end

end

/-! ## Reading bounds -/

/-- The value of a bound by an expander for the bounds inside it. -/
def Expander.readBound (x : Expander) (text : String) : Run Int := do
  let word ← Run.orFault .script (Word.parseExpanded text)
  word.value x

/-- Only values of shorter bounds count for the value of a bound. -/
theorem Expander.readBound_congr {x y : Expander} {text : String}
    (hxy : x.Agrees (·.length < text.length) y) : x.readBound text = y.readBound text := by
  unfold readBound
  cases hword : Word.parseExpanded text with
  | error e => rfl
  | ok word =>
    have hexpand := Word.expand_congr hxy word false (Word.bounds_short_of_parseExpanded hword)
    simp only [Run.orFault, pure_bind, Word.value, Word.text, hexpand]

/-- **Levels are never used up**: whoever reads bounds by itself gives them the same values. -/
theorem boundWithin_eq {x : Expander} (hx : ∀ text, x.bound text = x.readBound text) (n : Nat)
    (text : String) (hn : text.length < n) : boundWithin x.substitute n text = x.bound text := by
  induction n generalizing text with
  | zero => cases hn
  | succ n ih =>
    rw [hx]
    refine Expander.readBound_congr ⟨rfl, fun inner hinner => ?_⟩
    exact ih inner (Nat.lt_of_lt_of_le hinner (Nat.le_of_lt_succ hn))

/-- More levels than there are characters change nothing. -/
theorem boundWithin_enough (substitute : Script → Run Outcome) (n m : Nat) (text : String)
    (hn : text.length < n) (hm : text.length < m) :
    boundWithin substitute n text = boundWithin substitute m text := by
  induction n generalizing m text with
  | zero => cases hn
  | succ n ih =>
    cases m with
    | zero => cases hm
    | succ m =>
      refine Expander.readBound_congr ⟨rfl, fun inner hinner => ?_⟩
      exact ih m inner (Nat.lt_of_lt_of_le hinner (Nat.le_of_lt_succ hn))
        (Nat.lt_of_lt_of_le hinner (Nat.le_of_lt_succ hm))

/-- The expander over a way of running scripts reads bounds by itself. -/
theorem Expander.bound_ofSubstitute (substitute : Script → Run Outcome) (text : String) :
    (ofSubstitute substitute).bound text = (ofSubstitute substitute).readBound text := by
  refine Expander.readBound_congr ⟨rfl, fun inner hinner => ?_⟩
  exact boundWithin_enough substitute _ _ inner hinner (Nat.lt_succ_self _)

/-- **An expander that reads bounds by itself** is the one over its way of running scripts. -/
theorem Expander.eq_ofSubstitute_iff (x : Expander) :
    x = ofSubstitute x.substitute ↔ ∀ text, x.bound text = x.readBound text := by
  constructor
  · intro hx
    rw [hx]
    exact bound_ofSubstitute x.substitute
  · intro hx
    have hbound : x.bound = (ofSubstitute x.substitute).bound :=
      funext fun text => (boundWithin_eq hx _ text (Nat.lt_succ_self _)).symm
    cases x
    exact congrArg (Expander.mk _) hbound

end VirtualShell
