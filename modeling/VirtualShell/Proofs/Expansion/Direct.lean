import VirtualShell.Proofs.Expansion.Bound
import VirtualShell.Proofs.Step.Direct

/-!
# The direct expansion is the plain one

A word is expanded directly when nothing in it is a command substitution and no bound in it holds
the marks of one. The bounds are read as late as in the plain expansion, so the marks have to say
what can come out of them: in a text without marks every word is one that runs no script.

* `TextRule.unmarked` — what is read from a text without marks holds no script.
* `directBoundWithin_enough` — the levels of the direct expansion are never used up.
* **`Word.expandDirect_eq_expand`** — the direct expansion gives the segments, the shell and the
  errors of the plain one, and never breaks for want of a script.
-/

namespace VirtualShell

open ParamOp.runsScript

/-! ## Marks -/

theorem marksScript_eq_false_iff {text : String} :
    marksScript text = false ↔ ¬['$', '('] <:+: text.toList ∧ '`' ∉ text.toList := by
  rw [marksScript, Bool.or_eq_false_iff, String.contains_string_eq_false_iff,
    String.contains_char_eq, decide_eq_false_iff_not]
  rfl

/-- **Texts without the marks of a command substitution**: they hold no script, and the bounds in
them hold no marks. -/
def TextRule.unmarked : TextRule where
  fine text := ¬['$', '('] <:+: text ∧ '`' ∉ text
  bound text := marksScript text = false
  body _ := False
  refused _ := True
  fine_inner hwithin htext :=
    ⟨fun hmarks => htext.1 (hmarks.trans hwithin), fun hmark => htext.2 (hwithin.subset hmark)⟩
  fine_backticks htext := absurd List.mem_cons_self htext.2
  bound_inner {text inner} hwithin htext := by
    rw [marksScript_eq_false_iff, String.toList_ofList]
    have hinner := hwithin.trans (List.suffix_cons ':' text).isInfix
    exact ⟨fun hmarks => htext.1 (hmarks.trans hinner), fun hmark => htext.2 (hinner.subset hmark)⟩
  body_parens {inner} _ htext := htext.1 (List.prefix_append ['$', '('] inner).isInfix
  body_backticks _ htext := htext.2 List.mem_cons_self
  refused_lexical _ _ := trivial

/-! ## Words that run no script -/

mutual

theorem Part.runsScript_eq_false_iff :
    ∀ part : Part, part.runsScript = false ↔ part.Only (marksScript · = false) fun _ => False
  | .literal _ | .quoted _ | .escaped _ | .tilde _ | .parameter _ none => iff_of_true rfl trivial
  | .doubleQuoted parts => Part.anyRunsScript_eq_false_iff parts
  | .parameter _ (some op) => ParamOp.runsScript_eq_false_iff op
  | .substitution _ _ => iff_of_false nofun id
  | .arithmetic expression => Word.runsScript_eq_false_iff expression

/-- **A word runs no script** when it holds none and its bounds hold no marks. -/
theorem Word.runsScript_eq_false_iff :
    ∀ word : Word, word.runsScript = false ↔ word.Only (marksScript · = false) fun _ => False
  | ⟨parts, _⟩ => Part.anyRunsScript_eq_false_iff parts

theorem ParamOp.runsScript_eq_false_iff :
    ∀ op : ParamOp, op.runsScript = false ↔ op.Only (marksScript · = false) fun _ => False
  | .default word _ | .assign word _ | .alternative word _ | .error word _
  | .removePrefix word _ | .removeSuffix word _ => Word.runsScript_eq_false_iff word
  | .length => iff_of_true rfl trivial
  | .replace pattern replacement _ =>
    Bool.or_eq_false_iff.trans <| and_congr (Word.runsScript_eq_false_iff pattern)
      (Word.runsScript_eq_false_iff replacement)
  | .substring _ none => by simp [ParamOp.runsScript, ParamOp.Only]
  | .substring _ (some _) => by simp [ParamOp.runsScript, ParamOp.Only]

theorem Part.anyRunsScript_eq_false_iff :
    ∀ parts : List Part,
      Part.anyRunsScript parts = false ↔ Part.AllOnly (marksScript · = false) (fun _ => False) parts
  | [] => iff_of_true rfl trivial
  | part :: parts =>
    Bool.or_eq_false_iff.trans <| and_congr (Part.runsScript_eq_false_iff part)
      (Part.anyRunsScript_eq_false_iff parts)

end

/-- **A text without marks spells a word that runs no script.** -/
theorem Word.runsScript_of_parseExpanded {text : String} {word : Word}
    (htext : marksScript text = false) (h : Word.parseExpanded text = .ok word) :
    word.runsScript = false := by
  have hlevel := Level.agree_self .unmarked (fun _ => trivial) maxNesting
  have hrepeats := hlevel.expandedText (marksScript_eq_false_iff.1 htext)
  rw [parseExpanded, Level.outermost] at h
  rw [h] at hrepeats
  exact word.runsScript_eq_false_iff.2 hrepeats.1

/-! ## The levels of the direct expansion -/

/-- More levels than there are characters change nothing. -/
theorem directBoundWithin_enough (n m : Nat) (text : String) (hn : text.length < n)
    (hm : text.length < m) : directBoundWithin n text = directBoundWithin m text := by
  induction n generalizing m text with
  | zero => cases hn
  | succ n ih =>
    cases m with
    | zero => cases hm
    | succ m =>
      unfold directBoundWithin
      cases hword : Word.parseExpanded text with
      | error e => rfl
      | ok word =>
        have hbound (inner : String) (hinner : inner.length < text.length) :
            directBoundWithin n inner = directBoundWithin m inner :=
          ih m inner (Nat.lt_of_lt_of_le hinner (Nat.le_of_lt_succ hn))
            (Nat.lt_of_lt_of_le hinner (Nat.le_of_lt_succ hm))
        have hshort := Word.bounds_short_of_parseExpanded hword
        simp only [Run.orFault, pure_bind, Word.expandDirect_congr hbound hshort]

/-- The value of a bound is that of the text of a word, which is expanded directly again. -/
theorem directBound_eq (text : String) :
    directBound text =
      Run.orFault .script (Word.parseExpanded text) >>= fun word =>
        word.directText >>= arithmeticValue := by
  rw [directBound, directBoundWithin]
  cases hword : Word.parseExpanded text with
  | error e => rfl
  | ok word =>
    have hbound (inner : String) (hinner : inner.length < text.length) :
        directBoundWithin text.length inner = directBound inner :=
      directBoundWithin_enough _ _ inner hinner (Nat.lt_succ_self _)
    have hshort := Word.bounds_short_of_parseExpanded hword
    simp only [Run.orFault, pure_bind, Word.expandDirect_congr hbound hshort, Word.directText,
      bind_assoc]

/-! ## Bounds without marks -/

/-- A bound without marks has the same value when it is read directly. -/
theorem directBound_eq_bound (substitute : Script → Run Outcome) {text : String}
    (htext : marksScript text = false) :
    directBound text = (Expander.ofSubstitute substitute).bound text := by
  rw [directBound_eq, Expander.bound_ofSubstitute, Expander.readBound]
  cases hword : Word.parseExpanded text with
  | error e => rfl
  | ok word =>
    have hruns := Word.runsScript_of_parseExpanded htext hword
    simp [Run.orFault, Word.value, Word.text, Word.textBy, hruns]

theorem needsNoScript_directBoundWithin (n : Nat) {text : String}
    (htext : marksScript text = false) : Run.NeedsNoScript (directBoundWithin n text) := by
  induction n generalizing text with
  | zero => exact Run.needsNoScript_fault nofun
  | succ n ih =>
    unfold directBoundWithin
    cases hword : Word.parseExpanded text with
    | error e =>
      -- the word is never read, so it does not matter what would be done with it
      exact Run.needsNoScript_fault (f := .script e) nofun
    | ok word =>
      have honly := word.runsScript_eq_false_iff.1 (Word.runsScript_of_parseExpanded htext hword)
      exact (Word.needsNoScript_expandDirect (fun _ => ih) honly false).bind fun _ =>
        needsNoScript_arithmeticValue _

/-! ## Words -/

/-- The text of a word that runs no script is that of its direct expansion. -/
theorem Word.textBy_eq (word : Word) (hword : word.runsScript = false)
    (segments : Run (List Segment)) :
    word.textBy segments = do return Segment.textOf (← word.expandDirect directBound false) := by
  rw [textBy, hword]
  rfl

section

variable {x : Expander}

mutual

theorem Part.expandDirect_eq
    (hx : ∀ text, marksScript text = false → directBound text = x.bound text) :
    ∀ (part : Part) (quoted : Bool), part.runsScript = false →
      part.expandDirect directBound quoted = part.expand x quoted
  | .literal _, _, _ | .quoted _, _, _ | .escaped _, _, _ | .parameter _ none, _, _
  | .tilde _, _, _ => rfl
  | .doubleQuoted parts, _, h => by
    simp only [Part.expandDirect, Part.expand, Part.expandAllDirect_eq hx parts true h]
  | .parameter name (some op), quoted, h => by
    simp only [Part.expandDirect, Part.expand,
      fun value => ParamOp.expandDirect_eq hx op name value quoted h]
  | .arithmetic expression, _, h => by
    simp only [Part.expandDirect, Part.expand, Word.textBy_eq expression h, bind_assoc,
      pure_bind]
  | .substitution _ _, _, h => Bool.noConfusion h

/-- An expander that reads bounds without marks as the direct expansion does expands every word
without scripts as it does. -/
theorem Word.expandDirect_eq
    (hx : ∀ text, marksScript text = false → directBound text = x.bound text) :
    ∀ (word : Word) (quoted : Bool), word.runsScript = false →
      word.expandDirect directBound quoted = word.expand x quoted
  | ⟨parts, _⟩, quoted, h => Part.expandAllDirect_eq hx parts quoted h

theorem ParamOp.expandDirect_eq
    (hx : ∀ text, marksScript text = false → directBound text = x.bound text) :
    ∀ (op : ParamOp) (name : String) (value : Option String) (quoted : Bool),
      op.runsScript = false →
        op.expandDirect directBound name value quoted = op.expand x name value quoted
  | .default word _, _, _, quoted, h | .alternative word _, _, _, quoted, h => by
    simp only [ParamOp.expandDirect, ParamOp.expand, Word.expandDirect_eq hx word quoted h]
  | .assign word _, _, _, _, h | .error word _, _, _, _, h => by
    simp only [ParamOp.expandDirect, ParamOp.expand, Word.textBy_eq word h, bind_assoc,
      pure_bind]
  | .length, _, _, _, _ => rfl
  | .removePrefix pattern _, _, _, _, h | .removeSuffix pattern _, _, _, _, h => by
    simp only [ParamOp.expandDirect, ParamOp.expand, Word.expandDirect_eq hx pattern false h]
  | .replace pattern replacement _, _, _, _, h => by
    obtain ⟨hpattern, hreplacement⟩ := Bool.or_eq_false_iff.1 h
    simp only [ParamOp.expandDirect, ParamOp.expand, Word.expandDirect_eq hx pattern false hpattern,
      Word.textBy_eq replacement hreplacement, bind_assoc, pure_bind]
  | .substring offset none, _, _, _, h => by
    have hoffset := (Bool.or_eq_false_iff.1 h).1
    rw [ParamOp.expandDirect, hx offset hoffset]
    rfl
  | .substring offset (some length), _, _, _, h => by
    obtain ⟨hoffset, hlength⟩ := Bool.or_eq_false_iff.1 h
    rw [ParamOp.expandDirect, hx offset hoffset]
    dsimp only
    rw [hx length hlength]
    rfl

theorem Part.expandAllDirect_eq
    (hx : ∀ text, marksScript text = false → directBound text = x.bound text) :
    ∀ (parts : List Part) (quoted : Bool), Part.anyRunsScript parts = false →
      Part.expandAllDirect directBound parts quoted = Part.expandAll x parts quoted
  | [], _, _ => rfl
  | part :: parts, quoted, h => by
    obtain ⟨hpart, hparts⟩ := Bool.or_eq_false_iff.1 h
    simp only [Part.expandAllDirect, Part.expandAll, Part.expandDirect_eq hx part quoted hpart,
      Part.expandAllDirect_eq hx parts quoted hparts]

end

end

/-- **The direct expansion is the plain one.** For a word that runs no script, in every shell,
quoted or not, it gives the same segments, leaves the same shell and is left for the same reason,
and this reason is never that a script would have to be run. -/
theorem Word.expandDirect_eq_expand (substitute : Script → Run Outcome) (word : Word)
    (hword : word.runsScript = false) (quoted : Bool) :
    word.expandDirect directBound quoted = word.expand (.ofSubstitute substitute) quoted ∧
      ∀ shell, (word.expandDirect directBound quoted shell).1 ≠
        .error (.fault .unexpectedScript) := by
  have honly := word.runsScript_eq_false_iff.1 hword
  constructor
  · exact Word.expandDirect_eq (fun _ => directBound_eq_bound substitute) word quoted hword
  · exact Word.needsNoScript_expandDirect (fun _ => needsNoScript_directBoundWithin _) honly quoted

/-- The word `a${x:=${y:1+1:3}}` assigns a variable and has two bounds read. -/
theorem Word.expandDirect_eq_expand_assign :
    let inner : Word := ⟨[.parameter "y" (some (.substring "1+1" (some "3")))], "$\x7by:1+1:3\x7d"⟩
    let word : Word := ⟨[.literal "a", .parameter "x" (some (.assign inner true))],
      "a$\x7bx:=$\x7by:1+1:3\x7d\x7d"⟩
    word.runsScript = false ∧
      word.expandDirect directBound true =
        word.expand (.ofSubstitute fun _ => pure .success) true := by
  intro inner word
  have hword : word.runsScript = false := by
    have hoffset : marksScript "1+1" = false := marksScript_eq_false_iff.2 (by decide)
    have hlength : marksScript "3" = false := marksScript_eq_false_iff.2 (by decide)
    simp [word, inner, Word.runsScript, Part.anyRunsScript, Part.runsScript, ParamOp.runsScript,
      hoffset, hlength]
  exact ⟨hword, (Word.expandDirect_eq_expand (fun _ => pure .success) word hword true).1⟩

end VirtualShell
