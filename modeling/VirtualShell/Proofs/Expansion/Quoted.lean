import VirtualShell.Proofs.Quoting.Command
import VirtualShell.Session

/-!
# Quoted words

A piece of a word that stands in quotes gives quoted segments only, and so does everything inside
it: what an operation on a parameter passes on, an arithmetic value, the output of a script. None of
them is split or read as a pattern. So a word of such pieces is one field, even when it is empty.

The exception are all positional parameters between double quotes, which are fields of their own,
or none.

* `Word.spreads` — all positional parameters may come out of a word as fields of their own.
* `Part.gives_expandAll` — between quotes all other pieces give quoted segments.
* **`Word.fields_eq_of_isQuoted`** — a word of quoted pieces is one field.
-/

namespace VirtualShell

/-! ## Steps that give something -/

namespace Run

variable {α β ε : Type}

/-- **What the step gives has a property**, whenever it gives something. -/
def Gives (P : α → Prop) (x : Run α) : Prop := ∀ shell a, (x shell).1 = .ok a → P a

theorem gives_pure {P : α → Prop} {a : α} (ha : P a) : Gives P (pure a : Run α) := by
  rintro _ _ ⟨⟩
  exact ha

theorem gives_exit (P : α → Prop) (status : Int) (message : String) :
    Gives P (exit status message : Run α) := fun _ _ => nofun

namespace Gives

variable {P : β → Prop}

/-- A step after a step about whose result something is known. -/
theorem bind_of {Q : α → Prop} {x : Run α} {f : α → Run β} (hx : Gives Q x)
    (hf : ∀ a, Q a → Gives P (f a)) : Gives P (x >>= f) := by
  intro shell b hb
  rw [bind_apply] at hb
  rcases hstep : x shell with ⟨_ | a, next⟩
  · rw [hstep] at hb
    cases hb
  · rw [hstep] at hb
    exact hf a (hx shell a (by rw [hstep])) next b hb

theorem bind {x : Run α} {f : α → Run β} (hf : ∀ a, Gives P (f a)) : Gives P (x >>= f) :=
  bind_of (Q := fun _ => True) (fun _ _ _ => trivial) fun a _ => hf a

theorem ite {c : Prop} [Decidable c] {x y : Run β} (hx : Gives P x) (hy : Gives P y) :
    Gives P (if c then x else y) := by
  split
  · exact hx
  · exact hy

end Gives

end Run

/-! ## Quoted pieces -/

/-- A piece in single or double quotes, or after a backslash. -/
def Part.isQuoted : Part → Bool
  | .quoted _ | .escaped _ | .doubleQuoted _ => true
  | _ => false

mutual

/-- All positional parameters may come out of the piece as fields of their own, when it stands
between double quotes. -/
def Part.spreads : Part → Bool
  | .parameter name none => name == "@"
  | .parameter _ (some op) => ParamOp.spreads op
  | .doubleQuoted parts => Part.anySpreads parts
  | .literal _ | .quoted _ | .escaped _ | .tilde _ | .substitution .. | .arithmetic _ => false
termination_by structural part => part

/-- They may come out of the word. -/
def Word.spreads : Word → Bool
  | ⟨parts, _⟩ => Part.anySpreads parts
termination_by structural word => word

/-- They may come out of the operation: the words that stand for a missing or for a given value are
expanded in its place. The text of every other word is put together first. -/
def ParamOp.spreads : ParamOp → Bool
  | .default word _ | .alternative word _ => Word.spreads word
  | .assign .. | .error .. | .length | .removePrefix .. | .removeSuffix .. | .replace ..
  | .substring .. => false
termination_by structural op => op

/-- They may come out of one of the pieces. -/
def Part.anySpreads : List Part → Bool
  | [] => false
  | part :: parts => Part.spreads part || Part.anySpreads parts
termination_by structural parts => parts

end

theorem holdsAllParameters_of_anySpreads {parts : List Part} (h : Part.anySpreads parts = false) :
    holdsAllParameters parts = false := by
  rw [holdsAllParameters]
  induction parts with
  | nil => rfl
  | cons part parts ih =>
    rw [Part.anySpreads, Bool.or_eq_false_iff] at h
    rw [List.any_cons, ih h.2, Bool.or_false]
    split
    · exact Bool.noConfusion h.1
    · rfl

/-! ## Quoted segments -/

/-- All segments are quoted texts. -/
def Segment.AllQuoted (segments : List Segment) : Prop :=
  ∀ s ∈ segments, s = .literal true s.text

namespace Segment.AllQuoted

theorem singleton (text : String) : AllQuoted [.literal true text] :=
  List.forall_mem_singleton.2 rfl

theorem append {segments more : List Segment} (h : AllQuoted segments) (hmore : AllQuoted more) :
    AllQuoted (segments ++ more) :=
  List.forall_mem_append.2 ⟨h, hmore⟩

/-- Quoted segments are those of their texts. -/
theorem eq_map {segments : List Segment} (h : AllQuoted segments) :
    segments = (segments.map (·.text)).map (Segment.literal true) := by
  rw [List.map_map]
  conv_lhs => rw [← List.map_id segments]
  exact List.map_congr_left h

end Segment.AllQuoted

open Run

/-! ## What stands between quotes -/

theorem gives_expandParameter {name : String} (h : name ≠ "@") :
    Gives Segment.AllQuoted (expandParameter name true) := by
  unfold expandParameter
  refine Gives.bind fun shell => ?_
  rw [decide_eq_false h, Bool.and_false, if_neg Bool.false_ne_true]
  refine .ite (.bind fun _ => ?_) (.bind fun _ => ?_)
  · exact gives_pure (.singleton _)
  · exact gives_pure (.singleton _)

/-- Between quotes a tilde stands for itself. -/
theorem expandTilde_quoted (user : Option String) :
    expandTilde user true = pure (.literal true ("~" ++ user.getD "")) := rfl

section

variable (x : Expander)

mutual

theorem Part.gives_expand : ∀ part : Part, part.spreads = false →
    Gives Segment.AllQuoted (part.expand x true)
  | .literal text, _ | .quoted text, _ | .escaped text, _ => gives_pure (.singleton text)
  | .doubleQuoted parts, h => by
    refine (Part.gives_expandAll parts h).bind_of fun segments hsegments => gives_pure ?_
    rw [holdsAllParameters_of_anySpreads h, if_neg Bool.false_ne_true]
    exact (Segment.AllQuoted.singleton "").append hsegments
  | .parameter name none, h => gives_expandParameter (by simpa [Part.spreads] using h)
  | .parameter name (some op), h =>
    Gives.bind fun _ => Gives.bind fun _ => ParamOp.gives_expand op name _ h
  | .tilde user, _ => by
    rw [Part.expand, expandTilde_quoted, pure_bind]
    exact gives_pure (.singleton _)
  | .arithmetic _, _ => Gives.bind fun _ => Gives.bind fun _ => gives_pure (.singleton _)
  | .substitution _ _, _ => Gives.bind fun _ => gives_pure (.singleton _)

theorem Word.gives_expand : ∀ word : Word, word.spreads = false →
    Gives Segment.AllQuoted (word.expand x true)
  | ⟨parts, _⟩, h => Part.gives_expandAll parts h

theorem ParamOp.gives_expand : ∀ (op : ParamOp) (name : String) (value : Option String),
    op.spreads = false → Gives Segment.AllQuoted (op.expand x name value true)
  | .default word colon, _, value, h => by
    refine Gives.ite ?_ (gives_pure (.singleton _))
    refine (Word.gives_expand word h).bind_of fun segments hsegments => gives_pure ?_
    rw [if_pos rfl, List.map_id]
    exact hsegments
  | .alternative word colon, _, value, h => by
    refine Gives.ite (gives_pure nofun) ?_
    refine (Word.gives_expand word h).bind_of fun segments hsegments => gives_pure ?_
    rw [if_pos rfl, List.map_id]
    exact hsegments
  | .assign .., _, _, _ =>
    .ite (.ite (gives_exit _ _ _) (.bind fun _ => .bind fun _ => gives_pure (.singleton _)))
      (gives_pure (.singleton _))
  | .error .., _, _, _ => .ite (.bind fun _ => gives_exit _ _ _) (gives_pure (.singleton _))
  | .length, _, _, _ => Gives.bind fun _ => gives_pure (.singleton _)
  | .removePrefix .., _, _, _ | .removeSuffix .., _, _, _ =>
    Gives.bind fun _ => Gives.bind fun _ => gives_pure (.singleton _)
  | .replace .., _, _, _ =>
    Gives.bind fun _ => Gives.bind fun _ => Gives.bind fun _ => gives_pure (.singleton _)
  | .substring _ length, _, value, _ => by
    have hslice (start : Int) (size : Option Int) : Gives Segment.AllQuoted
        (match slice (value.getD "") start size with
        | some text => return [.value true text]
        | none => Run.exit 1 ("bash: " ++ length.getD "" ++ ": substring expression < 0\n")) := by
      split
      · exact gives_pure (.singleton _)
      · exact gives_exit _ _ _
    refine Gives.bind fun start => ?_
    cases length with
    | none => exact Gives.bind fun _ => hslice _ _
    | some length => exact Gives.bind fun _ => hslice _ _

/-- **Between quotes** every piece gives quoted segments, unless all positional parameters may come
out of it. -/
theorem Part.gives_expandAll : ∀ parts : List Part, Part.anySpreads parts = false →
    Gives Segment.AllQuoted (Part.expandAll x parts true)
  | [], _ => gives_pure nofun
  | part :: parts, h => by
    rw [Part.anySpreads, Bool.or_eq_false_iff] at h
    refine (Part.gives_expand part h.1).bind_of fun segments hsegments => ?_
    refine (Part.gives_expandAll parts h.2).bind_of fun more hmore => ?_
    exact gives_pure (hsegments.append hmore)

end

/-! ## Quoted words -/

/-- A quoted piece gives quoted segments, at least one, wherever it stands. -/
theorem Part.gives_expand_of_isQuoted {part : Part} (hquoted : part.isQuoted = true)
    (h : part.spreads = false) (quoted : Bool) :
    Gives (fun segments => segments ≠ [] ∧ Segment.AllQuoted segments) (part.expand x quoted) := by
  cases part with
  | quoted text => exact gives_pure ⟨nofun, .singleton text⟩
  | escaped text => exact gives_pure ⟨nofun, .singleton text⟩
  | doubleQuoted parts =>
    refine (Part.gives_expandAll x parts h).bind_of fun segments hsegments => gives_pure ?_
    rw [holdsAllParameters_of_anySpreads h, if_neg Bool.false_ne_true]
    exact ⟨nofun, (Segment.AllQuoted.singleton "").append hsegments⟩
  | _ => cases hquoted

theorem Part.gives_expandAll_of_isQuoted {parts : List Part}
    (hquoted : ∀ part ∈ parts, part.isQuoted = true) (h : Part.anySpreads parts = false)
    (quoted : Bool) :
    Gives (fun segments => (parts ≠ [] → segments ≠ []) ∧ Segment.AllQuoted segments)
      (Part.expandAll x parts quoted) := by
  induction parts with
  | nil => exact gives_pure ⟨fun hne => absurd rfl hne, nofun⟩
  | cons part parts ih =>
    rw [Part.anySpreads, Bool.or_eq_false_iff] at h
    obtain ⟨hpart, hparts⟩ := List.forall_mem_cons.1 hquoted
    refine (Part.gives_expand_of_isQuoted x hpart h.1 quoted).bind_of fun segments hsegments => ?_
    refine (ih hparts h.2).bind_of fun more hmore => gives_pure ⟨fun _ => ?_, ?_⟩
    · simp [hsegments.1]
    · exact hsegments.2.append hmore.2

end

/-- The text of quoted texts. -/
theorem Segment.textOf_literal (texts : List String) :
    textOf (texts.map (literal true)) = String.ofList (texts.flatMap String.toList) := by
  rw [textOf, List.map_map, ← String.ofList_toList (s := String.join _), String.toList_join]
  simp [Function.comp_def, literal]

/-- **A quoted word is one field**: its text, whatever it holds. Only when all positional parameters
may come out of it, it is something else. Expansion fails where the expansion into segments does,
and changes nothing beside it. -/
theorem Word.fields_eq_of_isQuoted (x : Expander) (word : Word) (hne : word.parts ≠ [])
    (hquoted : ∀ part ∈ word.parts, part.isQuoted = true) (h : word.spreads = false) :
    word.fields x = do return [Segment.textOf (← word.expand x false)] := by
  obtain ⟨parts, raw⟩ := word
  have hgives := Part.gives_expandAll_of_isQuoted x hquoted h false
  funext shell
  rw [Run.bind_apply]
  rcases hexpand : Word.expand x ⟨parts, raw⟩ false shell with ⟨i | segments, next⟩
  · rw [Word.fields, Run.bind_apply, hexpand]
  · obtain ⟨hsegments, hall⟩ := hgives shell segments (congrArg Prod.fst hexpand)
    have htexts : segments.map (·.text) ≠ [] := by simpa using hsegments hne
    rw [hall.eq_map] at hexpand
    rw [Word.fields_of_expand htexts hexpand, ← Segment.textOf_literal, ← hall.eq_map]
    rfl

/-- Three kinds of quotes, and a default value between the double ones, which holds blanks, a star,
a substitution and quotes again. -/
def Word.nestedQuotes : Word :=
  ⟨[.quoted "*",
    .doubleQuoted [.parameter "x" (some (.default ⟨[.literal "a b* ", .substitution ⟨[]⟩ false,
      .doubleQuoted [.parameter "y" none, .literal "?"]], "a b* $()\"$y?\""⟩ true))],
    .escaped " "],
    "'*'\"$\x7bx:-a b* $()\"$y?\"\x7d\"\\ "⟩

/-- A shell that separates fields at blanks, at stars and at a letter of the word. -/
def Shell.splittingAtStars : Shell :=
  .start .bare "/" (.ofGlobals [("IFS", "* b"), ("y", "[ ]")] []) (.ofClock ⟨0, 0⟩)

theorem Word.fields_eq_of_isQuoted_nestedQuotes :
    nestedQuotes.parts ≠ [] ∧ (∀ part ∈ nestedQuotes.parts, part.isQuoted = true) ∧
      nestedQuotes.spreads = false ∧
      (nestedQuotes.fields (.ofSubstitute fun _ => pure .success) .splittingAtStars).1 =
        .ok ["*a b* [ ]? "] := by
  have hne : nestedQuotes.parts ≠ [] := List.cons_ne_nil _ _
  have hquoted : ∀ part ∈ nestedQuotes.parts, part.isQuoted = true := by
    simp [nestedQuotes, Part.isQuoted]
  refine ⟨hne, hquoted, rfl, ?_⟩
  rw [Word.fields_eq_of_isQuoted _ nestedQuotes hne hquoted rfl]
  rfl

end VirtualShell
