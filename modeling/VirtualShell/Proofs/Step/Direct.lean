import VirtualShell.Expansion.Word
import VirtualShell.Proofs.Reading.Word
import VirtualShell.Proofs.Step.Tame

/-!
# The steps of the direct expansion

A word that runs no script is expanded by tame steps. None of them breaks for want of a script, so
only a command substitution can make the direct expansion break for this reason.

* `Run.NeedsNoScript` — a step that is not left because a script would have to be run.
* **`Word.expandDirect_related`** — every relation between steps that holds of such tame steps, and
  that sequences respect, holds between two direct expansions of a word.
-/

namespace VirtualShell

namespace Run

variable {α β ε : Type}

/-! ## Steps that need no script -/

/-- **A step that is never left for want of a script.** -/
def NeedsNoScript (x : Run α) : Prop := ∀ shell, (x shell).1 ≠ .error (.fault .unexpectedScript)

theorem needsNoScript_pure (a : α) : NeedsNoScript (pure a : Run α) := fun _ => nofun

theorem needsNoScript_get : NeedsNoScript (get : Run Shell) := fun _ => nofun

theorem needsNoScript_fault {f : Fault} (hf : f ≠ .unexpectedScript) :
    NeedsNoScript (fault f : Run α) := by
  intro _ h
  cases h
  exact hf rfl

theorem needsNoScript_exit (status : Int) (message : String) :
    NeedsNoScript (exit status message : Run α) := fun _ => nofun

theorem needsNoScript_orFault {f : ε → Fault} (hf : ∀ e, f e ≠ .unexpectedScript)
    (r : Except ε α) : NeedsNoScript (orFault f r) := by
  cases r with
  | ok a => exact needsNoScript_pure a
  | error e => exact needsNoScript_fault (hf e)

theorem needsNoScript_setVariable (name value : String) :
    NeedsNoScript (setVariable name value) := fun _ => nofun

namespace NeedsNoScript

theorem bind {x : Run α} {f : α → Run β} (hx : NeedsNoScript x)
    (hf : ∀ a, NeedsNoScript (f a)) : NeedsNoScript (x >>= f) := by
  intro shell
  have hfirst := hx shell
  rw [bind_apply]
  rcases h : x shell with ⟨i | a, next⟩
  · rw [h] at hfirst
    exact fun hi => hfirst (by cases hi; rfl)
  · exact hf a next

theorem ite {c : Prop} [Decidable c] {x y : Run α} (hx : NeedsNoScript x)
    (hy : NeedsNoScript y) : NeedsNoScript (if c then x else y) := by
  split
  · exact hx
  · exact hy

end NeedsNoScript

theorem needsNoScript_variableOr (name fallback : String) :
    NeedsNoScript (variableOr name fallback) :=
  needsNoScript_get.bind fun _ => needsNoScript_pure _

theorem needsNoScript_arithmetic (text : String) : NeedsNoScript (arithmetic text) := by
  intro shell
  rcases h : (Arith.evaluate text).run shell.variables with ⟨result, vars⟩
  simp only [arithmetic, bind_apply, get_apply, h, modify_apply]
  cases result with
  | ok value => exact needsNoScript_pure (Except.ok value) _
  | error e =>
    exact ((needsNoScript_pure (.error e)).ite (c := e.isReported = true)
      (needsNoScript_fault (α := Except Arith.Error Int) (f := .arithmetic e) (by simp))) _

end Run

open Run

/-! ## What a word asks of its shell -/

/-- The value of a parameter is refused for its numeral, or for want of a parameter. -/
theorem Shell.parameter?_ne_error (shell : Shell) (name : String) :
    shell.parameter? name ≠ .error .unexpectedScript := by
  have hpositional (parameters : List String) (index : Nat) :
      positional? parameters index ≠ .error .unexpectedScript := by
    unfold positional?
    split
    · split <;> simp
    · simp
  unfold Shell.parameter?
  split
  case h_9 =>
    split
    · split
      · exact hpositional _ _
      · simp
    · simp
  all_goals simp

theorem needsNoScript_parameter (shell : Shell) (name : String) :
    NeedsNoScript (orFault id (shell.parameter? name)) := by
  have hne := shell.parameter?_ne_error name
  cases h : shell.parameter? name with
  | ok value => exact needsNoScript_pure value
  | error f => exact needsNoScript_fault fun hf => hne (by rw [h, ← hf, id])

theorem needsNoScript_expandParameter (name : String) (quoted : Bool) :
    NeedsNoScript (expandParameter name quoted) := by
  unfold expandParameter
  refine needsNoScript_get.bind fun shell => .ite (needsNoScript_pure _) (.ite ?_ ?_)
  · exact (needsNoScript_variableOr _ _).bind fun _ => needsNoScript_pure _
  · exact (needsNoScript_parameter _ _).bind fun _ => needsNoScript_pure _

theorem needsNoScript_expandTilde (user : Option String) (quoted : Bool) :
    NeedsNoScript (expandTilde user quoted) := by
  unfold expandTilde
  split
  · exact needsNoScript_pure _
  split
  · exact (needsNoScript_variableOr _ _).bind fun _ => needsNoScript_pure _
  · exact needsNoScript_get.bind fun _ =>
      (needsNoScript_variableOr _ _).bind fun _ => needsNoScript_pure _
  · exact (needsNoScript_variableOr _ _).bind fun _ => needsNoScript_pure _
  · exact needsNoScript_pure _

theorem needsNoScript_arithmeticValue (text : String) : NeedsNoScript (arithmeticValue text) := by
  refine (needsNoScript_arithmetic text).bind fun result => ?_
  cases result with
  | ok value => exact needsNoScript_pure _
  | error e => exact needsNoScript_exit _ _

/-! ## Relations between direct expansions -/

/-- **A relation that direct expansions respect**: tame steps that need no script are related to
themselves, and sequences of related steps are related. -/
structure Run.Respected (R : {α : Type} → Run α → Run α → Prop) : Prop where
  step {α : Type} {x : Run α} : Tame x → NeedsNoScript x → R x x
  bind {α β : Type} {x y : Run α} {f g : α → Run β} :
    R x y → (∀ a, R (f a) (g a)) → R (x >>= f) (y >>= g)

namespace Run.Respected

variable {R : {α : Type} → Run α → Run α → Prop} (h : Respected R)
include h

theorem pure {α : Type} (a : α) : R (Pure.pure a) (Pure.pure a) :=
  h.step (tame_pure a) (needsNoScript_pure a)

theorem get : R (MonadState.get : Run Shell) MonadState.get := h.step tame_get needsNoScript_get

theorem exit {α : Type} (status : Int) (message : String) :
    R (Run.exit status message : Run α) (Run.exit status message) :=
  h.step (tame_exit _ _) (needsNoScript_exit _ _)

theorem orFault {ε α : Type} {f : ε → Fault} (hf : ∀ e, f e ≠ .unexpectedScript)
    (r : Except ε α) : R (Run.orFault f r) (Run.orFault f r) :=
  h.step (tame_orFault _ _) (needsNoScript_orFault hf r)

theorem arithmeticValue (text : String) :
    R (VirtualShell.arithmeticValue text) (VirtualShell.arithmeticValue text) :=
  h.step (tame_arithmeticValue text) (needsNoScript_arithmeticValue text)

theorem map {α β : Type} (f : α → β) {x y : Run α} (hxy : R x y) : R (f <$> x) (f <$> y) := by
  simp only [map_eq_pure_bind]
  exact h.bind hxy fun a => h.pure (f a)

omit h in
theorem ite {α : Type} {c : Prop} [Decidable c] {x y x' y' : Run α} (hxy : R x y)
    (hxy' : R x' y') : R (if c then x else x') (if c then y else y') := by
  split
  · exact hxy
  · exact hxy'

end Run.Respected

section

variable {R : {α : Type} → Run α → Run α → Prop} {kind : String → Prop} {body : Script → Prop}
  {x y : String → Run Int}

mutual

theorem Part.expandDirect_related (h : Respected R)
    (hbound : ∀ text, kind text → R (x text) (y text))
    (hbody : ∀ script, body script →
      R (fault .unexpectedScript : Run (List Segment)) (fault .unexpectedScript)) :
    ∀ (part : Part) (quoted : Bool), part.Only kind body →
      R (part.expandDirect x quoted) (part.expandDirect y quoted)
  | .literal _, _, _ | .quoted _, _, _ | .escaped _, _, _ => h.pure _
  | .doubleQuoted parts, _, honly =>
    h.bind (Part.expandAllDirect_related h hbound hbody parts true honly) fun _ => h.pure _
  | .parameter name none, quoted, _ =>
    h.step (tame_expandParameter name quoted) (needsNoScript_expandParameter name quoted)
  | .parameter name (some op), quoted, honly =>
    h.bind h.get fun shell =>
      h.bind (h.step (tame_orFault _ _) (needsNoScript_parameter shell name)) fun _ =>
        ParamOp.expandDirect_related h hbound hbody op name _ quoted honly
  | .tilde user, quoted, _ =>
    h.bind (h.step (tame_expandTilde user quoted) (needsNoScript_expandTilde user quoted)) fun _ =>
      h.pure _
  | .arithmetic expression, _, honly =>
    h.bind (Word.expandDirect_related h hbound hbody expression false honly) fun _ =>
      h.bind (h.arithmeticValue _) fun _ => h.pure _
  | .substitution script _, _, honly => hbody script honly

/-- **Direct expansions of a word are related** when their bounds are, by every relation that they
respect. -/
theorem Word.expandDirect_related (h : Respected R)
    (hbound : ∀ text, kind text → R (x text) (y text))
    (hbody : ∀ script, body script →
      R (fault .unexpectedScript : Run (List Segment)) (fault .unexpectedScript)) :
    ∀ (word : Word) (quoted : Bool), word.Only kind body →
      R (word.expandDirect x quoted) (word.expandDirect y quoted)
  | ⟨parts, _⟩, quoted, honly => Part.expandAllDirect_related h hbound hbody parts quoted honly

theorem ParamOp.expandDirect_related (h : Respected R)
    (hbound : ∀ text, kind text → R (x text) (y text))
    (hbody : ∀ script, body script →
      R (fault .unexpectedScript : Run (List Segment)) (fault .unexpectedScript)) :
    ∀ (op : ParamOp) (name : String) (value : Option String) (quoted : Bool), op.Only kind body →
      R (op.expandDirect x name value quoted) (op.expandDirect y name value quoted)
  | .default word colon, _, value, quoted, honly =>
    Respected.ite (h.bind (Word.expandDirect_related h hbound hbody word quoted honly) fun _ => h.pure _)
      (h.pure _)
  | .assign word colon, name, value, quoted, honly =>
    Respected.ite (Respected.ite (h.exit _ _) <|
      h.bind (Word.expandDirect_related h hbound hbody word false honly) fun _ =>
        h.bind (h.step (tame_setVariable _ _) (needsNoScript_setVariable _ _)) fun _ => h.pure _)
      (h.pure _)
  | .alternative word colon, _, value, quoted, honly =>
    Respected.ite (h.pure _) <|
      h.bind (Word.expandDirect_related h hbound hbody word quoted honly) fun _ => h.pure _
  | .error word colon, name, value, quoted, honly =>
    Respected.ite (h.bind (Word.expandDirect_related h hbound hbody word false honly) fun _ => h.exit _ _)
      (h.pure _)
  | .length, _, _, _, _ => h.bind h.get fun _ => h.pure _
  | .removePrefix pattern _, _, _, _, honly =>
    h.bind (Word.expandDirect_related h hbound hbody pattern false honly) fun _ =>
      h.bind (h.orFault nofun _) fun _ => h.pure _
  | .removeSuffix pattern _, _, _, _, honly =>
    h.bind (Word.expandDirect_related h hbound hbody pattern false honly) fun _ =>
      h.bind (h.orFault nofun _) fun _ => h.pure _
  | .replace pattern replacement _, _, _, _, honly =>
    h.bind (Word.expandDirect_related h hbound hbody pattern false honly.1) fun _ =>
      h.bind (Word.expandDirect_related h hbound hbody replacement false honly.2) fun _ =>
        h.bind (h.orFault nofun _) fun _ => h.pure _
  | .substring offset length, _, value, quoted, honly => by
    refine h.bind (hbound offset honly.1) fun start => ?_
    have hslice (size : Option Int) : R (match slice (value.getD "") start size with
        | some text => pure [.value quoted text]
        | none => Run.exit 1 ("bash: " ++ length.getD "" ++ ": substring expression < 0\n") :
          Run (List Segment)) (match slice (value.getD "") start size with
        | some text => pure [.value quoted text]
        | none => Run.exit 1 ("bash: " ++ length.getD "" ++ ": substring expression < 0\n")) := by
      split
      · exact h.pure _
      · exact h.exit _ _
    cases length with
    | none => exact hslice none
    | some text => exact h.bind (h.map some (hbound text (honly.2 text rfl))) hslice

theorem Part.expandAllDirect_related (h : Respected R)
    (hbound : ∀ text, kind text → R (x text) (y text))
    (hbody : ∀ script, body script →
      R (fault .unexpectedScript : Run (List Segment)) (fault .unexpectedScript)) :
    ∀ (parts : List Part) (quoted : Bool), Part.AllOnly kind body parts →
      R (Part.expandAllDirect x parts quoted) (Part.expandAllDirect y parts quoted)
  | [], _, _ => h.pure _
  | part :: parts, quoted, honly =>
    h.bind (Part.expandDirect_related h hbound hbody part quoted honly.1) fun _ =>
      h.bind (Part.expandAllDirect_related h hbound hbody parts quoted honly.2) fun _ => h.pure _

end

end

/-! ## Three relations -/

theorem Run.respected_eq : Respected fun x y => x = y where
  step _ _ := rfl
  bind hxy hfg := by rw [hxy, funext hfg]

theorem Run.respected_tame : Respected fun x _ => Tame x where
  step hx _ := hx
  bind hx hf := hx.bind hf

theorem Run.respected_needsNoScript : Respected fun x _ => NeedsNoScript x where
  step _ hx := hx
  bind hx hf := hx.bind hf

/-- Only the values of its own bounds count for the expansion of a word. -/
theorem Word.expandDirect_congr {kind : String → Prop} {body : Script → Prop}
    {x y : String → Run Int} (hxy : ∀ text, kind text → x text = y text) {word : Word}
    (hword : word.Only kind body) (quoted : Bool) :
    word.expandDirect x quoted = word.expandDirect y quoted :=
  word.expandDirect_related respected_eq hxy (fun _ _ => rfl) quoted hword

theorem Word.tame_expandDirect {bound : String → Run Int} (hbound : ∀ text, Tame (bound text))
    (word : Word) (quoted : Bool) : Tame (word.expandDirect bound quoted) :=
  word.expandDirect_related (y := bound) respected_tame (fun text _ => hbound text)
    (fun _ _ => tame_fault _) quoted
    (Word.only_of_forall (fun _ => trivial) (fun _ => trivial) word)

/-- A word without scripts needs none when its bounds need none. -/
theorem Word.needsNoScript_expandDirect {kind : String → Prop} {bound : String → Run Int}
    (hbound : ∀ text, kind text → NeedsNoScript (bound text)) {word : Word}
    (hword : word.Only kind fun _ => False) (quoted : Bool) :
    NeedsNoScript (word.expandDirect bound quoted) :=
  word.expandDirect_related (y := bound) respected_needsNoScript hbound (fun _ => False.elim) quoted hword

theorem tame_directBoundWithin (n : Nat) (text : String) : Tame (directBoundWithin n text) := by
  induction n generalizing text with
  | zero => exact tame_fault _
  | succ n ih =>
    exact (tame_orFault _ _).bind fun word =>
      (word.tame_expandDirect ih false).bind fun _ => tame_arithmeticValue _

theorem Word.tame_directText (word : Word) : Tame word.directText :=
  (word.tame_expandDirect (fun _ => tame_directBoundWithin _ _) false).bind fun _ => tame_pure _

end VirtualShell
