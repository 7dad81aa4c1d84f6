import VirtualShell.Proofs.Step.Tame
import VirtualShell.Proofs.Step.Direct

/-!
# Relations between steps

To compare two ways of running scripts, or to show that all runs keep something, it is enough to say
what is compared or kept at the places where steps stand, and that the constructs of the language
respect it.

* `StepRelation` — a relation in four forms: between steps of words, between commands, between parts
  of a turn of a loop, and between what a loop still does when it has some turns left.
* **`StepRelation.IsClosed`** — tame steps are related to themselves, and every construct that is
  not tame leads from related steps to related steps.
* `Expander.Related` — two ways of running the scripts inside words. Related expanders expand every
  word in related ways (`Word.expand_related` and what follows from it).
-/

namespace VirtualShell

/-- One interrupt is the signal that another one is, perhaps with another output. -/
def Interrupt.Repeats (i j : Interrupt) : Prop :=
  ∃ (s : Signal) (before after : Output), i = .signal s before ∧ j = .signal s after

namespace Run

variable {α : Type}

/-- A handler changes contents only, and leaves what it handles by no new signal to a loop or to a
function: it may send on the signal that it was given. -/
def IsHandler (h : Interrupt → Run α) : Prop :=
  ∀ i shell, shell.SameSetting (h i shell).2 ∧
    ∀ j, (h i shell).1 = .error j → j.IsCalm ∨ i.Repeats j

theorem isHandler_after (earlier : Output) :
    IsHandler fun i => (throw (i.after earlier) : Run α) := by
  intro i shell
  refine ⟨.refl shell, fun j hj => ?_⟩
  cases hj
  cases i with
  | signal s output => exact .inr ⟨s, output, earlier ++ output, rfl, rfl⟩
  | fault f => exact .inl trivial

/-- A handler that answers an interrupt by a result, or sends it on as it is. -/
def IsAnswer (h : Interrupt → Run α) : Prop := ∀ i, (∃ a, h i = pure a) ∨ h i = throw i

namespace IsAnswer

variable {h : Interrupt → Run α} (hh : IsAnswer h)
include hh

theorem isHandler : IsHandler h := by
  intro i shell
  rcases hh i with ⟨a, ha⟩ | hthrow
  · rw [ha]
    exact ⟨.refl shell, nofun⟩
  · rw [hthrow]
    refine ⟨.refl shell, fun j hj => ?_⟩
    cases hj
    cases i with
    | signal s output => exact .inr ⟨s, output, output, rfl, rfl⟩
    | fault f => exact .inl trivial

/-- An answer changes nothing. -/
theorem state_eq (i : Interrupt) (shell : Shell) : (h i shell).2 = shell := by
  rcases hh i with ⟨a, ha⟩ | hthrow
  · rw [ha]
    rfl
  · rw [hthrow]
    rfl

end IsAnswer

end Run

open Run

/-- **A relation between steps**, in a form for each kind of place at which steps stand. -/
structure StepRelation where
  /-- In words. -/
  word : {α : Type} → Run α → Run α → Prop
  /-- As commands. -/
  command : {α : Type} → Run α → Run α → Prop
  /-- As a part of a turn of a loop. -/
  turn : {α : Type} → Run α → Run α → Prop
  /-- As the rest of a loop that has some turns left. -/
  loop : Nat → {α : Type} → Run α → Run α → Prop

namespace StepRelation

variable {α β : Type}

/-- **The constructs of the language respect a relation**, for shells with some limits. -/
structure IsClosed (R : StepRelation) (limits : Limits) : Prop where
  word_tame {α : Type} {x : Run α} : Tame x → R.word x x
  word_bind {α β : Type} {x y : Run α} {f g : α → Run β} :
    R.word x y → (∀ a, R.word (f a) (g a)) → R.word (x >>= f) (y >>= g)
  word_handle {α : Type} {x y : Run α} {h : Interrupt → Run α} :
    R.word x y → IsHandler h → R.word (tryCatch x h) (tryCatch y h)
  command_word {α : Type} {x y : Run α} : R.word x y → R.command x y
  command_bind {α β : Type} {x y : Run α} {f g : α → Run β} :
    R.command x y → (∀ a, R.command (f a) (g a)) → R.command (x >>= f) (y >>= g)
  command_handle {α : Type} {x y : Run α} {h : Interrupt → Run α} :
    R.command x y → IsHandler h → R.command (tryCatch x h) (tryCatch y h)
  command_leaving {builtin : Builtin} (arguments : List String) :
    builtin ∈ Builtin.leaving.map (·.2) → R.command (builtin arguments) (builtin arguments)
  command_accept : R.command (accept limits) (accept limits)
  command_binding {x y : Run Outcome} (bindings : Table String String) :
    R.command x y → R.command (Run.binding bindings x) (Run.binding bindings y)
  command_withInput {x y : Run Outcome} (input : String) :
    R.command x y → R.command (withInput input x) (withInput input y)
  command_withExpansionErrors {x y : Run Outcome} :
    R.command x y → R.command (withExpansionErrors x) (withExpansionErrors y)
  command_inside {α : Type} {x y : Run α} :
    R.loop (Loop.turns limits) x y → R.command (Loop.inside x) (Loop.inside y)
  turn_word {α : Type} {x y : Run α} : R.word x y → R.turn x y
  turn_bind {α β : Type} {x y : Run α} {f g : α → Run β} :
    R.turn x y → (∀ a, R.turn (f a) (g a)) → R.turn (x >>= f) (y >>= g)
  turn_part {x y : Output → Run Outcome} (written : Output) :
    (∀ o, R.command (x o) (y o)) → R.turn (Loop.part written x) (Loop.part written y)
  loop_turn {α : Type} {x y : Run α} (n : Nat) : R.turn x y → R.loop n x y
  loop_bind {α β : Type} {x y : Run α} {f g : α → Run β} (n : Nat) :
    R.turn x y → (∀ a, R.loop n (f a) (g a)) → R.loop n (x >>= f) (y >>= g)
  loop_begin {α : Type} {x y : Run α} (n : Nat) :
    R.loop n x y → R.loop (n + 1) (Loop.beginTurn >>= fun _ => x) (Loop.beginTurn >>= fun _ => y)
  loop_succ {α : Type} {x y : Run α} (n : Nat) : R.loop n x y → R.loop (n + 1) x y

namespace IsClosed

variable {R : StepRelation} {limits : Limits} (h : R.IsClosed limits)
include h

theorem word_pure (a : α) : R.word (pure a) (pure a) := h.word_tame (tame_pure a)

theorem word_map (f : α → β) {x y : Run α} (hxy : R.word x y) : R.word (f <$> x) (f <$> y) := by
  simp only [map_eq_pure_bind]
  exact h.word_bind hxy fun a => h.word_pure (f a)

theorem word_after {x y : Run α} (earlier : Output) (hxy : R.word x y) :
    R.word (after earlier x) (after earlier y) := by
  simp only [after_eq_tryCatch]
  exact h.word_handle hxy (isHandler_after earlier)

theorem word_mapM {f g : α → Run β} (hfg : ∀ a, R.word (f a) (g a)) (as : List α) :
    R.word (as.mapM f) (as.mapM g) := by
  induction as with
  | nil => exact h.word_pure []
  | cons a as ih =>
    simp only [List.mapM_cons]
    exact h.word_bind (hfg a) fun b => h.word_bind ih fun bs => h.word_pure (b :: bs)

theorem command_tame {x : Run α} (hx : Tame x) : R.command x x := h.command_word (h.word_tame hx)

theorem command_pure (a : α) : R.command (pure a) (pure a) := h.command_tame (tame_pure a)

omit h in
theorem command_ite {c : Prop} [Decidable c] {x y x' y' : Run α} (hxy : R.command x y)
    (hxy' : R.command x' y') : R.command (if c then x else x') (if c then y else y') := by
  split
  · exact hxy
  · exact hxy'

theorem command_after {x y : Run α} (earlier : Output) (hxy : R.command x y) :
    R.command (after earlier x) (after earlier y) := by
  simp only [after_eq_tryCatch]
  exact h.command_handle hxy (isHandler_after earlier)

omit h in
theorem turn_ite {c : Prop} [Decidable c] {x y x' y' : Run α} (hxy : R.turn x y)
    (hxy' : R.turn x' y') : R.turn (if c then x else x') (if c then y else y') := by
  split
  · exact hxy
  · exact hxy'

theorem turn_pure (a : α) : R.turn (pure a) (pure a) := h.turn_word (h.word_pure a)

theorem loop_pure (n : Nat) (a : α) : R.loop n (pure a) (pure a) := h.loop_turn n (h.turn_pure a)

end IsClosed

end StepRelation

/-! ## Words -/

/-- **Two ways of running the scripts inside words**, which a relation holds between. -/
structure Expander.Related (R : StepRelation) (x y : Expander) : Prop where
  substitute : ∀ body, R.word (x.substitute body) (y.substitute body)
  bound : ∀ text, R.word (x.bound text) (y.bound text)

section Words

variable {R : StepRelation} {limits : Limits} {x y : Expander}

/-- The text of a word is expanded directly, whatever the expander, unless a script may be run. -/
theorem Word.textBy_related (h : R.IsClosed limits) (word : Word) {first second : Run (List Segment)}
    (hsegments : R.word first second) : R.word (word.textBy first) (word.textBy second) := by
  unfold Word.textBy
  split
  · exact h.word_bind hsegments fun _ => h.word_pure _
  · exact h.word_tame word.tame_directText

theorem Expander.Related.output (h : R.IsClosed limits) (hxy : x.Related R y) (body : Script) :
    R.word (x.output body) (y.output body) := by
  refine h.word_bind (hxy.substitute body) fun outcome => h.word_bind (h.word_tame ?_) fun _ =>
    h.word_pure _
  exact tame_modify fun _ => .of_place rfl rfl rfl rfl

mutual

theorem Part.expand_related (h : R.IsClosed limits) (hxy : x.Related R y) :
    ∀ (part : Part) (quoted : Bool), R.word (part.expand x quoted) (part.expand y quoted)
  | .literal _, _ => h.word_pure _
  | .quoted _, _ => h.word_pure _
  | .escaped _, _ => h.word_pure _
  | .doubleQuoted parts, _ =>
    h.word_bind (Part.expandAll_related h hxy parts true) fun _ => h.word_pure _
  | .parameter name none, quoted => h.word_tame (tame_expandParameter name quoted)
  | .parameter name (some op), quoted =>
    h.word_bind (h.word_tame tame_get) fun _ => h.word_bind (h.word_tame (tame_orFault _ _)) fun _ =>
      ParamOp.expand_related h hxy op name _ quoted
  | .tilde user, quoted => h.word_tame ((tame_expandTilde user quoted).bind fun _ => tame_pure _)
  | .arithmetic expression, _ =>
    h.word_bind (expression.textBy_related h (Word.expand_related h hxy expression false)) fun _ =>
      h.word_tame ((tame_arithmeticValue _).bind fun _ => tame_pure _)
  | .substitution body _, _ => h.word_bind (hxy.output h body) fun _ => h.word_pure _

theorem Word.expand_related (h : R.IsClosed limits) (hxy : x.Related R y) :
    ∀ (word : Word) (quoted : Bool), R.word (word.expand x quoted) (word.expand y quoted)
  | ⟨parts, _⟩, quoted => Part.expandAll_related h hxy parts quoted

theorem ParamOp.expand_related (h : R.IsClosed limits) (hxy : x.Related R y) :
    ∀ (op : ParamOp) (name : String) (value : Option String) (quoted : Bool),
      R.word (op.expand x name value quoted) (op.expand y name value quoted)
  | .default word colon, _, value, quoted => by
    simp only [ParamOp.expand]
    split
    · exact h.word_bind (Word.expand_related h hxy word quoted) fun _ => h.word_pure _
    · exact h.word_pure _
  | .assign word colon, name, value, quoted => by
    simp only [ParamOp.expand]
    split
    · split
      · exact h.word_tame (tame_exit _ _)
      · exact h.word_bind (word.textBy_related h (Word.expand_related h hxy word false)) fun _ =>
          h.word_tame ((tame_setVariable _ _).bind fun _ => tame_pure _)
    · exact h.word_pure _
  | .alternative word colon, _, value, quoted => by
    simp only [ParamOp.expand]
    split
    · exact h.word_pure _
    · exact h.word_bind (Word.expand_related h hxy word quoted) fun _ => h.word_pure _
  | .error word colon, name, value, quoted => by
    simp only [ParamOp.expand]
    split
    · exact h.word_bind (word.textBy_related h (Word.expand_related h hxy word false)) fun _ =>
        h.word_tame (tame_exit _ _)
    · exact h.word_pure _
  | .length, _, _, _ => h.word_tame (tame_get.bind fun _ => tame_pure _)
  | .removePrefix pattern _, _, _, _ =>
    h.word_bind (Word.expand_related h hxy pattern false) fun _ =>
      h.word_tame ((tame_orFault _ _).bind fun _ => tame_pure _)
  | .removeSuffix pattern _, _, _, _ =>
    h.word_bind (Word.expand_related h hxy pattern false) fun _ =>
      h.word_tame ((tame_orFault _ _).bind fun _ => tame_pure _)
  | .replace pattern replacement _, _, _, _ =>
    h.word_bind (Word.expand_related h hxy pattern false) fun _ =>
      h.word_bind
        (replacement.textBy_related h (Word.expand_related h hxy replacement false)) fun _ =>
        h.word_tame ((tame_orFault _ _).bind fun _ => tame_pure _)
  | .substring offset length, _, value, quoted => by
    simp only [ParamOp.expand]
    have hslice (start : Int) (size : Option Int) : Tame (match slice (value.getD "") start size with
        | some text => pure [.value quoted text]
        | none => Run.exit 1 ("bash: " ++ length.getD "" ++ ": substring expression < 0\n") :
          Run (List Segment)) := by
      split
      · exact tame_pure _
      · exact tame_exit _ _
    refine h.word_bind (hxy.bound offset) fun start => ?_
    cases length with
    | none => exact h.word_tame (hslice start none)
    | some text =>
      exact h.word_bind (h.word_map some (hxy.bound text)) fun size => h.word_tame (hslice start size)

theorem Part.expandAll_related (h : R.IsClosed limits) (hxy : x.Related R y) :
    ∀ (parts : List Part) (quoted : Bool),
      R.word (Part.expandAll x parts quoted) (Part.expandAll y parts quoted)
  | [], _ => h.word_pure _
  | part :: parts, quoted =>
    h.word_bind (Part.expand_related h hxy part quoted) fun _ =>
      h.word_bind (Part.expandAll_related h hxy parts quoted) fun _ => h.word_pure _

end

namespace Word

theorem text_related (h : R.IsClosed limits) (hxy : x.Related R y) (word : Word) :
    R.word (word.text x) (word.text y) :=
  word.textBy_related h (word.expand_related h hxy false)

theorem pattern_related (h : R.IsClosed limits) (hxy : x.Related R y) (word : Word) :
    R.word (word.pattern x) (word.pattern y) :=
  h.word_bind (word.expand_related h hxy false) fun _ => h.word_pure _

theorem value_related (h : R.IsClosed limits) (hxy : x.Related R y) (word : Word) :
    R.word (word.value x) (word.value y) :=
  h.word_bind (word.text_related h hxy) fun _ => h.word_tame (tame_arithmeticValue _)

theorem fields_related (h : R.IsClosed limits) (hxy : x.Related R y) (word : Word) :
    R.word (word.fields x) (word.fields y) :=
  h.word_bind (word.expand_related h hxy false) fun _ => h.word_tame <|
    (tame_variableOr _ _).bind fun _ => (Tame.mapM tame_fieldPaths _).bind fun _ => tame_pure _

theorem allFields_related (h : R.IsClosed limits) (hxy : x.Related R y) (words : List Word) :
    R.word (allFields x words) (allFields y words) :=
  h.word_bind (h.word_mapM (fun word => word.fields_related h hxy) words) fun _ => h.word_pure _

end Word

/-- Expanders are related when what they rest on is: bounds of substrings are words again. -/
theorem Expander.related_ofSubstitute {substitute substitute' : Script → Run Outcome}
    (h : R.IsClosed limits) (hsubstitute : ∀ body, R.word (substitute body) (substitute' body)) :
    (Expander.ofSubstitute substitute).Related R (.ofSubstitute substitute') := by
  have hbound (n : Nat) (text : String) :
      R.word (boundWithin substitute n text) (boundWithin substitute' n text) := by
    induction n generalizing text with
    | zero => exact h.word_tame (tame_fault _)
    | succ n ih =>
      refine h.word_bind (h.word_tame (tame_orFault _ _)) fun word => ?_
      exact word.value_related h ⟨hsubstitute, ih⟩
  exact ⟨hsubstitute, fun text => hbound _ text⟩

end Words

end VirtualShell
