import VirtualShell.Proofs.Step.Basic

/-!
# Steps that are blind to the input of a group

What the commands around a command read is a part of the state of a shell, and only pipelines ask
for it. The steps that expand words, set up redirections and send output do the same whatever it is.

* `Shell.reading` — a shell in which the commands of a group read another input.
* `Run.BlindAt`, **`Run.Blind`** — a step that does the same whatever the group reads, from one
  shell or from every shell.
* `Expander.IsBlind` — expanders whose scripts and bounds are blind; by them all words are.
-/

namespace VirtualShell

namespace Shell

/-- The shell in which the commands of a group read another input, or none. -/
def reading (shell : Shell) (input : Option String) : Shell := { shell with groupInput := input }

end Shell

namespace Run

variable {α β ε : Type} {shell : Shell} {x : Run α}

/-! ## Blind steps -/

/-- A step that does the same from a shell, whatever the group reads there, and leaves that. -/
def BlindAt (x : Run α) (shell : Shell) : Prop :=
  ∀ input, x (shell.reading input) = ((x shell).1, (x shell).2.reading input)

/-- **A step that does the same whatever the group reads.** -/
def Blind (x : Run α) : Prop := ∀ shell, BlindAt x shell

theorem blind_pure (a : α) : Blind (pure a : Run α) := fun _ _ => rfl

theorem blind_throw (i : Interrupt) : Blind (throw i : Run α) := fun _ _ => rfl

theorem blind_fault (f : Fault) : Blind (fault f : Run α) := blind_throw _

theorem blind_exit (status : Int) (message : String) : Blind (exit status message : Run α) :=
  blind_throw _

theorem blind_orFault (f : ε → Fault) (result : Except ε α) : Blind (orFault f result) := by
  cases result with
  | ok a => exact blind_pure a
  | error e => exact blind_fault (f e)

/-- A change that is made in the same way whatever the group reads. -/
theorem blind_modify {f : Shell → Shell}
    (hf : ∀ shell input, f (shell.reading input) = (f shell).reading input) :
    Blind (modify f : Run Unit) :=
  fun shell input => congrArg (Prod.mk (Except.ok ())) (hf shell input)

/-- What is done with a shell does not depend on what the group reads. -/
theorem blind_asking {f : Shell → Run α} (hask : ∀ shell input, f (shell.reading input) = f shell)
    (hf : ∀ shell, Blind (f shell)) : Blind (get >>= f) := by
  intro shell input
  have hsame : f (shell.reading input) (shell.reading input) = f shell (shell.reading input) := by
    rw [hask]
  exact hsame.trans (hf shell shell input)

theorem BlindAt.bind {f : α → Run β} (hx : BlindAt x shell)
    (hf : ∀ a next, x shell = (.ok a, next) → BlindAt (f a) next) : BlindAt (x >>= f) shell := by
  intro input
  rw [bind_apply, bind_apply, hx input]
  rcases h : x shell with ⟨i | a, next⟩
  · rfl
  · exact hf a next h input

theorem BlindAt.handle {h : Interrupt → Run α} (hx : BlindAt x shell) (hh : ∀ i, Blind (h i)) :
    BlindAt (tryCatch x h) shell := by
  intro input
  rw [tryCatch_apply, tryCatch_apply, hx input]
  rcases x shell with ⟨i | a, next⟩
  · exact hh i next input
  · rfl

theorem blindAt_during {enter : Shell → Shell} {leave : Shell → Shell → Shell}
    (henter : ∀ input, enter (shell.reading input) = (enter shell).reading input)
    (hleave : ∀ final input,
      leave (shell.reading input) (final.reading input) = (leave shell final).reading input)
    (hx : BlindAt x (enter shell)) : BlindAt (during enter leave x) shell := by
  intro input
  simp only [during, henter, hx input, hleave]
  rfl

namespace Blind

/-- What the group reads is left as it was. -/
theorem groupInput_eq (hx : Blind x) (shell : Shell) :
    (x shell).2.groupInput = shell.groupInput := by
  have hsame : x shell = ((x shell).1, (x shell).2.reading shell.groupInput) :=
    hx shell shell.groupInput
  rw [hsame]
  rfl

theorem bind {f : α → Run β} (hx : Blind x) (hf : ∀ a, Blind (f a)) : Blind (x >>= f) :=
  fun shell => (hx shell).bind fun a next _ => hf a next

theorem map (f : α → β) (hx : Blind x) : Blind (f <$> x) := by
  rw [map_eq_pure_bind]
  exact hx.bind fun _ => blind_pure _

theorem ite {c : Prop} [Decidable c] {y : Run α} (hx : Blind x) (hy : Blind y) :
    Blind (if c then x else y) := by
  split
  · exact hx
  · exact hy

theorem mapM {f : α → Run β} (hf : ∀ a, Blind (f a)) (as : List α) : Blind (as.mapM f) := by
  induction as with
  | nil => exact blind_pure []
  | cons a as ih =>
    rw [List.mapM_cons]
    exact (hf a).bind fun _ => ih.bind fun _ => blind_pure _

theorem forM {f : α → Run Unit} (hf : ∀ a, Blind (f a)) (as : List α) : Blind (as.forM f) := by
  induction as with
  | nil => exact blind_pure ()
  | cons a as ih => exact (hf a).bind fun _ => ih

end Blind

/-! ## Steps with failures of their own -/

/-- A step that may fail in its own way, and is blind either way. -/
def BlindOr (x : ExceptT ε Run α) : Prop := Blind x.run

theorem blindOr_pure (a : α) : BlindOr (pure a : ExceptT ε Run α) :=
  blind_pure (Except.ok (ε := ε) a)

theorem blindOr_throw (e : ε) : BlindOr (throw e : ExceptT ε Run α) :=
  blind_pure (Except.error (α := α) e)

theorem Blind.lift {x : Run α} (hx : Blind x) : BlindOr (liftM x : ExceptT ε Run α) :=
  hx.map (Except.ok (ε := ε))

namespace BlindOr

theorem bind {x : ExceptT ε Run α} {f : α → ExceptT ε Run β} (hx : BlindOr x)
    (hf : ∀ a, BlindOr (f a)) : BlindOr (x >>= f) := by
  rw [BlindOr, ExceptT.run_bind]
  refine Blind.bind hx fun result => ?_
  cases result with
  | ok a => exact hf a
  | error e => exact blind_pure _

theorem ite {c : Prop} [Decidable c] {x y : ExceptT ε Run α} (hx : BlindOr x) (hy : BlindOr y) :
    BlindOr (if c then x else y) := by
  split
  · exact hx
  · exact hy

end BlindOr

/-! ## Parts of the state -/

theorem blind_onFiles (action : FileAction α) : Blind (onFiles action) := fun _ _ => rfl

theorem blind_askFiles (question : FileSystem → Except FileError α) : Blind (askFiles question) :=
  fun _ _ => rfl

theorem blind_setVariable (name value : String) : Blind (setVariable name value) := fun _ _ => rfl

theorem blind_variableOr (name fallback : String) : Blind (variableOr name fallback) :=
  fun _ _ => rfl

theorem blind_pathOf (text : String) : Blind (pathOf text) := fun _ _ => rfl

theorem blind_arithmetic (text : String) : Blind (arithmetic text) := by
  refine blind_asking (fun _ _ => rfl) fun shell => ?_
  rcases (Arith.evaluate text).run shell.variables with ⟨result, vars⟩
  refine (blind_modify fun _ _ => rfl).bind fun _ => ?_
  cases result with
  | ok value => exact blind_pure _
  | error e => exact (blind_pure _).ite (blind_fault _)

end Run

open Run

/-! ## Redirections -/

namespace Streams

theorem blindOr_onFiles (name : String) (action : FileAction Unit) :
    BlindOr (onFiles name action) := by
  refine (blind_onFiles action).lift.bind fun result => ?_
  cases result with
  | ok => exact blindOr_pure _
  | error e => exact blindOr_throw _

theorem blindOr_contentOf (name : String) : BlindOr (contentOf name) := by
  refine .ite (blindOr_throw _) (.ite (blindOr_pure _) ?_)
  refine (blind_pathOf _).lift.bind fun path => (blind_askFiles _).lift.bind fun content => ?_
  cases content with
  | ok content => exact blindOr_pure _
  | error e => exact blindOr_throw _

/-- Where a name means a file, only the files are asked for. -/
theorem blindOr_destinationOf (name : String) (extending : Bool) :
    BlindOr (destinationOf name extending) := by
  refine .ite (blindOr_throw _)
    (.ite (blindOr_pure _) (.ite (blindOr_pure _) (.ite (blindOr_pure _) ?_)))
  refine (blind_pathOf _).lift.bind fun path => ?_
  rw [BlindOr, ExceptT.run_bind]
  refine blind_asking (fun _ _ => rfl) fun shell => ?_
  have hopen := (blindOr_onFiles name (FileSystem.write path.render "")).bind fun _ =>
    blindOr_pure (Destination.file path)
  exact BlindOr.ite (blindOr_throw _) (.ite hopen (blindOr_pure _))

theorem blindOr_duplicate (s : Streams) (descriptor : Nat) (name : String) :
    BlindOr (s.duplicate descriptor name) := by
  refine .ite (blindOr_pure _) ((blind_orFault _ _).lift.bind fun source => ?_)
  split
  · exact blindOr_pure _
  · exact (blindOr_pure _).ite (blindOr_throw _)

theorem blindOr_both (s : Streams) (name : String) (extending : Bool) :
    BlindOr (redirectTo.both s name extending) :=
  (blindOr_destinationOf _ _).bind fun _ => blindOr_pure _

theorem blindOr_redirectTo (s : Streams) (op : RedirectOp) (descriptor : Option Nat)
    (name : String) : BlindOr (s.redirectTo op descriptor name) := by
  unfold redirectTo
  cases op with
  | input => exact (blindOr_contentOf _).bind fun _ => blindOr_pure _
  | hereString | hereDocument | hereDocumentTabs => exact blindOr_pure _
  | output | clobber | append => exact (blindOr_destinationOf _ _).bind fun _ => blindOr_pure _
  | bothOutput | bothAppend => exact blindOr_both _ _ _
  | duplicateOutput =>
    exact .ite (blindOr_duplicate _ _ _) ((blindOr_both _ _ _).ite (blindOr_throw _))
  | duplicateInput => exact (blindOr_duplicate _ _ _).ite (blindOr_throw _)

theorem blind_extend (place : Path) (text : String) : Blind (extend place text) :=
  .ite ((blind_onFiles _).bind fun _ => blind_orFault _ _) (blind_pure _)

theorem blind_deliver (s : Streams) (output : Output) : Blind (s.deliver output) :=
  (Blind.forM (fun _ => blind_extend _ _) _).bind fun _ => blind_pure _

/-- Output is sent in the same way whatever the group reads. -/
theorem blindAt_around (s : Streams) {run : Run Outcome} {shell : Shell}
    (hrun : BlindAt run shell) : BlindAt (s.around run) shell := by
  refine (hrun.handle fun i => ?_).bind fun outcome next _ =>
    ((blind_deliver s _).bind fun _ => blind_pure _) next
  cases i with
  | signal signal output => exact (blind_deliver s output).bind fun _ => blind_throw _
  | fault f => exact blind_fault f

end Streams

/-! ## Words -/

theorem blind_expandParameter (name : String) (quoted : Bool) :
    Blind (expandParameter name quoted) := by
  refine blind_asking (fun _ _ => rfl) fun shell => .ite (blind_pure _) (.ite ?_ ?_)
  · exact (blind_variableOr _ _).bind fun _ => blind_pure _
  · exact (blind_orFault _ _).bind fun _ => blind_pure _

theorem blind_expandTilde (user : Option String) (quoted : Bool) :
    Blind (expandTilde user quoted) := by
  unfold expandTilde
  split
  · exact blind_pure _
  split
  · exact (blind_variableOr _ _).bind fun _ => blind_pure _
  · exact blind_asking (fun _ _ => rfl) fun _ => (blind_variableOr _ _).bind fun _ => blind_pure _
  · exact (blind_variableOr _ _).bind fun _ => blind_pure _
  · exact blind_pure _

theorem blind_arithmeticValue (text : String) : Blind (arithmeticValue text) := by
  refine (blind_arithmetic text).bind fun result => ?_
  cases result with
  | ok value => exact blind_pure _
  | error e => exact blind_exit _ _

theorem Word.blind_fieldPaths (field : Field) : Blind (fieldPaths field) :=
  .ite (blind_asking (fun _ _ => rfl) fun _ => (blind_orFault _ _).bind fun _ => blind_pure _)
    (blind_pure _)

/-- The value of a parameter is asked for, and what follows is blind. -/
theorem blind_parameter (name : String) {f : Option String → Run (List Segment)}
    (hf : ∀ value, Blind (f value)) :
    Blind (do f (← orFault id ((← get).parameter? name))) :=
  blind_asking (fun _ _ => rfl) fun _ => (blind_orFault _ _).bind hf

/-- A part of a value, or the message that there is none. -/
theorem blind_slice (value length : Option String) (quoted : Bool) (start : Int)
    (size : Option Int) :
    Blind (match slice (value.getD "") start size with
      | some text => pure [.value quoted text]
      | none => Run.exit 1 ("bash: " ++ length.getD "" ++ ": substring expression < 0\n") :
        Run (List Segment)) := by
  split
  · exact blind_pure _
  · exact blind_exit _ _

section Direct

variable {bound : String → Run Int}

mutual

theorem Part.blind_expandDirect (hbound : ∀ text, Blind (bound text)) :
    ∀ (part : Part) (quoted : Bool), Blind (part.expandDirect bound quoted)
  | .literal _, _ | .quoted _, _ | .escaped _, _ => blind_pure _
  | .doubleQuoted parts, _ =>
    (Part.blind_expandAllDirect hbound parts true).bind fun _ => blind_pure _
  | .parameter name none, quoted => blind_expandParameter name quoted
  | .parameter name (some op), quoted =>
    blind_parameter name fun value => ParamOp.blind_expandDirect hbound op name value quoted
  | .tilde user, quoted => (blind_expandTilde user quoted).bind fun _ => blind_pure _
  | .arithmetic expression, _ =>
    (Word.blind_expandDirect hbound expression false).bind fun _ =>
      (blind_arithmeticValue _).bind fun _ => blind_pure _
  | .substitution _ _, _ => blind_fault _

theorem Word.blind_expandDirect (hbound : ∀ text, Blind (bound text)) :
    ∀ (word : Word) (quoted : Bool), Blind (word.expandDirect bound quoted)
  | ⟨parts, _⟩, quoted => Part.blind_expandAllDirect hbound parts quoted

theorem ParamOp.blind_expandDirect (hbound : ∀ text, Blind (bound text)) :
    ∀ (op : ParamOp) (name : String) (value : Option String) (quoted : Bool),
      Blind (op.expandDirect bound name value quoted)
  | .default word _, _, _, quoted =>
    .ite ((Word.blind_expandDirect hbound word quoted).bind fun _ => blind_pure _) (blind_pure _)
  | .assign word _, _, _, _ =>
    .ite (.ite (blind_exit _ _) <| (Word.blind_expandDirect hbound word false).bind fun _ =>
      (blind_setVariable _ _).bind fun _ => blind_pure _) (blind_pure _)
  | .alternative word _, _, _, quoted =>
    .ite (blind_pure _) ((Word.blind_expandDirect hbound word quoted).bind fun _ => blind_pure _)
  | .error word _, _, _, _ =>
    .ite ((Word.blind_expandDirect hbound word false).bind fun _ => blind_exit _ _) (blind_pure _)
  | .length, _, _, _ => blind_asking (fun _ _ => rfl) fun _ => blind_pure _
  | .removePrefix pattern _, _, _, _ | .removeSuffix pattern _, _, _, _ =>
    (Word.blind_expandDirect hbound pattern false).bind fun _ =>
      (blind_orFault _ _).bind fun _ => blind_pure _
  | .replace pattern replacement _, _, _, _ =>
    (Word.blind_expandDirect hbound pattern false).bind fun _ =>
      (Word.blind_expandDirect hbound replacement false).bind fun _ =>
        (blind_orFault _ _).bind fun _ => blind_pure _
  | .substring offset none, _, value, quoted =>
    (hbound offset).bind fun start => blind_slice value none quoted start none
  | .substring offset (some text), _, value, quoted =>
    (hbound offset).bind fun start =>
      ((hbound text).map some).bind fun size => blind_slice value (some text) quoted start size

theorem Part.blind_expandAllDirect (hbound : ∀ text, Blind (bound text)) :
    ∀ (parts : List Part) (quoted : Bool), Blind (Part.expandAllDirect bound parts quoted)
  | [], _ => blind_pure _
  | part :: parts, quoted =>
    (Part.blind_expandDirect hbound part quoted).bind fun _ =>
      (Part.blind_expandAllDirect hbound parts quoted).bind fun _ => blind_pure _

end

end Direct

theorem blind_directBoundWithin (n : Nat) (text : String) : Blind (directBoundWithin n text) := by
  induction n generalizing text with
  | zero => exact blind_fault _
  | succ n ih =>
    exact (blind_orFault _ _).bind fun word =>
      (Word.blind_expandDirect ih word false).bind fun _ => blind_arithmeticValue _

theorem Word.blind_directText (word : Word) : Blind word.directText :=
  (Word.blind_expandDirect (fun _ => blind_directBoundWithin _ _) word false).bind fun _ =>
    blind_pure _

/-- An expander whose scripts and bounds are blind. -/
structure Expander.IsBlind (x : Expander) : Prop where
  substitute : ∀ body, Blind (x.substitute body)
  bound : ∀ text, Blind (x.bound text)

section Expanding

variable {x : Expander}

theorem Expander.IsBlind.output (hx : x.IsBlind) (body : Script) : Blind (x.output body) :=
  (hx.substitute body).bind fun _ => (blind_modify fun _ _ => rfl).bind fun _ => blind_pure _

theorem Word.blind_textBy (word : Word) {segments : Run (List Segment)} (h : Blind segments) :
    Blind (word.textBy segments) :=
  .ite (h.bind fun _ => blind_pure _) word.blind_directText

mutual

theorem Part.blind_expand (hx : x.IsBlind) :
    ∀ (part : Part) (quoted : Bool), Blind (part.expand x quoted)
  | .literal _, _ | .quoted _, _ | .escaped _, _ => blind_pure _
  | .doubleQuoted parts, _ => (Part.blind_expandAll hx parts true).bind fun _ => blind_pure _
  | .parameter name none, quoted => blind_expandParameter name quoted
  | .parameter name (some op), quoted =>
    blind_parameter name fun value => ParamOp.blind_expand hx op name value quoted
  | .tilde user, quoted => (blind_expandTilde user quoted).bind fun _ => blind_pure _
  | .arithmetic expression, _ =>
    (expression.blind_textBy (Word.blind_expand hx expression false)).bind fun _ =>
      (blind_arithmeticValue _).bind fun _ => blind_pure _
  | .substitution body _, _ => (hx.output body).bind fun _ => blind_pure _

theorem Word.blind_expand (hx : x.IsBlind) :
    ∀ (word : Word) (quoted : Bool), Blind (word.expand x quoted)
  | ⟨parts, _⟩, quoted => Part.blind_expandAll hx parts quoted

theorem ParamOp.blind_expand (hx : x.IsBlind) :
    ∀ (op : ParamOp) (name : String) (value : Option String) (quoted : Bool),
      Blind (op.expand x name value quoted)
  | .default word _, _, _, quoted =>
    .ite ((Word.blind_expand hx word quoted).bind fun _ => blind_pure _) (blind_pure _)
  | .assign word _, _, _, _ =>
    .ite (.ite (blind_exit _ _) <| (word.blind_textBy (Word.blind_expand hx word false)).bind fun _ =>
      (blind_setVariable _ _).bind fun _ => blind_pure _) (blind_pure _)
  | .alternative word _, _, _, quoted =>
    .ite (blind_pure _) ((Word.blind_expand hx word quoted).bind fun _ => blind_pure _)
  | .error word _, _, _, _ =>
    .ite ((word.blind_textBy (Word.blind_expand hx word false)).bind fun _ => blind_exit _ _)
      (blind_pure _)
  | .length, _, _, _ => blind_asking (fun _ _ => rfl) fun _ => blind_pure _
  | .removePrefix pattern _, _, _, _ | .removeSuffix pattern _, _, _, _ =>
    (Word.blind_expand hx pattern false).bind fun _ =>
      (blind_orFault _ _).bind fun _ => blind_pure _
  | .replace pattern replacement _, _, _, _ =>
    (Word.blind_expand hx pattern false).bind fun _ =>
      (replacement.blind_textBy (Word.blind_expand hx replacement false)).bind fun _ =>
        (blind_orFault _ _).bind fun _ => blind_pure _
  | .substring offset none, _, value, quoted =>
    (hx.bound offset).bind fun start => blind_slice value none quoted start none
  | .substring offset (some text), _, value, quoted =>
    (hx.bound offset).bind fun start =>
      ((hx.bound text).map some).bind fun size => blind_slice value (some text) quoted start size

theorem Part.blind_expandAll (hx : x.IsBlind) :
    ∀ (parts : List Part) (quoted : Bool), Blind (Part.expandAll x parts quoted)
  | [], _ => blind_pure _
  | part :: parts, quoted =>
    (Part.blind_expand hx part quoted).bind fun _ =>
      (Part.blind_expandAll hx parts quoted).bind fun _ => blind_pure _

end

variable (hx : x.IsBlind)
include hx

namespace Word

theorem blind_text (word : Word) : Blind (word.text x) :=
  word.blind_textBy (blind_expand hx word false)

theorem blind_fields (word : Word) : Blind (word.fields x) :=
  (blind_expand hx word false).bind fun _ => (blind_variableOr _ _).bind fun _ =>
    (Blind.mapM blind_fieldPaths _).bind fun _ => blind_pure _

theorem blind_allFields (words : List Word) : Blind (allFields x words) :=
  (Blind.mapM (blind_fields hx) words).bind fun _ => blind_pure _

end Word

/-! ## Redirections and assignments over words -/

namespace Streams

theorem blindOr_redirect (s : Streams) (redirection : Redirection) :
    BlindOr (s.redirect x redirection) :=
  (Word.blind_text hx _).lift.bind fun _ => blindOr_redirectTo s _ _ _

/-- **Redirections are set up in the same way** whatever the group reads. -/
theorem blindOr_ofRedirections (redirections : List Redirection) (input : String) :
    BlindOr (ofRedirections x redirections input) := by
  unfold ofRedirections
  generalize ofInput input = streams
  induction redirections generalizing streams with
  | nil => exact blindOr_pure _
  | cons redirection rest ih =>
    rw [List.foldlM_cons]
    exact (blindOr_redirect hx streams redirection).bind ih

end Streams

theorem Assignment.blind_result (a : Assignment) : Blind (a.result x) := by
  obtain ⟨name, value, append⟩ := a
  have hjoin (new : String) : Blind (if append = true then
      do return (← variableOr name "") ++ new else pure new : Run String) :=
    .ite ((blind_variableOr _ _).bind fun _ => blind_pure _) (blind_pure _)
  cases value with
  | some word => exact (Word.blind_text hx word).bind hjoin
  | none => exact (blind_pure "").bind hjoin

theorem Assignment.blind_bindings (assignments : List Assignment) :
    Blind (bindings x assignments) :=
  (Blind.mapM (fun a => (Assignment.blind_result hx a).bind fun _ => blind_pure _) _).bind
    fun _ => blind_pure _

end Expanding

/-- Expanders are blind when the running of scripts is. -/
theorem Expander.blind_ofSubstitute {substitute : Script → Run Outcome}
    (hsubstitute : ∀ body, Blind (substitute body)) :
    (Expander.ofSubstitute substitute).IsBlind := by
  have hbound (n : Nat) (text : String) : Blind (boundWithin substitute n text) := by
    induction n generalizing text with
    | zero => exact blind_fault _
    | succ n ih =>
      exact (blind_orFault _ _).bind fun word =>
        (Word.blind_text ⟨hsubstitute, ih⟩ word).bind fun _ => blind_arithmeticValue _
  exact ⟨hsubstitute, fun text => hbound _ text⟩

/-! ## Around commands -/

/-- The shell in which a command runs that is given some variables of its own. -/
def Shell.binding (bindings : Table String String) (shell : Shell) : Shell :=
  if bindings.keys.isEmpty then shell
  else { shell with «variables» := shell.variables.push bindings true }

namespace Run

variable {shell : Shell} {x : Run Outcome}

/-- A command that is given an input does not know what the group around it reads. -/
theorem blind_withInput {input : String} (hinput : input ≠ "") (x : Run Outcome) :
    Blind (withInput input x) := by
  intro shell outer
  have hsome : input.isEmpty = false := by simpa using hinput
  simp only [withInput, during, hsome]
  rfl

theorem blindAt_withExpansionErrors (hx : BlindAt x { shell with expansionErrors := "" }) :
    BlindAt (withExpansionErrors x) shell := by
  intro input
  have hrun : x { shell.reading input with expansionErrors := "" } = _ := hx input
  simp only [withExpansionErrors, hrun]
  rfl

/-- A substitution runs on a copy of the shell in which no group reads anything. -/
theorem blind_substituting (x : Run Outcome) : Blind (substituting x) := fun _ _ => rfl

theorem blindAt_calling {arguments : List String} (hx : BlindAt x (shell.enterCall arguments)) :
    BlindAt (calling arguments x) shell := by
  refine blindAt_during (fun _ => rfl) (fun final input => ?_) (hx.handle fun i => ?_)
  · cases final with
    | mk _ _ _ _ _ outer => cases outer <;> rfl
  · split
    · exact blind_pure _
    · exact blind_throw _

theorem blindAt_binding {bindings : Table String String}
    (hx : BlindAt x (shell.binding bindings)) : BlindAt (binding bindings x) shell := by
  unfold binding
  unfold Shell.binding at hx
  split
  · next hnone =>
    rw [if_pos hnone] at hx
    exact hx
  · next hsome =>
    rw [if_neg hsome] at hx
    exact blindAt_during (fun _ => rfl) (fun _ _ => rfl) hx

end Run

end VirtualShell
