import VirtualShell.Proofs.Expansion.Direct

/-!
# The scripts that an expansion runs

Whether a command substitution in a word is run depends on the values of parameters at that moment,
and bounds of substrings may hold more of them. So the scripts that an expansion runs are listed
along the expansion itself, each with its status.

* `Statuses` — the statuses of the scripts that a step runs, for each shell.
* `Word.statuses` — those of the expansion of a word.
* `Run.Reports` — a step leaves the status of the last script it has run, or the status from before.
* **`Word.reports_expand`** — the expansion of a word does so.
* **`Word.statuses_eq_none`** — a word that runs no script by its looks runs none.
-/

namespace VirtualShell

open ParamOp.runsScript

/-! ## Statuses -/

/-- The statuses of the scripts that a step runs in a shell, in their order. -/
abbrev Statuses := Shell → List Int

namespace Statuses

variable {α : Type}

/-- No script is run. -/
def none : Statuses := fun _ => []

/-- What one step runs, and then what the steps after it run in the shell it leaves. -/
def andThen (first : Statuses) (step : Run α) (rest : α → Statuses) : Statuses := fun shell =>
  first shell ++
    match step shell with
    | (.ok a, next) => rest a next
    | (.error _, _) => []

theorem andThen_of_ok {first : Statuses} {step : Run α} {rest : α → Statuses} {shell next : Shell}
    {a : α} (h : step shell = (.ok a, next)) :
    andThen first step rest shell = first shell ++ rest a next := by
  simp only [andThen, h]

theorem andThen_none (step : Run α) : andThen none step (fun _ => none) = none := by
  funext shell
  rw [andThen]
  rcases step shell with ⟨_ | _, _⟩ <;> rfl

end Statuses

mutual

/-- The statuses of the scripts that the expansion of a piece runs, given those of bounds. -/
def Part.statuses (x : Expander) (bound : String → Statuses) : Part → (quoted : Bool) → Statuses
  | .literal _, _ | .quoted _, _ | .escaped _, _ | .tilde _, _ | .parameter _ none, _ => .none
  | .doubleQuoted parts, _ => Part.allStatuses x bound parts true
  | .parameter name (some op), quoted => fun shell =>
    match shell.parameter? name with
    | .ok value => ParamOp.statuses x bound op name value quoted shell
    | .error _ => []
  | .arithmetic expression, _ => Word.statuses x bound expression false
  | .substitution body _, _ => fun shell =>
    match x.substitute body shell with
    | (.ok o, _) => [o.status]
    | (.error _, _) => []
termination_by structural part => part

/-- **The statuses of the scripts that the expansion of a word runs**, given those of bounds. -/
def Word.statuses (x : Expander) (bound : String → Statuses) : Word → (quoted : Bool) → Statuses
  | ⟨parts, _⟩, quoted => Part.allStatuses x bound parts quoted
termination_by structural word => word

/-- The statuses of the scripts that an operation on the value of a parameter runs. Which of its
words are expanded depends on the value. -/
def ParamOp.statuses (x : Expander) (bound : String → Statuses) :
    ParamOp → (name : String) → (value : Option String) → (quoted : Bool) → Statuses
  | .default word colon, _, value, quoted =>
    if isMissing value colon then Word.statuses x bound word quoted else .none
  | .assign word colon, name, value, _ =>
    if isMissing value colon then
      if !isAssignable name then .none else Word.statuses x bound word false
    else .none
  | .alternative word colon, _, value, quoted =>
    if isMissing value colon then .none else Word.statuses x bound word quoted
  | .error word colon, _, value, _ =>
    if isMissing value colon then Word.statuses x bound word false else .none
  | .length, _, _, _ => .none
  | .removePrefix pattern _, _, _, _ | .removeSuffix pattern _, _, _, _ =>
    Word.statuses x bound pattern false
  | .replace pattern replacement _, _, _, _ =>
    .andThen (Word.statuses x bound pattern false) (Word.expand x pattern false) fun _ =>
      Word.statuses x bound replacement false
  | .substring offset length, _, _, _ =>
    .andThen (bound offset) (x.bound offset) fun _ => length.elim .none bound
termination_by structural op => op

/-- The statuses of the scripts that the expansion of some pieces runs. -/
def Part.allStatuses (x : Expander) (bound : String → Statuses) :
    List Part → (quoted : Bool) → Statuses
  | [], _ => .none
  | part :: parts, quoted =>
    .andThen (Part.statuses x bound part quoted) (Part.expand x part quoted) fun _ =>
      Part.allStatuses x bound parts quoted
termination_by structural parts => parts

end

/-- The statuses of the scripts that reading a bound runs, where bounds stand inside one another at
most so deep. -/
def boundStatuses (substitute : Script → Run Outcome) : Nat → String → Statuses
  | 0, _ => .none
  | n + 1, text =>
    match Word.parseExpanded text with
    | .ok word => word.statuses (.ofSubstitute substitute) (boundStatuses substitute n) false
    | .error _ => .none

/-- **The statuses of the scripts that a word has run** by some way of running scripts. A bound
inside a bound is a shorter text, so there are enough levels. -/
def Word.ran (substitute : Script → Run Outcome) (word : Word) (quoted : Bool) : Statuses :=
  word.statuses (.ofSubstitute substitute)
    (fun text => boundStatuses substitute (text.length + 1) text) quoted

/-! ## The status that a step leaves -/

namespace Run

variable {α β : Type}

/-- **The step leaves the status of the last script it has run**, and the status from before when it
has run none. -/
def Reports (x : Run α) (ran : Statuses) : Prop :=
  ∀ (shell next : Shell) (a : α), x shell = (.ok a, next) →
    next.status = (ran shell).getLastD shell.status

theorem reports_pure (a : α) : Reports (pure a : Run α) .none := by
  intro shell next b h
  cases h
  rfl

theorem reports_get : Reports (get : Run Shell) .none := by
  intro shell next b h
  cases h
  rfl

theorem reports_modify {f : Shell → Shell} (hf : ∀ shell, (f shell).status = shell.status) :
    Reports (modify f : Run Unit) .none := by
  intro shell next b h
  cases h
  exact hf shell

/-- What never comes to its end leaves no status. -/
theorem reports_throw (i : Interrupt) (ran : Statuses) : Reports (throw i : Run α) ran := by
  intro shell next b h
  cases h

theorem reports_exit (status : Int) (message : String) (ran : Statuses) :
    Reports (exit status message : Run α) ran :=
  reports_throw _ ran

theorem reports_orFault {ε : Type} (f : ε → Fault) (r : Except ε α) :
    Reports (orFault f r) .none := by
  cases r with
  | ok a => exact reports_pure a
  | error e => exact reports_throw _ _

theorem getLastD_append (first rest : List Int) (status : Int) :
    (first ++ rest).getLastD status = rest.getLastD (first.getLastD status) := by
  simp only [List.getLastD_eq_getLast?, List.getLast?_append]
  cases rest.getLast? <;> rfl

namespace Reports

variable {x : Run α} {ran : Statuses}

/-- **One step after another** has run what both have run. -/
theorem bind {f : α → Run β} {rest : α → Statuses} (hx : Reports x ran)
    (hf : ∀ a, Reports (f a) (rest a)) : Reports (x >>= f) (ran.andThen x rest) := by
  intro shell final b h
  rw [bind_apply] at h
  rcases hrun : x shell with ⟨i | a, next⟩
  · rw [hrun] at h
    cases h
  · rw [hrun] at h
    rw [Statuses.andThen_of_ok hrun, getLastD_append, ← hx _ _ _ hrun]
    exact hf a _ _ _ h

/-- A step that is followed by one without scripts. -/
theorem bind_none {f : α → Run β} (hx : Reports x ran) (hf : ∀ a, Reports (f a) .none) :
    Reports (x >>= f) ran := by
  intro shell final b h
  have hstatus := hx.bind hf _ _ _ h
  rw [bind_apply] at h
  rcases hrun : x shell with ⟨i | a, next⟩
  · rw [hrun] at h
    cases h
  · rwa [Statuses.andThen_of_ok hrun, Statuses.none, List.append_nil] at hstatus

theorem ite {c : Prop} [Decidable c] {y : Run α} {others : Statuses} (hx : Reports x ran)
    (hy : Reports y others) : Reports (if c then x else y) (if c then ran else others) := by
  split
  · exact hx
  · exact hy

end Reports

theorem reports_variableOr (name fallback : String) : Reports (variableOr name fallback) .none :=
  reports_get.bind_none fun _ => reports_pure _

theorem reports_setVariable (name value : String) : Reports (setVariable name value) .none :=
  reports_modify fun _ => rfl

theorem reports_arithmetic (text : String) : Reports (arithmetic text) .none := by
  refine reports_get.bind_none fun shell => ?_
  rcases (Arith.evaluate text).run shell.variables with ⟨result, vars⟩
  refine Reports.bind_none (reports_modify fun _ => rfl) fun _ => ?_
  cases result with
  | ok value => exact reports_pure _
  | error e =>
    dsimp only
    split
    · exact reports_pure _
    · exact reports_throw _ _

end Run

open Run

theorem reports_arithmeticValue (text : String) : Reports (arithmeticValue text) .none := by
  refine (reports_arithmetic text).bind_none fun result => ?_
  cases result with
  | ok value => exact reports_pure _
  | error e => exact reports_exit _ _ _

theorem reports_expandParameter (name : String) (quoted : Bool) :
    Reports (expandParameter name quoted) .none := by
  refine reports_get.bind_none fun shell => ?_
  split
  · exact reports_pure _
  · split
    · exact (reports_variableOr _ _).bind_none fun _ => reports_pure _
    · exact (reports_orFault _ _).bind_none fun _ => reports_pure _

theorem reports_expandTilde (user : Option String) (quoted : Bool) :
    Reports (expandTilde user quoted) .none := by
  unfold expandTilde
  split
  · exact reports_pure _
  split
  · exact (reports_variableOr _ _).bind_none fun _ => reports_pure _
  · exact reports_get.bind_none fun _ =>
      (reports_variableOr _ _).bind_none fun _ => reports_pure _
  · exact (reports_variableOr _ _).bind_none fun _ => reports_pure _
  · exact reports_pure _

theorem Word.reports_fieldPaths (field : Field) : Reports (fieldPaths field) .none := by
  unfold fieldPaths
  split
  · exact reports_get.bind_none fun _ => (reports_orFault _ _).bind_none fun _ => reports_pure _
  · exact reports_pure _

/-- Running a script makes its status that of the shell. -/
theorem Expander.reports_output (x : Expander) (body : Script) (quoted backticks : Bool)
    (bound : String → Statuses) :
    Reports (x.output body) ((Part.substitution body backticks).statuses x bound quoted) := by
  intro shell final text h
  rw [Expander.output, bind_apply] at h
  simp only [Part.statuses]
  rcases hrun : x.substitute body shell with ⟨i | o, next⟩
  · rw [hrun] at h
    cases h
  · rw [hrun] at h
    cases h
    rfl

/-! ## Words -/

section

variable {substitute : Script → Run Outcome}

/-- Over the running of scripts, the text of a word is always that of its segments. -/
theorem Word.text_ofSubstitute (substitute : Script → Run Outcome) (word : Word) :
    word.textBy (word.expand (.ofSubstitute substitute) false) = do
      return Segment.textOf (← word.expand (.ofSubstitute substitute) false) := by
  rw [textBy]
  split
  · rfl
  · next hruns =>
    rw [directText, word.expandDirect_eq (fun _ => directBound_eq_bound substitute) false
      (eq_false_of_ne_true hruns)]

variable {kind : String → Prop} {body : Script → Prop} {bound : String → Statuses}

mutual

theorem Part.reports_expand
    (hbound : ∀ text, kind text →
      Reports ((Expander.ofSubstitute substitute).bound text) (bound text)) :
    ∀ (part : Part) (quoted : Bool), part.Only kind body →
      Reports (part.expand (.ofSubstitute substitute) quoted)
        (part.statuses (.ofSubstitute substitute) bound quoted)
  | .literal _, _, _ | .quoted _, _, _ | .escaped _, _, _ => reports_pure _
  | .doubleQuoted parts, _, h =>
    (Part.reports_expandAll hbound parts true h).bind_none fun _ => reports_pure _
  | .parameter name none, quoted, _ => reports_expandParameter name quoted
  | .parameter name (some op), quoted, h => by
    intro shell final segments hrun
    rw [Part.expand, bind_apply, get_apply] at hrun
    dsimp only at hrun
    simp only [Part.statuses]
    cases hvalue : shell.parameter? name with
    | ok value =>
      rw [hvalue] at hrun
      exact ParamOp.reports_expand hbound op name value quoted h _ _ _ hrun
    | error f =>
      rw [hvalue] at hrun
      cases hrun
  | .tilde user, quoted, _ => (reports_expandTilde user quoted).bind_none fun _ => reports_pure _
  | .arithmetic expression, _, h => by
    rw [Part.expand, Word.text_ofSubstitute, bind_assoc]
    exact (Word.reports_expand hbound expression false h).bind_none fun _ =>
      (reports_pure _).bind_none fun _ =>
        (reports_arithmeticValue _).bind_none fun _ => reports_pure _
  | .substitution script backticks, quoted, _ =>
    (Expander.reports_output _ script quoted backticks bound).bind_none fun _ => reports_pure _

/-- **The expansion of a word leaves the status of the last script it has run.** -/
theorem Word.reports_expand
    (hbound : ∀ text, kind text →
      Reports ((Expander.ofSubstitute substitute).bound text) (bound text)) :
    ∀ (word : Word) (quoted : Bool), word.Only kind body →
      Reports (word.expand (.ofSubstitute substitute) quoted)
        (word.statuses (.ofSubstitute substitute) bound quoted)
  | ⟨parts, _⟩, quoted, h => Part.reports_expandAll hbound parts quoted h

theorem ParamOp.reports_expand
    (hbound : ∀ text, kind text →
      Reports ((Expander.ofSubstitute substitute).bound text) (bound text)) :
    ∀ (op : ParamOp) (name : String) (value : Option String) (quoted : Bool), op.Only kind body →
      Reports (op.expand (.ofSubstitute substitute) name value quoted)
        (op.statuses (.ofSubstitute substitute) bound name value quoted)
  | .default word _, _, _, quoted, h =>
    ((Word.reports_expand hbound word quoted h).bind_none fun _ => reports_pure _).ite
      (reports_pure _)
  | .assign word _, _, _, _, h => by
    rw [ParamOp.expand, Word.text_ofSubstitute, bind_assoc]
    refine Reports.ite (Reports.ite (reports_exit _ _ _) ?_) (reports_pure _)
    exact (Word.reports_expand hbound word false h).bind_none fun _ =>
      (reports_pure _).bind_none fun _ =>
        (reports_setVariable _ _).bind_none fun _ => reports_pure _
  | .alternative word _, _, _, quoted, h =>
    Reports.ite (reports_pure _) <|
      (Word.reports_expand hbound word quoted h).bind_none fun _ => reports_pure _
  | .error word _, _, _, _, h => by
    rw [ParamOp.expand, Word.text_ofSubstitute, bind_assoc]
    refine Reports.ite ?_ (reports_pure _)
    exact (Word.reports_expand hbound word false h).bind_none fun _ =>
      (reports_pure _).bind_none fun _ => reports_exit _ _ _
  | .length, _, _, _, _ => reports_get.bind_none fun _ => reports_pure _
  | .removePrefix pattern _, _, _, _, h | .removeSuffix pattern _, _, _, _, h =>
    (Word.reports_expand hbound pattern false h).bind_none fun _ =>
      (reports_orFault _ _).bind_none fun _ => reports_pure _
  | .replace pattern replacement _, _, _, _, h => by
    rw [ParamOp.expand, Word.text_ofSubstitute]
    refine (Word.reports_expand hbound pattern false h.1).bind fun _ => ?_
    rw [bind_assoc]
    exact (Word.reports_expand hbound replacement false h.2).bind_none fun _ =>
      (reports_pure _).bind_none fun _ => (reports_orFault _ _).bind_none fun _ => reports_pure _
  | .substring offset length, _, value, quoted, h => by
    refine (hbound offset h.1).bind fun start => ?_
    have hslice (size : Option Int) : Reports (match slice (value.getD "") start size with
        | some text => pure [.value quoted text]
        | none => Run.exit 1 ("bash: " ++ length.getD "" ++ ": substring expression < 0\n") :
          Run (List Segment)) .none := by
      split
      · exact reports_pure _
      · exact reports_exit _ _ _
    cases length with
    | none => exact hslice none
    | some text =>
      refine Reports.bind_none ?_ hslice
      rw [map_eq_pure_bind]
      exact (hbound text (h.2 text rfl)).bind_none fun _ => reports_pure _

theorem Part.reports_expandAll
    (hbound : ∀ text, kind text →
      Reports ((Expander.ofSubstitute substitute).bound text) (bound text)) :
    ∀ (parts : List Part) (quoted : Bool), Part.AllOnly kind body parts →
      Reports (Part.expandAll (.ofSubstitute substitute) parts quoted)
        (Part.allStatuses (.ofSubstitute substitute) bound parts quoted)
  | [], _, _ => reports_pure _
  | part :: parts, quoted, h =>
    (Part.reports_expand hbound part quoted h.1).bind fun _ =>
      (Part.reports_expandAll hbound parts quoted h.2).bind_none fun _ => reports_pure _

end

/-- Reading a bound leaves the status of the last script it has run. -/
theorem Expander.reports_bound (n : Nat) (text : String) (hn : text.length < n) :
    Reports ((Expander.ofSubstitute substitute).bound text) (boundStatuses substitute n text) := by
  induction n generalizing text with
  | zero => cases hn
  | succ n ih =>
    rw [bound_ofSubstitute, readBound, boundStatuses]
    cases hword : Word.parseExpanded text with
    | error e => exact reports_throw _ _
    | ok word =>
      have hexpand := Word.reports_expand (fun inner hinner => ih inner (by omega)) word
        false (Word.bounds_short_of_parseExpanded hword)
      simp only [orFault, pure_bind, Word.value, Word.text, Word.text_ofSubstitute, bind_assoc]
      exact hexpand.bind_none fun _ => reports_arithmeticValue _

/-- **The expansion of a word leaves the status of the last script it has run**, whatever stands in
its bounds. -/
theorem Word.reports_ran (substitute : Script → Run Outcome) (word : Word) (quoted : Bool) :
    Reports (word.expand (.ofSubstitute substitute) quoted) (word.ran substitute quoted) := by
  have hbound (text : String) (_ : True) :
      Reports ((Expander.ofSubstitute substitute).bound text)
        (boundStatuses substitute (text.length + 1) text) :=
    Expander.reports_bound _ text (Nat.lt_succ_self _)
  exact Word.reports_expand hbound word quoted
    (Word.only_of_forall (fun _ => trivial) (fun _ => trivial) word)

end

/-! ## Words that run no script -/

section

variable {x : Expander} {bound : String → Statuses}

mutual

theorem Part.statuses_eq_none (hbound : ∀ text, marksScript text = false → bound text = .none) :
    ∀ (part : Part) (quoted : Bool), part.runsScript = false →
      part.statuses x bound quoted = .none
  | .literal _, _, _ | .quoted _, _, _ | .escaped _, _, _ | .tilde _, _, _
  | .parameter _ none, _, _ => rfl
  | .doubleQuoted parts, _, h => Part.allStatuses_eq_none hbound parts true h
  | .parameter name (some op), quoted, h => by
    funext shell
    simp only [Part.statuses]
    cases shell.parameter? name with
    | ok value => exact congrFun (ParamOp.statuses_eq_none hbound op name value quoted h) shell
    | error f => rfl
  | .arithmetic expression, _, h => Word.statuses_eq_none hbound expression false h
  | .substitution _ _, _, h => Bool.noConfusion h

/-- **A word that runs no script by its looks runs none.** -/
theorem Word.statuses_eq_none (hbound : ∀ text, marksScript text = false → bound text = .none) :
    ∀ (word : Word) (quoted : Bool), word.runsScript = false →
      word.statuses x bound quoted = .none
  | ⟨parts, _⟩, quoted, h => Part.allStatuses_eq_none hbound parts quoted h

theorem ParamOp.statuses_eq_none (hbound : ∀ text, marksScript text = false → bound text = .none) :
    ∀ (op : ParamOp) (name : String) (value : Option String) (quoted : Bool),
      op.runsScript = false → op.statuses x bound name value quoted = .none
  | .default word _, _, _, quoted, h | .alternative word _, _, _, quoted, h => by
    rw [ParamOp.statuses, Word.statuses_eq_none hbound word quoted h, ite_self]
  | .assign word _, _, _, _, h => by
    rw [ParamOp.statuses, Word.statuses_eq_none hbound word false h, ite_self, ite_self]
  | .error word _, _, _, _, h => by
    rw [ParamOp.statuses, Word.statuses_eq_none hbound word false h, ite_self]
  | .length, _, _, _, _ => rfl
  | .removePrefix pattern _, _, _, _, h | .removeSuffix pattern _, _, _, _, h =>
    Word.statuses_eq_none hbound pattern false h
  | .replace pattern replacement _, _, _, _, h => by
    obtain ⟨hpattern, hreplacement⟩ := Bool.or_eq_false_iff.1 h
    rw [ParamOp.statuses, Word.statuses_eq_none hbound pattern false hpattern,
      Word.statuses_eq_none hbound replacement false hreplacement, Statuses.andThen_none]
  | .substring offset length, _, _, _, h => by
    obtain ⟨hoffset, hlength⟩ := Bool.or_eq_false_iff.1 h
    rw [ParamOp.statuses, hbound offset hoffset]
    cases length with
    | none => exact Statuses.andThen_none _
    | some text =>
      simp only [Option.elim, hbound text hlength, Statuses.andThen_none]

theorem Part.allStatuses_eq_none
    (hbound : ∀ text, marksScript text = false → bound text = .none) :
    ∀ (parts : List Part) (quoted : Bool), Part.anyRunsScript parts = false →
      Part.allStatuses x bound parts quoted = .none
  | [], _, _ => rfl
  | part :: parts, quoted, h => by
    obtain ⟨hpart, hparts⟩ := Bool.or_eq_false_iff.1 h
    rw [Part.allStatuses, Part.statuses_eq_none hbound part quoted hpart,
      Part.allStatuses_eq_none hbound parts quoted hparts, Statuses.andThen_none]

end

/-- A bound without the marks of a script runs none. -/
theorem boundStatuses_eq_none (substitute : Script → Run Outcome) (n : Nat) {text : String}
    (htext : marksScript text = false) : boundStatuses substitute n text = .none := by
  induction n generalizing text with
  | zero => rfl
  | succ n ih =>
    rw [boundStatuses]
    cases hword : Word.parseExpanded text with
    | error e => rfl
    | ok word =>
      exact Word.statuses_eq_none (fun _ => ih) word false
        (Word.runsScript_of_parseExpanded htext hword)

/-- **A word that runs no script by its looks has run none.** -/
theorem Word.ran_eq_none (substitute : Script → Run Outcome) (word : Word) (quoted : Bool)
    (hword : word.runsScript = false) : word.ran substitute quoted = .none :=
  word.statuses_eq_none (fun _ => boundStatuses_eq_none substitute _) quoted hword

end

end VirtualShell
