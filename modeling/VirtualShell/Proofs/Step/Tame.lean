import VirtualShell.Builtin.Registry
import VirtualShell.Proofs.Step.Arithmetic
import VirtualShell.Proofs.Step.Basic

/-!
# The tame steps of a shell

All that a shell does by itself is tame: looking up and assigning variables, asking and changing
files, matching patterns, working out arithmetic, conditions and redirections, and the builtins
apart from `break` and `continue`, which leave loops, and `return`, which leaves a function. What
else is not tame is what runs scripts, and what opens and closes scopes, loops and calls around it.
-/

namespace VirtualShell

namespace Run

variable {α ε : Type}

/-! ## Parts of the state -/

/-- What changes the variables only, and opens and closes no scope. -/
theorem sameSetting_variables {shell : Shell} {vars : Variables}
    (h : vars.depth = shell.variables.depth) :
    shell.SameSetting { shell with «variables» := vars } :=
  .of_place (by simp [Shell.frame, h]) rfl rfl rfl

/-- An operation that changes files is tame. -/
theorem tame_onFiles (c : FileSystem.Change) : Tame (onFiles c.action) :=
  fun shell => ⟨⟨rfl, rfl, .inl rfl, .of_change c shell.files⟩, nofun⟩

theorem tame_askFiles (question : FileSystem → Except FileError α) : Tame (askFiles question) :=
  tame_get.bind fun _ => tame_pure _

theorem tame_setVariable (name value : String) : Tame (setVariable name value) :=
  tame_modify fun shell => sameSetting_variables (shell.variables.depth_set name value)

theorem tame_variableOr (name fallback : String) : Tame (variableOr name fallback) :=
  tame_get.bind fun _ => tame_pure _

theorem tame_pathOf (text : String) : Tame (pathOf text) := tame_get.bind fun _ => tame_pure _

/-- What is done with the path of a text is done with a normal path. -/
theorem Tame.bind_pathOf {β : Type} {text : String} {f : Path → Run β}
    (hf : ∀ path : Path, path.IsNormal → Tame (f path)) : Tame (pathOf text >>= f) :=
  fun shell => hf _ (Path.isNormal_resolve (Path.isNormal_ofString _) text) shell

theorem tame_arithmetic (text : String) : Tame (arithmetic text) := by
  intro shell
  have hdepth := Arith.depth_evaluate text shell.variables
  rcases h : (Arith.evaluate text).run shell.variables with ⟨result, vars⟩
  replace hdepth : vars.depth = shell.variables.depth := (congrArg (·.2.depth) h).symm.trans hdepth
  have hset := sameSetting_variables hdepth
  simp only [arithmetic, bind_apply, get_apply, h, modify_apply]
  cases result with
  | ok value => exact ⟨hset, nofun⟩
  | error e =>
    have htail := (tame_pure (.error e)).ite (c := e.isReported = true)
      (tame_fault (α := Except Arith.Error Int) (.arithmetic e))
    exact ⟨hset.trans (htail _).1, (htail _).2⟩

end Run

open Run

/-! ## Expansion -/

theorem tame_expandParameter (name : String) (quoted : Bool) :
    Tame (expandParameter name quoted) := by
  unfold expandParameter
  refine tame_get.bind fun shell => .ite (tame_pure _) (.ite ?_ ?_)
  · exact (tame_variableOr _ _).bind fun _ => tame_pure _
  · exact (tame_orFault _ _).bind fun _ => tame_pure _

theorem tame_expandTilde (user : Option String) (quoted : Bool) :
    Tame (expandTilde user quoted) := by
  unfold expandTilde
  split
  · exact tame_pure _
  split
  · exact (tame_variableOr _ _).bind fun _ => tame_pure _
  · exact tame_get.bind fun _ => (tame_variableOr _ _).bind fun _ => tame_pure _
  · exact (tame_variableOr _ _).bind fun _ => tame_pure _
  · exact tame_pure _

theorem tame_arithmeticValue (text : String) : Tame (arithmeticValue text) := by
  refine (tame_arithmetic text).bind fun result => ?_
  cases result with
  | ok value => exact tame_pure _
  | error e => exact tame_exit _ _

theorem Word.tame_fieldPaths (field : Field) : Tame (fieldPaths field) := by
  unfold fieldPaths
  refine .ite ?_ (tame_pure _)
  exact tame_get.bind fun _ => (tame_orFault _ _).bind fun _ => tame_pure _

/-! ## Conditions -/

namespace Condition

theorem tame_entryOf? (operand : String) : Tame (entryOf? operand) :=
  (tame_pathOf _).bind fun _ => tame_get.bind fun _ => tame_pure _

theorem UnaryOp.tame_answer (op : UnaryOp) (operand : String) : Tame (op.answer operand) := by
  unfold answer
  split
  case h_1 | h_2 => exact tame_pure _
  -- a link is looked at itself, every other entry where the path leads
  case h_3 | h_4 =>
    refine (tame_pathOf _).bind fun path => tame_get.bind fun shell => ?_
    split <;> exact tame_pure _
  case h_5 =>
    refine (tame_entryOf? _).bind fun entry => ?_
    split <;> exact tame_pure _

theorem tameOr_numberOf (form : Form) (text : String) : TameOr (numberOf form text) := by
  unfold numberOf
  cases form with
  | brackets =>
    refine (tame_arithmetic text).lift.bind fun result => ?_
    cases result with
    | ok value => exact tameOr_pure _
    | error e => exact tameOr_throw _
  | command =>
    dsimp only
    generalize Text.readDecimal (Text.stripBlanks text) = number
    cases number with
    | ok value => exact tameOr_pure _
    | error e => exact tameOr_throw _

theorem tame_isEqual (left right : String) (pattern : Option String) :
    Tame (isEqual left right pattern) := by
  cases pattern with
  | some pattern => exact tame_orFault _ _
  | none => exact tame_pure _

theorem tameOr_findRegex (text pattern : String) : TameOr (findRegex text pattern) := by
  unfold findRegex
  refine tame_get.lift.bind fun shell => ?_
  split
  · exact tameOr_throw _
  · exact (tame_fault _).lift
  · split
    · exact (tame_setVariable _ _).lift.bind fun _ => tameOr_pure _
    · exact tameOr_pure _

theorem tame_times (left right : String) : Tame (times left right) :=
  (tame_entryOf? _).bind fun _ => (tame_entryOf? _).bind fun _ => tame_pure _

theorem tame_realPathOf (operand : String) : Tame (realPathOf operand) :=
  (tame_pathOf _).bind fun _ => (tame_askFiles _).bind fun _ => tame_orFault _ _

theorem BinaryOp.tameOr_answer (form : Form) (op : BinaryOp) (left right : String)
    (pattern : Option String) : TameOr (op.answer form left right pattern) := by
  unfold answer
  split
  · exact (tame_isEqual _ _ _).lift
  · exact (tame_isEqual _ _ _).lift
  · exact (tame_isEqual _ _ _).lift.bind fun _ => tameOr_pure _
  · exact tameOr_pure _
  · exact tameOr_pure _
  · exact tameOr_findRegex _ _
  · exact (tameOr_numberOf _ _).bind fun _ => (tameOr_numberOf _ _).bind fun _ => tameOr_pure _
  · refine (tame_times _ _).lift.bind fun _ => ?_
    split <;> exact tameOr_pure _
  · refine (tame_times _ _).lift.bind fun _ => ?_
    split <;> exact tameOr_pure _
  · refine (tame_times _ _).lift.bind fun _ => ?_
    split
    · exact (tame_realPathOf _).lift.bind fun _ => (tame_realPathOf _).lift.bind fun _ =>
        tameOr_pure _
    · exact tameOr_pure _

theorem Expr.tameOr_answer (form : Form) (e : Expr) : TameOr (e.answer form) := by
  induction e with
  | text value => exact tameOr_pure _
  | unary op operand => exact (op.tame_answer operand).lift
  | binary op left right pattern => exact op.tameOr_answer form left right pattern
  | not e ih => exact ih.bind fun _ => tameOr_pure _
  | and left right ihl ihr => exact ihl.bind fun _ => ihr.ite (tameOr_pure _)
  | or left right ihl ihr => exact ihl.bind fun _ => (tameOr_pure _).ite ihr
  | group inner ih => exact ih

theorem tame_status (form : Form) (words : List Operand) : Tame (status form words) := by
  unfold status
  refine (tame_pure _).ite ?_
  split
  · exact tame_pure _
  · next e _ =>
    refine Tame.bind (e.tameOr_answer form) fun answer => ?_
    split <;> exact tame_pure _

end Condition

/-! ## Redirections -/

namespace Streams

theorem tameOr_onFiles (name : String) (c : FileSystem.Change) :
    TameOr (onFiles name c.action) := by
  refine (tame_onFiles c).lift.bind fun result => ?_
  cases result with
  | ok => exact tameOr_pure _
  | error e => exact tameOr_throw _

theorem tameOr_contentOf (name : String) : TameOr (contentOf name) := by
  refine .ite (tameOr_throw _) (.ite (tameOr_pure _) ?_)
  refine (tame_pathOf _).lift.bind fun path => (tame_askFiles _).lift.bind fun content => ?_
  cases content with
  | ok content => exact tameOr_pure _
  | error e => exact tameOr_throw _

theorem tameOr_destinationOf (name : String) (extending : Bool) :
    TameOr (destinationOf name extending) := by
  refine .ite (tameOr_throw _) (.ite (tameOr_pure _) (.ite (tameOr_pure _) (.ite (tameOr_pure _) ?_)))
  refine (tame_pathOf _).lift.bind fun path => tame_get.lift.bind fun shell => ?_
  refine .ite (tameOr_throw _) (.ite ?_ (tameOr_pure _))
  exact (tameOr_onFiles name (.write path.render "")).bind fun _ => tameOr_pure _

theorem tameOr_duplicate (s : Streams) (descriptor : Nat) (name : String) :
    TameOr (s.duplicate descriptor name) := by
  refine .ite (tameOr_pure _) ((tame_orFault _ _).lift.bind fun source => ?_)
  split
  · exact tameOr_pure _
  · exact (tameOr_pure _).ite (tameOr_throw _)

theorem tameOr_both (s : Streams) (name : String) (extending : Bool) :
    TameOr (redirectTo.both s name extending) :=
  (tameOr_destinationOf _ _).bind fun _ => tameOr_pure _

theorem tameOr_redirectTo (s : Streams) (op : RedirectOp) (descriptor : Option Nat)
    (name : String) : TameOr (s.redirectTo op descriptor name) := by
  unfold redirectTo
  cases op with
  | input => exact (tameOr_contentOf _).bind fun _ => tameOr_pure _
  | hereString | hereDocument | hereDocumentTabs => exact tameOr_pure _
  | output | clobber | append => exact (tameOr_destinationOf _ _).bind fun _ => tameOr_pure _
  | bothOutput | bothAppend => exact tameOr_both _ _ _
  | duplicateOutput =>
    exact .ite (tameOr_duplicate _ _ _) ((tameOr_both _ _ _).ite (tameOr_throw _))
  | duplicateInput => exact (tameOr_duplicate _ _ _).ite (tameOr_throw _)

theorem tame_extend (place : Path) (text : String) : Tame (extend place text) :=
  .ite ((tame_onFiles (.append place.render text)).bind fun _ => tame_orFault _ _) (tame_pure _)

theorem tame_deliver (s : Streams) (output : Output) : Tame (s.deliver output) :=
  (Tame.forM (fun _ => tame_extend _ _) _).bind fun _ => tame_pure _

end Streams

end VirtualShell

/-! ## Builtins -/

namespace VirtualShell.Builtin

open Run

theorem tame_overAll {step : String → Run (Option String)} (h : ∀ word, Tame (step word))
    (name : String) (arguments : List String) : Tame (overAll name step arguments) :=
  (Tame.mapM h arguments).bind fun _ => tame_pure _

/-! ## Directories -/

theorem Directory.tame_goTo (target : String) (showing : Bool) : Tame (goTo target showing) := by
  unfold goTo
  refine tame_get.bind fun shell => Tame.bind_pathOf fun path hpath => ?_
  refine .ite (tame_pure _) (.ite (tame_pure _) ?_)
  have hmove : Tame (modify fun now : Shell =>
      { now with previousDirectory := shell.directory, directory := path.render }) :=
    tame_modify fun _ => ⟨rfl, rfl, .inr ⟨path, hpath, rfl⟩, .refl _⟩
  exact hmove.bind fun _ => (tame_setVariable _ _).bind fun _ => (tame_setVariable _ _).bind fun _ =>
    tame_pure _

theorem Directory.tame_change (arguments : List String) : Tame (change arguments) := by
  unfold change
  split
  · exact tame_pure _
  · exact (tame_variableOr _ _).bind fun _ => tame_goTo _ _
  · exact tame_get.bind fun _ => (tame_pure _).ite (tame_goTo _ _)
  · exact tame_goTo _ _
  · exact tame_pure _

/-! ## Variables -/

theorem tame_onVariables {change : Variables → Variables}
    (h : ∀ vars, (change vars).depth = vars.depth) : Tame (onVariables change) :=
  tame_modify fun shell => sameSetting_variables (h shell.variables)

theorem Export.tame_one (removing : Bool) (argument : String) : Tame (one removing argument) := by
  unfold one
  split
  next name value _ =>
  refine (tame_pure _).ite (.ite ?_ ?_)
  · exact (tame_onVariables fun vars => vars.depth_unexport name).bind fun _ => tame_pure _
  · have hmark : Tame (do onVariables (·.exportName name); pure none : Run (Option String)) :=
      (tame_onVariables fun vars => vars.depth_exportName name).bind fun _ => tame_pure _
    cases value with
    | some value => exact (tame_onVariables fun vars => vars.depth_set _ _).bind fun _ => hmark
    | none => exact hmark

theorem Export.tame_run (arguments : List String) : Tame (Export.run arguments) := by
  unfold Export.run
  split
  · exact tame_pure _
  · exact .ite (tame_get.bind fun _ => tame_pure _) (tame_overAll (tame_one _) _ _)

theorem Local.tame_one (argument : String) : Tame (one argument) := by
  unfold one
  split
  next name value _ =>
  refine (tame_pure _).ite ?_
  cases value with
  | some value => exact (tame_onVariables fun vars => vars.depth_declare _ _).bind fun _ => tame_pure _
  | none =>
    refine (tame_onVariables fun vars => ?_).bind fun _ => tame_pure _
    split
    · rfl
    · exact vars.depth_declare _ _

theorem Local.tame_run (arguments : List String) : Tame (Local.run arguments) :=
  tame_get.bind fun _ => (tame_pure _).ite (tame_overAll tame_one _ _)

theorem Unset.tame_removeFunction (name : String) : Tame (removeFunction name) :=
  tame_modify fun _ => .of_place rfl rfl rfl rfl

theorem Unset.tame_removeVariable (name : String) : Tame (removeVariable name) := by
  unfold removeVariable
  refine (tame_pure _).ite fun shell => ?_
  simp only [bind_apply, get_apply]
  cases h : shell.variables.erase? name with
  | none =>
    have htail : Tame (removeFunction name >>= fun _ => pure none) :=
      (tame_removeFunction name).bind fun _ => tame_pure (none : Option String)
    exact htail shell
  | some vars => exact ⟨sameSetting_variables (Variables.depth_erase? h), nofun⟩

theorem Unset.tame_run (arguments : List String) : Tame (Unset.run arguments) := by
  unfold Unset.run
  split
  · exact tame_pure _
  · exact (Tame.forM tame_removeFunction _).bind fun _ => tame_pure _
  · exact tame_overAll tame_removeVariable _ _

/-! ## Conditions and leaving -/

theorem tame_answer (name : String) (arguments : List String) : Tame (answer name arguments) := by
  refine (Condition.tame_status _ _).bind fun ⟨status, error⟩ => ?_
  cases error with
  | some e => exact tame_pure _
  | none => exact tame_pure _

theorem tame_bracket (arguments : List String) : Tame (bracket arguments) :=
  (tame_answer _ _).ite (tame_pure _)

theorem Control.tame_statusOf (arguments : List String) : Tame (statusOf arguments) := by
  unfold statusOf
  split
  · exact tame_get.bind fun _ => tame_pure _
  · split
    · exact tame_pure _
    · exact tame_pure _

theorem Control.tame_exitScript (arguments : List String) : Tame (exitScript arguments) := by
  refine (tame_statusOf arguments).bind fun status => ?_
  cases status with
  | ok status => exact tame_throw trivial
  | error message => exact tame_exit _ _

theorem Control.tame_levels (name : String) (arguments : List String) :
    Tame (levels name arguments) := by
  unfold levels
  split
  · exact tame_pure _
  · split
    · exact tame_exit _ _
    · exact (tame_exit _ _).ite (tame_pure _)

/-- The builtins that leave loops or a function. -/
def leaving : List (String × Builtin) :=
  [("break", Control.breakLoop), ("continue", Control.continueLoop), ("return", Control.returnCall)]

/-- **A builtin is tame, or it is one of the three that leave.** -/
theorem tame_or_leaving {name : String} {builtin : Builtin} (h : named? name = some builtin) :
    (∀ arguments, Tame (builtin arguments)) ∨ builtin ∈ leaving.map (·.2) := by
  have hmem : (name, builtin) ∈ all := by
    obtain ⟨before, rest, hall, -⟩ := List.lookup_eq_some_iff.1 h
    simp [hall]
  simp only [all, List.mem_cons, Prod.mk.injEq, List.not_mem_nil, or_false] at hmem
  rcases hmem with ⟨_, rfl⟩ | ⟨_, rfl⟩ | ⟨_, rfl⟩ | ⟨_, rfl⟩ | ⟨_, rfl⟩ | ⟨_, rfl⟩ | ⟨_, rfl⟩ |
    ⟨_, rfl⟩ | ⟨_, rfl⟩ | ⟨_, rfl⟩ | ⟨_, rfl⟩ | ⟨_, rfl⟩ | ⟨_, rfl⟩
  · exact .inl Directory.tame_change
  · exact .inl Export.tame_run
  · exact .inl Unset.tame_run
  · exact .inl Local.tame_run
  · exact .inr (by simp [leaving])
  · exact .inr (by simp [leaving])
  · exact .inr (by simp [leaving])
  · exact .inl Control.tame_exitScript
  · exact .inl (tame_answer _)
  · exact .inl tame_bracket
  · exact .inl fun _ => tame_pure _
  · exact .inl fun _ => tame_pure _
  · exact .inl fun _ => tame_pure _

end VirtualShell.Builtin
