import Mathlib
import VirtualShell.Proofs.Expansion.Statuses
import VirtualShell.Session

/-!
# The status of a command that only assigns

A command without a word, or whose words come to no field, only carries out its assignments. Its
status is taken from the shell when one of its assignments looks as if it ran a script, and is zero
otherwise. The shell then has the status of the last script that was run, in the words or in the
assignments, and may have it from an earlier command.

* `SimpleCommand.ran` — the scripts that the words and the assignments of a command have run.
* `Assignment.runAll_eq` — which status assignments give.
* **`Runner.simple_onlyAssigns`** — the status of a command that only assigns, and when it is that
  of the last script.
-/

namespace VirtualShell

open Run

/-! ## What a command runs -/

/-- The assignment may run a script, by its looks. -/
def Assignment.runsScript (a : Assignment) : Bool := a.value.any Word.runsScript

/-- Carry out an assignment. -/
def Assignment.carryOut (x : Expander) (a : Assignment) : Run Unit := do
  Run.setVariable a.name (← a.result x)

section

variable (substitute : Script → Run Outcome)

/-- The statuses of the scripts that an assignment has run. -/
def Assignment.ran (a : Assignment) : Statuses :=
  a.value.elim .none (·.ran substitute false)

/-- The statuses of the scripts that assignments have run, one after another. -/
def Assignment.allRan : List Assignment → Statuses
  | [] => .none
  | a :: rest =>
    .andThen (a.ran substitute) (a.carryOut (.ofSubstitute substitute)) fun _ => allRan rest

/-- The statuses of the scripts that the fields of some words have run. -/
def Word.allRan : List Word → Statuses
  | [] => .none
  | word :: rest =>
    .andThen (word.ran substitute false) (word.fields (.ofSubstitute substitute)) fun _ =>
      allRan rest

/-- The words of a command, its name first. -/
def SimpleCommand.words (c : SimpleCommand) : List Word := c.name.elim [] (· :: c.args)

/-- **The statuses of the scripts that a command has run** when it only assigns: in its words, and
then in its assignments. -/
def SimpleCommand.ran (c : SimpleCommand) : Statuses :=
  .andThen (Word.allRan substitute c.words) (Word.allFields (.ofSubstitute substitute) c.words)
    fun _ => Assignment.allRan substitute c.assignments

/-! ## The status in the shell -/

theorem Word.reports_fields (word : Word) :
    Reports (word.fields (.ofSubstitute substitute)) (word.ran substitute false) := by
  refine (word.reports_ran substitute false).bind_none fun segments => ?_
  refine (reports_variableOr _ _).bind_none fun separators => ?_
  refine Reports.bind_none ?_ fun _ => reports_pure _
  induction Field.ofSegments separators segments with
  | nil => exact reports_pure _
  | cons field fields ih =>
    rw [List.mapM_cons]
    exact (reports_fieldPaths field).bind_none fun _ => ih.bind_none fun _ => reports_pure _

theorem Word.reports_allFields (words : List Word) :
    Reports (allFields (.ofSubstitute substitute) words) (allRan substitute words) := by
  refine Reports.bind_none ?_ fun _ => reports_pure _
  induction words with
  | nil => exact reports_pure _
  | cons word words ih =>
    rw [List.mapM_cons]
    exact (word.reports_fields substitute).bind fun _ => ih.bind_none fun _ => reports_pure _

theorem Assignment.reports_result (a : Assignment) :
    Reports (a.result (.ofSubstitute substitute)) (a.ran substitute) := by
  obtain ⟨name, value, append⟩ := a
  have hvalue (new : String) :
      Reports (if append then do return (← variableOr name "") ++ new else return new) .none := by
    split
    · exact (reports_variableOr _ _).bind_none fun _ => reports_pure _
    · exact reports_pure _
  cases value with
  | none => exact (reports_pure "").bind_none hvalue
  | some word =>
    have htext : Reports (word.text (.ofSubstitute substitute)) (word.ran substitute false) := by
      rw [Word.text, Word.text_ofSubstitute]
      exact (word.reports_ran substitute false).bind_none fun _ => reports_pure _
    exact htext.bind_none hvalue

theorem Assignment.reports_carryOut (a : Assignment) :
    Reports (a.carryOut (.ofSubstitute substitute)) (a.ran substitute) :=
  (a.reports_result substitute).bind_none fun _ => reports_setVariable _ _

theorem Assignment.reports_forM (assignments : List Assignment) :
    Reports (assignments.forM (carryOut (.ofSubstitute substitute)))
      (allRan substitute assignments) := by
  induction assignments with
  | nil => exact reports_pure _
  | cons a rest ih => exact (a.reports_carryOut substitute).bind fun _ => ih

/-- **The shell has the status of the last script** after a command that only assigns. -/
theorem SimpleCommand.reports_ran (c : SimpleCommand) :
    Reports (do
        let _ ← Word.allFields (.ofSubstitute substitute) c.words
        c.assignments.forM (Assignment.carryOut (.ofSubstitute substitute)))
      (c.ran substitute) :=
  (Word.reports_allFields substitute c.words).bind fun _ =>
    Assignment.reports_forM substitute c.assignments

/-! ## The status of assignments -/

/-- Assignments that run no script by their looks have run none. -/
theorem Assignment.allRan_eq_none {assignments : List Assignment}
    (h : assignments.any runsScript = false) : allRan substitute assignments = .none := by
  induction assignments with
  | nil => rfl
  | cons a rest ih =>
    obtain ⟨ha, hrest⟩ := Bool.or_eq_false_iff.1 h
    have hran : a.ran substitute = .none := by
      obtain ⟨name, _ | word, append⟩ := a
      · rfl
      · exact word.ran_eq_none substitute false ha
    rw [allRan, hran, ih hrest, Statuses.andThen_none]

theorem Assignment.runAll_cons (x : Expander) (status : Int) (a : Assignment)
    (rest : List Assignment) :
    runAll x status (a :: rest) = (do
      a.carryOut x
      let shell ← get
      runAll x (if a.runsScript then shell.status else status) rest) := by
  simp only [runAll, carryOut, runsScript, bind_assoc]
  refine bind_congr fun value => bind_congr fun _ => ?_
  by_cases hruns : a.value.any Word.runsScript
  · simp only [hruns, if_true]
  · simp only [hruns, Bool.false_eq_true, if_false]
    rfl

/-- **The status of assignments** is that of the shell when one of them looks as if it ran a
script. -/
theorem Assignment.runAll_eq {assignments : List Assignment} {shell final : Shell} (status : Int)
    (h : assignments.forM (carryOut (.ofSubstitute substitute)) shell = (.ok (), final)) :
    runAll (.ofSubstitute substitute) status assignments shell =
      (.ok (if assignments.any runsScript then final.status else status), final) := by
  induction assignments generalizing shell status with
  | nil =>
    cases h
    rfl
  | cons a rest ih =>
    rw [List.forM_eq_forM, List.forM_cons, bind_apply] at h
    rw [runAll_cons, bind_apply]
    rcases hcarry : a.carryOut (.ofSubstitute substitute) shell with ⟨i | _, next⟩
    · rw [hcarry] at h
      cases h
    rw [hcarry] at h
    dsimp only at h ⊢
    rw [bind_apply, get_apply]
    refine (ih _ h).trans ?_
    rw [List.any_cons]
    by_cases hrest : rest.any runsScript
    · rw [hrest, Bool.or_true]
      rfl
    · -- nothing has been run since, so the status is still the one after this assignment
      have hrest := eq_false_of_ne_true hrest
      have hkept := reports_forM substitute rest _ _ _ h
      rw [allRan_eq_none substitute hrest] at hkept
      have hkept : final.status = next.status := hkept
      rw [hrest, Bool.or_false, if_neg Bool.false_ne_true, hkept]

/-! ## The main statement -/

theorem Runner.wordsOf_eq (r : Runner) (c : SimpleCommand) :
    r.wordsOf c = Word.allFields r.expander c.words := by
  obtain ⟨assignments, _ | name, args, redirections, line⟩ := c
  · rfl
  · rfl

end

/-- **The status of a command that only assigns.** The words of the command come to no field and its
assignments are carried out; there are no redirections. The status of the shell is then that of the
last script that was run, or the one from before when none was run. The command has this status when
one of its assignments holds a command substitution by its looks, and status zero otherwise.

So it has the status of the last script that was run, and zero when none was run, in exactly these
cases: an assignment holds a command substitution by its looks, and a script was run or the status
from before is zero; or no assignment does, and the last script that was run in a word, if there is
one, had status zero. -/
theorem Runner.simple_onlyAssigns (r : Runner) {substitute : Script → Run Outcome}
    (hr : r.expander = .ofSubstitute substitute) {c : SimpleCommand} (hc : c.redirections = [])
    (input : String) {shell next final : Shell}
    (hwords : Word.allFields r.expander c.words shell = (.ok [], next))
    (hassign : c.assignments.forM (Assignment.carryOut r.expander) next = (.ok (), final)) :
    let ran := c.ran substitute shell
    let looks := c.assignments.any Assignment.runsScript
    let status := if looks then ran.getLastD shell.status else 0
    r.simple c input shell = (.ok (.ofStatus status), final) ∧
      final.status = ran.getLastD shell.status ∧
      (status = ran.getLastD 0 ↔
        if looks then ran = [] → shell.status = 0 else ran.getLastD 0 = 0) := by
  intro ran looks status
  rw [hr] at hwords hassign
  have hfinal : final.status = ran.getLastD shell.status := by
    refine c.reports_ran substitute shell final () ?_
    rw [bind_apply, hwords]
    exact hassign
  refine ⟨?_, hfinal, ?_⟩
  · have hassigned : r.assignments c next =
        Run.redirected r.expander [] "" (fun streams => streams.around (return .ofStatus status))
          final := by
      rw [Runner.assignments, hr, bind_apply, Assignment.runAll_eq substitute 0 hassign, hc, hfinal]
    rw [simple, bind_apply, r.wordsOf_eq, hr, hwords]
    exact hassigned
  · by_cases hnone : ran = []
    · simp only [status, hnone]
      cases looks <;> simp
    · have hlast : ran.getLastD shell.status = ran.getLastD 0 := by
        simp only [List.getLastD_eq_getLast?, List.getLast?_eq_some_getLast hnone, Option.getD_some]
      simp only [status, hlast, hnone]
      cases looks <;> simp [eq_comm]

/-- The script `exit` with a status. -/
def Script.exiting (status : String) : Script :=
  ⟨[⟨⟨[.simple ⟨[], some (.ofLiteral "exit"), [.ofLiteral status], [], 1⟩], false⟩, [], false⟩]⟩

/-- The status of `x=$(exit 3)`. -/
theorem Runner.simple_onlyAssigns_substitution :
    let r := Runner.ofLimits .standard []
    let word : Word := ⟨[.substitution (.exiting "3") false], "$(exit 3)"⟩
    let c : SimpleCommand := ⟨[⟨"x", some word, false⟩], none, [], [], 1⟩
    let shell := Shell.start .bare "/" (.ofGlobals [] []) (.ofClock ⟨0, 0⟩)
    r.expander = .ofSubstitute r.expander.substitute ∧ c.redirections = [] ∧
      Word.allFields r.expander c.words shell = (.ok [], shell) ∧
      (c.assignments.forM (Assignment.carryOut r.expander) shell).1 = .ok () ∧
      (r.simple c "" shell).1 = .ok (.ofStatus 3) := by
  intro r word c shell
  have hexpander : r.expander = .ofSubstitute r.expander.substitute := rfl
  have hredirections : c.redirections = [] := rfl
  have hwords : Word.allFields r.expander c.words shell = (.ok [], shell) := rfl
  have hok : (c.assignments.forM (Assignment.carryOut r.expander) shell).1 = .ok () := by cbv
  obtain ⟨final, hassign⟩ : ∃ final,
      c.assignments.forM (Assignment.carryOut r.expander) shell = (.ok (), final) := by
    generalize c.assignments.forM (Assignment.carryOut r.expander) shell = carried at hok
    exact ⟨carried.2, Prod.ext hok rfl⟩
  have hran : c.ran r.expander.substitute shell = [3] := by cbv
  obtain ⟨hsimple, -⟩ := r.simple_onlyAssigns hexpander hredirections "" hwords hassign
  rw [hran] at hsimple
  exact ⟨hexpander, hredirections, hwords, hok, congrArg (·.1) hsimple⟩

/-- **The status is not always that of the last script.** The word of `$(exit 3)` runs a script with
status three, and the command has status zero. After a command with status one `x=${y:-$(exit 0)}`
runs no script when `y` has a value, and has status one. -/
theorem Runner.simple_onlyAssigns_misses :
    let r := Runner.ofLimits .standard []
    let shell := Shell.start .bare "/" (.ofGlobals [("y", "1")] []) (.ofClock ⟨0, 0⟩)
    let failed := { shell with status := 1 }
    let word : Word := ⟨[.substitution (.exiting "3") false], "$(exit 3)"⟩
    let fallback : Word := ⟨[.substitution (.exiting "0") false], "$(exit 0)"⟩
    let optional : Word :=
      ⟨[.parameter "y" (some (.default fallback true))], "$\x7by:-$(exit 0)\x7d"⟩
    let inWord : SimpleCommand := ⟨[], some word, [], [], 1⟩
    let inValue : SimpleCommand := ⟨[⟨"x", some optional, false⟩], none, [], [], 1⟩
    inWord.ran r.expander.substitute shell = [3] ∧
      (r.simple inWord "" shell).1 = .ok (.ofStatus 0) ∧
      inValue.ran r.expander.substitute failed = [] ∧
      (r.simple inValue "" failed).1 = .ok (.ofStatus 1) := by
  refine ⟨?_, ?_, ?_, ?_⟩
  · decide +kernel
  · cbv
  · decide +kernel
  · cbv

end VirtualShell
