import VirtualShell.Proofs.Reading.Numeral
import VirtualShell.Proofs.Session.Restoration
import VirtualShell.Session

/-!
# What a script can be left by

A script that stands in no loop and in no function is left by `exit` or by a passed limit, if it is
left at all: every other signal is caught by something that the script itself has set up, and every
fault by the pipeline that it comes from.

So whatever text a session is given, it answers with an outcome: that of the script, or status two
where the text is no script. There is one exception. A descriptor before a redirection is any run of
digits, also of digits that no numeral is made of, and what refuses the numeral is then caught by
nobody.

* `Interrupt.EndsScript` — the interrupts that end a script.
* `Run.Faultless` — no fault leaves a step. Faults stop at the stages of pipelines.
* **`Script.ends_exits_or_exceeds`** — only these interrupts leave a script.
* `Session.scriptBody_answers` — a script that was read has an outcome.
* **`Session.run_cases`** — what comes of any text in any session.
-/

namespace VirtualShell

open Run

/-- It ends the script: an exit or a passed limit. -/
def Interrupt.EndsScript : Interrupt → Prop
  | .signal (.exit _) _ | .signal (.excess _) _ => True
  | _ => False

/-! ## Faults -/

namespace Run

variable {α β : Type}

/-- **No fault leaves a step.** -/
def Faultless (x : Run α) : Prop := ∀ shell f, (x shell).1 ≠ .error (.fault f)

theorem Faultless.bind {x : Run α} {f : α → Run β} (hx : Faultless x)
    (hf : ∀ a, Faultless (f a)) : Faultless (x >>= f) := by
  intro shell fault
  have hfirst := hx shell
  rw [bind_apply]
  rcases h : x shell with ⟨i | a, next⟩
  · rw [h] at hfirst
    intro hi
    cases hi
    exact hfirst fault rfl
  · exact hf a next fault

theorem Faultless.after (earlier : Output) {x : Run α} (hx : Faultless x) :
    Faultless (Run.after earlier x) := by
  intro shell fault
  have hfirst := hx shell
  rw [Run.after]
  rcases h : x shell with ⟨i | a, next⟩
  · rw [h] at hfirst
    cases i with
    | fault f => exact absurd rfl (hfirst f)
    | signal s output =>
      intro hi
      cases hi
  · intro hi
    cases hi

theorem isSequential_faultless : IsSequential Faultless where
  pure _ _ _ := nofun
  get _ _ := nofun
  modify _ _ _ _ := nofun
  signal _ _ _ _ := nofun
  bind hx hf := hx.bind hf
  after earlier _ hx := hx.after earlier

/-- **A stage turns faults into failures.** -/
theorem faultless_stage (several : Bool) (label : String) (x : Run Outcome) :
    Faultless (stage several label x) := by
  intro shell fault
  obtain ⟨handler, hanswer, hfault, hstage⟩ := stage_eq_tryCatch several label
  rw [hstage, tryCatch_apply]
  rcases x shell with ⟨(⟨s, output⟩ | f) | o, next⟩
  · rcases hanswer (.signal s output) with ⟨o, ho⟩ | hthrow
    · dsimp only
      rw [ho]
      intro hi
      cases hi
    · dsimp only
      rw [hthrow]
      intro hi
      cases hi
  · obtain ⟨o, ho⟩ := hfault f
    dsimp only
    rw [ho]
    intro hi
    cases hi
  · intro hi
    cases hi

end Run

theorem Statement.faultless_runAll (r : Runner) (o : Outcome) (statements : List Statement) :
    Faultless (Statement.runAll r o statements) :=
  Statement.sequential_runAll isSequential_faultless r
    (fun several command _ => faultless_stage several command.label _) o statements

/-! ## Signals -/

/-- An interrupt that may leave a command outside all loops and functions, and is no fault, ends the
script. -/
theorem Escapes.endsScript {frame : Frame} {i : Interrupt} (h : Escapes.command frame i)
    (hloops : frame.loopDepth = 0) (hcalls : frame.callDepth = 0) (hfault : ∀ f, i ≠ .fault f) :
    i.EndsScript := by
  rcases i with ⟨levels | levels | status | status | excess, output⟩ | fault
  · exact absurd hloops h
  · exact absurd hloops h
  · exact absurd hcalls h
  · trivial
  · trivial
  · exact absurd rfl (hfault fault)

/-- What leaves statements outside all loops and functions ends the script. -/
theorem Statement.endsScript_runAll (limits : Limits) (utilities : List (String × Utility))
    (statements : List Statement) {shell : Shell} (hloops : shell.loopDepth = 0)
    (hcalls : shell.callDepth = 0) {i : Interrupt}
    (h : (Statement.runAll (.ofLimits limits utilities) .success statements shell).1 = .error i) :
    i.EndsScript := by
  have hconfined := Statement.runAll_related (isClosed_confinement limits)
    (Runner.confined_ofLimits limits utilities) .success statements
  have hescape := (hconfined shell).2
  have hfault := Statement.faultless_runAll (.ofLimits limits utilities) .success statements shell
  exact Escapes.endsScript (hescape i h) hloops hcalls fun f hf => hfault f (hf ▸ h)

/-- **A script outside all loops and functions ends, exits or passes a limit.** Nothing else leaves
it, in whatever way its loops, functions, pipelines and substitutions stand inside one another. -/
theorem Script.ends_exits_or_exceeds (limits : Limits) (utilities : List (String × Utility))
    (script : Script) (shell : Shell) (hloops : shell.loopDepth = 0)
    (hcalls : shell.callDepth = 0) :
    let result := (Statement.runAll (.ofLimits limits utilities) .success script.statements shell).1
    (∃ o, result = .ok o) ∨ (∃ status output, result = .error (.signal (.exit status) output)) ∨
      ∃ e output, result = .error (.signal (.excess e) output) := by
  intro result
  rcases hresult : result with i | o
  · have hends := Statement.endsScript_runAll limits utilities script.statements hloops hcalls hresult
    rcases i with ⟨levels | levels | status | status | e, output⟩ | fault
    case signal.exit => exact .inr (.inl ⟨status, output, rfl⟩)
    case signal.excess => exact .inr (.inr ⟨e, output, rfl⟩)
    all_goals exact hends.elim
  · exact .inl ⟨o, rfl⟩

/-- `while return; do break 2; done` in a new shell: neither signal gets out. -/
theorem Script.ends_exits_or_exceeds_loop :
    let call (words : List String) : Statement :=
      ⟨⟨[.simple ⟨[], words.head?.map .ofLiteral, words.tail.map .ofLiteral, [], 1⟩], false⟩, [],
        false⟩
    let loop : Compound := .loop .whileTrue [call ["return"]] [call ["break", "2"]]
    let script : Script := ⟨[⟨⟨[.compound loop []], false⟩, [], false⟩]⟩
    let shell := Shell.start .bare "/home/user" (.ofGlobals [] []) (.ofClock ⟨0, 1⟩)
    let result := (Statement.runAll (.ofLimits .standard []) .success script.statements shell).1
    (∃ o, result = .ok o) ∨ (∃ status output, result = .error (.signal (.exit status) output)) ∨
      ∃ e output, result = .error (.signal (.excess e) output) :=
  Script.ends_exits_or_exceeds .standard [] _ _ rfl rfl

/-! ## Answers -/

open Text

namespace Session

/-- An interrupt that ends a script is answered. -/
theorem concluding_answers {x : Run Outcome} {shell : Shell}
    (h : ∀ i, (x shell).1 = .error i → i.EndsScript) : ∃ o, (concluding x shell).1 = .ok o := by
  rw [concluding, tryCatch_apply]
  rcases hx : x shell with ⟨i | o, next⟩
  · have hends := h i (by rw [hx])
    rcases i with ⟨levels | levels | status | status | e, output⟩ | fault
    case signal.exit => exact ⟨_, rfl⟩
    case signal.excess => exact ⟨_, rfl⟩
    all_goals exact hends.elim
  · exact ⟨o, rfl⟩

/-- **A script that was read has an outcome** in a shell at rest. -/
theorem scriptBody_answers (limits : Limits) (utilities : List (String × Utility)) (script : Script)
    {shell : Shell} (h : shell.AtRest) :
    ∃ o, (scriptBody (.ofLimits limits utilities) script shell).1 = .ok o := by
  rw [scriptBody, bind_apply, modify_apply]
  refine concluding_answers fun i hi => ?_
  refine Statement.endsScript_runAll limits utilities script.statements ?_ ?_ hi
  · exact h.loops
  · exact h.calls

/-- **What comes of a text.** Every session answers with the outcome of the script that the text is,
or with status two and a message where it is refused. Only a refused numeral is answered by nothing,
and there is none unless the text holds digits that a numeral cannot be made of. -/
theorem run_cases {s : Session} (hs : s.Reachable) (text : String) :
    let source := if s.restoresOperators then restoreOperators text else text
    (∃ script o, Script.parse source = .ok script ∧ (s.run text).1 = .ok o) ∨
      (∃ cause line, Script.parse source = .error (.grammar cause line) ∧
        (s.run text).1 = .ok (.failure ("bash: " ++ cause.message ++ "\n") 2)) ∨
      ∃ cause, Script.parse source = .error (.integer cause) ∧ ¬ ReadableDigits source.toList ∧
        (s.run text).1 = .error (.fault (.script (.integer cause))) := by
  intro source
  have hrun : (s.run text).1 = (runText (.ofLimits s.limits s.utilities) source s.shell).1 := rfl
  rw [hrun]
  rcases Script.parse_cases source with ⟨script, h⟩ | ⟨cause, line, h⟩ | ⟨cause, h, hdigits⟩
  · obtain ⟨o, ho⟩ := scriptBody_answers s.limits s.utilities script hs.atRest.shell
    have hscript := runScript_eq s.limits s.utilities script hs.atRest.shell
    refine .inl ⟨script, o, h, ?_⟩
    simp only [runText, h]
    rw [bind_apply, hscript]
    rcases hbody : scriptBody (.ofLimits s.limits s.utilities) script s.shell with ⟨i | o', next⟩ <;>
      rw [hbody] at ho <;> cases ho
    rfl
  · refine .inr (.inl ⟨cause, line, h, ?_⟩)
    simp only [runText, h]
    rfl
  · refine .inr (.inr ⟨cause, h, hdigits, ?_⟩)
    simp only [runText, h]
    rfl

/-- A superscript digit before a redirection: it is no numeral, and so the session does not answer. -/
theorem run_cases_superscript :
    let s := start .bare "/home/user" [] (.ofClock ⟨0, 1⟩) .standard [] false
    let cause := IntegerError.malformed 10 "²"
    s.Reachable ∧ Script.parse "²>" = .error (.integer cause) ∧
      (s.run "²>").1 = .error (.fault (.script (.integer cause))) := by
  intro s cause
  have hs : s.Reachable := .start .bare "/home/user" [] (.ofClock ⟨0, 1⟩) .standard [] false
  have hparse : Script.parse "²>" = .error (.integer cause) := by
    have hchars : "²>".toList = ['²', '>'] := by simp
    have hdigit : String.ofList ['²'] = "²" := String.toList_inj.1 (by simp)
    have hnumeral : readDecimal (String.ofList ['²']) = .error cause := by
      rw [readDecimal, readInteger, String.toList_ofList, hdigit]
      rfl
    have hstep (scanner : Scanner) : scanner.step '²' ['>'] = .error (.integer cause) := by
      have hdescriptor : Scanner.descriptor? ['²', '>'] = some (['²'], ['>']) := by decide
      simp [Scanner.step, hdescriptor, hnumeral]
    have htokens : TokenStream.ofText "²>" = .error (.integer cause) := by
      rw [TokenStream.ofText, hchars, Scanner.run_of_error rfl (hstep _)]
    have hlength : ¬ "²>".length > maxScriptLength := by
      rw [← String.length_toList, hchars]
      decide
    rw [Script.parse, Level.script, if_neg hlength, htokens]
  refine ⟨hs, hparse, ?_⟩
  rcases run_cases hs "²>" with ⟨script, o, h, -⟩ | ⟨cause, line, h, -⟩ | ⟨cause', h, -, hfault⟩
  all_goals
    replace h := hparse.symm.trans h
    cases h
  exact hfault

end Session

end VirtualShell
