import VirtualShell.Proofs.FileSystem.History
import VirtualShell.Proofs.Session.Plain
import VirtualShell.Proofs.Utility.Basic
import VirtualShell.Session

/-!
# Leaving a redirected command

What a command has written when a signal leaves it is sent to its destinations on the way out. A
file was opened before the command ran, but the command may have put something else in its place,
and then the text cannot be added to it. This is a fault of the command, and it takes the place of
the signal: the pipeline around the command reports it and goes on.

* `Command.prepared` — the streams of a command, and what it runs with them.
* `FileSystem.Takes` — texts that can be added to their files.
* `Streams.deliver_apply` — when an output reaches its destinations.
* **`Command.leftBy_signal_iff`** — which signals leave a redirected command.
-/

namespace VirtualShell

open Run

/-! ## What runs under redirections -/

/-- **What a command runs under its redirections**, once its words were expanded and its streams set
up: a compound command its body, and a simple command what its name means. Nothing runs when the
streams cannot be set up, and under the redirections of a command that only assigns. -/
def Command.prepared (r : Runner) (input : String) :
    Command → Run (Option (Streams × Run Outcome))
  | .compound body redirections => do
    match ← (Streams.ofRedirections r.expander redirections input).run with
    | .ok streams => return some (streams, Run.withInput streams.input (Compound.run r body))
    | .error _ => return none
  | .simple c => do
    match ← r.wordsOf c with
    | [] => return none
    | name :: arguments =>
      match ← (Streams.ofRedirections r.expander c.redirections input).run with
      | .ok streams =>
        let bindings ← Assignment.bindings r.expander c.assignments
        return some (streams, Run.binding bindings (r.named name arguments streams.input))
      | .error _ => return none
  | .function .. => return none

/-- The shell in which a command keeps the errors of its own expansions. -/
def Shell.withoutExpansionErrors (shell : Shell) : Shell := { shell with expansionErrors := "" }

/-! ## Files that take a text -/

namespace FileSystem

/-- **Texts that can be added to their files**, one after another. An empty text is not added. -/
def Takes (files : FileSystem) : List (Path × String) → Prop
  | [] => True
  | (place, text) :: rest =>
    if text.isEmpty then files.Takes rest
    else
      match append place.render text files with
      | (.ok (), files) => files.Takes rest
      | (.error _, _) => False

end FileSystem

/-! ## Delivery -/

namespace Streams

/-- An output, sorted by where it goes. -/
def sorted (s : Streams) (output : Output) : Delivery :=
  let start : Delivery := ⟨.empty, .empty⟩
  (start.send (s.destination 1) output.stdout).send (s.destination 2) output.stderr

/-- **The files that an output goes to take it.** -/
def Delivers (s : Streams) (output : Output) (files : FileSystem) : Prop :=
  files.Takes (s.sorted output).files.entries

theorem onFiles_apply {α : Type} (action : FileAction α) (shell : Shell) :
    Run.onFiles action shell =
      (.ok (action shell.files).1, { shell with files := (action shell.files).2 }) := rfl

/-- Adding a text to a file changes the files and nothing else, and fails with the reason that the
files give. -/
theorem extend_apply (place : Path) {text : String} (htext : ¬ text.isEmpty) (shell : Shell) :
    extend place text shell =
      match FileSystem.append place.render text shell.files with
      | (.ok (), files) => (.ok (), { shell with files })
      | (.error e, files) => (.error (.fault (.files e)), { shell with files }) := by
  rw [extend, if_pos (by simpa using htext), bind_apply, onFiles_apply]
  rcases FileSystem.append place.render text shell.files with ⟨e | -, files⟩ <;> rfl

/-- Add texts to their files, one after another. -/
def extendAll (entries : List (Path × String)) : Run Unit :=
  entries.forM fun (place, text) => extend place text

/-- **Texts reach their files** when these take them, and nothing else changes; otherwise the first
file that does not take its text is the reason for a fault. -/
theorem extendAll_apply (entries : List (Path × String)) (shell : Shell) :
    (shell.files.Takes entries ∧ ∃ files,
        extendAll entries shell = (.ok (), { shell with files })) ∨
      ¬ shell.files.Takes entries ∧ ∃ e next,
        extendAll entries shell = (.error (.fault (.files e)), next) := by
  induction entries generalizing shell with
  | nil => exact .inl ⟨trivial, shell.files, rfl⟩
  | cons entry rest ih =>
    obtain ⟨place, text⟩ := entry
    have hall : extendAll ((place, text) :: rest) = (do extend place text; extendAll rest) := rfl
    rw [hall, bind_apply]
    by_cases htext : text.isEmpty
    · have hextend : extend place text shell = (.ok (), shell) := by
        rw [extend, if_neg (by simp [htext])]
        rfl
      simpa only [FileSystem.Takes, htext, hextend, if_true] using ih shell
    · simp only [FileSystem.Takes, htext, extend_apply place htext]
      rcases FileSystem.append place.render text shell.files with ⟨e | -, files⟩
      · exact .inr ⟨id, e, _, rfl⟩
      · exact ih { shell with files }

theorem deliver_eq_extendAll (s : Streams) (output : Output) :
    s.deliver output = (do
      extendAll (s.sorted output).files.entries
      return (s.sorted output).output) := rfl

/-- **Sending an output.** -/
theorem deliver_apply (s : Streams) (output : Output) (shell : Shell) :
    (s.Delivers output shell.files ∧ ∃ files,
        s.deliver output shell = (.ok (s.sorted output).output, { shell with files })) ∨
      ¬ s.Delivers output shell.files ∧ ∃ e next,
        s.deliver output shell = (.error (.fault (.files e)), next) := by
  rw [deliver_eq_extendAll, bind_apply]
  rcases extendAll_apply (s.sorted output).files.entries shell with
    ⟨htakes, files, hall⟩ | ⟨htakes, e, next, hall⟩ <;> rw [hall]
  · exact .inl ⟨htakes, files, rfl⟩
  · exact .inr ⟨htakes, e, next, rfl⟩

end Streams

/-! ## Commands -/

/-- **A command with redirections** runs what it prepared and sends the output of that to its
destinations. -/
theorem Command.run_of_prepared {r : Runner} {command : Command} {input : String}
    {shell ready : Shell} {streams : Streams} {body : Run Outcome}
    (h : command.prepared r input shell.withoutExpansionErrors = (.ok (some (streams, body)), ready)) :
    command.run r input shell = Run.withExpansionErrors (fun _ => streams.around body ready) shell := by
  have hframe {x : Run Outcome}
      (hx : x shell.withoutExpansionErrors = streams.around body ready) :
      Run.withExpansionErrors x shell =
        Run.withExpansionErrors (fun _ => streams.around body ready) shell := by
    unfold Run.withExpansionErrors
    dsimp only [Shell.withoutExpansionErrors] at hx
    rw [hx]
  cases command with
  | function => cases h
  | compound compound redirections =>
    rw [Command.run]
    refine hframe ?_
    rw [Run.redirected, bind_apply]
    rw [prepared, bind_apply] at h
    rcases hstreams : (Streams.ofRedirections r.expander redirections input).run
      shell.withoutExpansionErrors with ⟨i | ⟨e | streams⟩, next⟩ <;> rw [hstreams] at h <;> cases h
    rfl
  | simple c =>
    rw [Command.run]
    refine hframe ?_
    rw [Runner.simple, bind_apply]
    rw [prepared, bind_apply] at h
    rcases hwords : r.wordsOf c shell.withoutExpansionErrors with
      ⟨i | ⟨- | ⟨name, arguments⟩⟩, next⟩ <;> rw [hwords] at h
    · cases h
    · cases h
    dsimp only at h ⊢
    rw [Run.redirected, bind_apply]
    rw [bind_apply] at h
    rcases hstreams : (Streams.ofRedirections r.expander c.redirections input).run next with
      ⟨i | ⟨e | streams⟩, next⟩ <;> rw [hstreams] at h
    · cases h
    · cases h
    dsimp only at h ⊢
    rw [bind_apply] at h ⊢
    rcases hbindings : Assignment.bindings r.expander c.assignments next with
      ⟨i | bindings, next⟩ <;> rw [hbindings] at h <;> cases h
    rfl

section

variable {r : Runner} {command : Command} {input : String} {shell ready after : Shell}
  {streams : Streams} {body : Run Outcome} {s : Signal} {output : Output}

/-- On the way out the output is sent to its destinations first. -/
theorem Streams.around_of_signal (streams : Streams)
    (hbody : body ready = (.error (.signal s output), after)) :
    streams.around body ready =
      match streams.deliver output after with
      | (.ok left, next) => (.error (.signal s left), next)
      | (.error i, next) => (.error i, next) := by
  rw [around, bind_apply, tryCatch_apply, hbody]
  dsimp only
  rw [bind_apply]
  rcases streams.deliver output after with ⟨i | left, next⟩ <;> rfl

/-- A signal leaves the command when its output can be delivered. -/
theorem Command.run_of_delivers
    (hprepared : command.prepared r input shell.withoutExpansionErrors =
      (.ok (some (streams, body)), ready))
    (hbody : body ready = (.error (.signal s output), after))
    (hdelivers : streams.Delivers output after.files) :
    ∃ o, (command.run r input shell).1 = .error (.signal s o) := by
  rw [command.run_of_prepared hprepared, withExpansionErrors, streams.around_of_signal hbody]
  rcases streams.deliver_apply output after with ⟨-, files, hdeliver⟩ | ⟨hfails, -⟩
  · rw [hdeliver]
    exact ⟨_, rfl⟩
  · exact absurd hdelivers hfails

/-- Otherwise a fault of the files takes its place. -/
theorem Command.run_of_not_delivers
    (hprepared : command.prepared r input shell.withoutExpansionErrors =
      (.ok (some (streams, body)), ready))
    (hbody : body ready = (.error (.signal s output), after))
    (hfails : ¬ streams.Delivers output after.files) :
    ∃ e, (command.run r input shell).1 = .error (.fault (.files e)) := by
  rw [command.run_of_prepared hprepared, withExpansionErrors, streams.around_of_signal hbody]
  rcases streams.deliver_apply output after with ⟨hdelivers, -⟩ | ⟨-, e, next, hdeliver⟩
  · exact absurd hdelivers hfails
  · rw [hdeliver]
    exact ⟨e, rfl⟩

/-- A stage of a pipeline ends with a message when a fault of the files leaves it. -/
theorem Run.stage_of_fault {run : Run Outcome} {e : FileError}
    (hrun : (run shell).1 = .error (.fault (.files e))) (several : Bool) (label : String) :
    (stage several label run shell).1 =
      .ok (.failure ("bash: " ++ label ++ ": " ++ e.message ++ "\n") 1) := by
  rw [stage, tryCatch_apply]
  rcases hresult : run shell with ⟨result, final⟩
  rw [hresult] at hrun
  obtain rfl : result = .error (.fault (.files e)) := hrun
  rfl

/-- **What leaves a redirected command.** When a signal leaves what a command runs under its
redirections, it leaves the command too, with the same status or the same number of loops, if and
only if the files that the output goes to can take it after what was run. Otherwise the command is
left by a fault of the files, and the pipeline around it goes on with a message and status one. -/
theorem Command.leftBy_signal_iff
    (hprepared : command.prepared r input shell.withoutExpansionErrors =
      (.ok (some (streams, body)), ready))
    (hbody : body ready = (.error (.signal s output), after)) :
    ((∃ o, (command.run r input shell).1 = .error (.signal s o)) ↔
        streams.Delivers output after.files) ∧
      (¬ streams.Delivers output after.files → ∃ e,
        (command.run r input shell).1 = .error (.fault (.files e)) ∧
          ∀ several label, (stage several label (command.run r input) shell).1 =
            .ok (.failure ("bash: " ++ label ++ ": " ++ e.message ++ "\n") 1)) := by
  by_cases hdelivers : streams.Delivers output after.files
  · exact ⟨iff_of_true (run_of_delivers hprepared hbody hdelivers) hdelivers,
      fun hfails => absurd hdelivers hfails⟩
  · obtain ⟨e, hfault⟩ := run_of_not_delivers hprepared hbody hdelivers
    refine ⟨iff_of_false ?_ hdelivers, fun _ => ⟨e, hfault, stage_of_fault hfault⟩⟩
    rintro ⟨o, ho⟩
    rw [hfault] at ho
    cases ho

end

/-! ## A status that is lost -/

namespace Streams

/-- An action before the setting up of redirections goes on. -/
theorem lift_bind_apply {α β : Type} (x : Run α) (f : α → Setup β) (shell : Shell) :
    (liftM x >>= f : Setup β).run shell = (x >>= fun a => (f a).run) shell := by
  have hlift : (liftM x : Setup α).run shell =
      (Except.ok <$> x : Run (Except RedirectError α)) shell := rfl
  rw [ExceptT.run_bind, bind_apply, bind_apply, hlift, map_eq_pure_bind, bind_apply]
  rcases x shell with ⟨i | a, next⟩ <;> rfl

theorem setup_bind_apply {α β : Type} {x : Setup α} {a : α} {shell next : Shell}
    (hx : x.run shell = (.ok (.ok a), next)) (f : α → Setup β) :
    (x >>= f).run shell = (f a).run next := by
  rw [ExceptT.run_bind, bind_apply, hx]

/-- **A file that can be emptied is a destination.** -/
theorem destinationOf_apply {name : String} {shell : Shell} {path : Path} {files : FileSystem}
    (hname : name.isEmpty = false) (hkept : isDiscarding name = false)
    (hstream : name ≠ "/dev/stdout" ∧ name ≠ "/dev/stderr")
    (hpath : (Path.ofString shell.directory).resolve name = path)
    (hdirectory : shell.files.isDirectory path.render = false)
    (hwrite : FileSystem.write path.render "" shell.files = (.ok (), files)) :
    (destinationOf name false).run shell = (.ok (.ok (.file path)), { shell with files }) := by
  have hpathOf : Run.pathOf name shell = (.ok path, shell) := by
    rw [← hpath]
    rfl
  have honFiles : (onFiles name (FileSystem.write path.render "")).run shell =
      (.ok (.ok ()), { shell with files }) := by
    rw [onFiles, lift_bind_apply, bind_apply, onFiles_apply, hwrite]
    rfl
  rw [destinationOf, if_neg (by simp [hname]), if_neg (by simp [hkept]), if_neg hstream.1,
    if_neg hstream.2, lift_bind_apply, bind_apply, hpathOf]
  dsimp only
  rw [lift_bind_apply, bind_apply, get_apply]
  dsimp only
  rw [hdirectory, if_neg (by simp), Bool.false_and, if_pos (by rfl), setup_bind_apply honFiles]
  rfl

end Streams

namespace Utility

theorem step_apply (utility : Utility) (call : Call) (shell : Shell) :
    utility.step call shell =
      ((utility call shell.files).1.mapError .fault,
        { shell with files := (utility call shell.files).2 }) := rfl

theorem step_of_ok {utility : Utility} {call : Call} {shell : Shell} {o : Outcome}
    {files : FileSystem} (h : utility call shell.files = (.ok o, files)) :
    utility.step call shell = (.ok o, { shell with files }) := by
  rw [step_apply, h]
  rfl

/-- **`rm -r`** of one thing that is there says nothing. -/
theorem File.remove_apply {call : Call} {file path : String} {force : Bool}
    {files next : FileSystem}
    (hread : Removal.rules.read ⟨false, false, false⟩ call.arguments =
      .ok (⟨force, true, false⟩, [file]))
    (hpath : pathOf call file = path) (hroot : path ≠ "/") (hhas : files.has path = true)
    (hremove : FileSystem.remove path true force files = (.ok (), next)) :
    remove call files = (.ok .success, next) := by
  have hfile : removeFile call ⟨force, true, false⟩ .success file files = (.ok .success, next) := by
    rw [removeFile, hpath, Utility.bind_apply, Utility.get_apply]
    dsimp only
    rw [if_neg hroot, hhas, if_neg (by simp), if_neg (by simp), Utility.bind_apply,
      change_apply, hremove]
    rfl
  rw [remove, hread]
  dsimp only
  rw [List.foldlM_cons, Utility.bind_apply, hfile]
  rfl

end Utility

/-- **`{ rm -r d; exit x; } 2> d/f`**: the file that the errors go to is removed before the error
message of `exit` is there to be written. -/
def Command.removing : Command :=
  .compound
    (.group [Parser.statementOf (.simple (.plain "rm" ["-r", "d"])),
      Parser.statementOf (.simple (.plain "exit" ["x"]))])
    [⟨.output, .word (.inQuotes "d/f"), some 2⟩]

namespace Removing

/-- What runs the command. -/
def runner : Runner := .ofLimits .standard Utility.all

/-- The shell before: at the root, where there is a directory. -/
def before : Shell :=
  .start .bare "/" (.ofGlobals [] []) ((FileSystem.ofClock ⟨0, 0⟩).place ⟨["d"]⟩ .directory)

/-- The shell when the file was opened. -/
def opened : Shell := { before with files := before.files.place ⟨["d", "f"]⟩ (.file "") }

/-- The shell when the directory was removed. -/
def removed : Shell := { opened.counted with files := .ofClock ⟨0, 0⟩ }

/-- The streams of the command. -/
def streams : Streams := ⟨"", .ofList [(1, .stdout), (2, .file ⟨["d", "f"]⟩)]⟩

/-- What runs under them. -/
def body : Run Outcome :=
  Run.withInput "" (Compound.run runner
    (.group [Parser.statementOf (.simple (.plain "rm" ["-r", "d"])),
      Parser.statementOf (.simple (.plain "exit" ["x"]))]))

/-- The error message of `exit`. -/
def message : Output := .ofError "bash: exit: x: numeric argument required\n"

theorem prepared :
    Command.removing.prepared runner "" before = (.ok (some (streams, body)), opened) := by
  have hdestination : (Streams.destinationOf "d/f" false).run before =
      (.ok (.ok (.file ⟨["d", "f"]⟩)), opened) :=
    Streams.destinationOf_apply (by decide) (by decide) (by decide) (by cbv) (by cbv) (by cbv)
  have hword : (Word.inQuotes "d/f").text runner.expander = pure "d/f" := Word.text_quoted ..
  have hredirect : (Streams.redirect runner.expander (.ofInput "")
      ⟨.output, .word (.inQuotes "d/f"), some 2⟩).run before = (.ok (.ok streams), opened) := by
    rw [Streams.redirect, Streams.lift_bind_apply, hword, pure_bind, Streams.redirectTo,
      Streams.setup_bind_apply hdestination]
    rfl
  rw [Command.removing, Command.prepared, bind_apply, Streams.ofRedirections, List.foldlM_cons,
    Streams.setup_bind_apply hredirect]
  rfl

/-- The body removes the directory and is left by `exit`. -/
theorem leaves : body opened = (.error (.signal (.exit 2) message), removed.counted) := by
  have hremove : Utility.File.remove ⟨["-r", "d"], "", "/", .ofList [], .bare⟩ opened.files =
      (.ok .success, .ofClock ⟨0, 0⟩) :=
    Utility.File.remove_apply (by cbv) (by cbv) (by decide : "/d" ≠ "/") (by cbv) (by cbv)
  have hrm : runner.named "rm" ["-r", "d"] "" opened.counted = (.ok .success, removed) :=
    (Runner.named_utility rfl rfl rfl _ _).trans (Utility.step_of_ok hremove)
  have hexit : runner.named "exit" ["x"] "" removed.counted =
      (.error (.signal (.exit 2) message), removed.counted) :=
    (Runner.named_builtin rfl rfl _ _).trans (by cbv)
  have hopened : opened.Ready runner.limits := ⟨by decide, rfl, rfl⟩
  have hremoved : removed.Ready runner.limits := ⟨by decide, rfl, rfl⟩
  have hfirst : Statement.run runner _ opened = (.ok .success, removed) :=
    Statement.run_plain hopened hrm rfl
  have hsecond := Statement.run_plain_signal hremoved hexit rfl
  have hgroup (statements : List Statement) :
      Run.withInput "" (Compound.run runner (.group statements)) opened =
        ((Statement.runAll runner .success statements opened).1,
          { (Statement.runAll runner .success statements opened).2 with groupInput := none }) := rfl
  rw [body, hgroup, Statement.runAll, bind_apply, after_of_ok _ hfirst]
  dsimp only
  rw [Statement.runAll, bind_apply, after, hsecond]
  rfl

/-- There is no directory left to write the message in. -/
theorem not_delivers : ¬ streams.Delivers message removed.counted.files := by
  have hentries : (streams.sorted message).files.entries = [(⟨["d", "f"]⟩, message.stderr)] := by
    decide +kernel
  have hpath : (⟨["d", "f"]⟩ : Path).render = "/d/f" := by cbv
  have happend : (FileSystem.append "/d/f" message.stderr removed.counted.files).1 =
      .error ⟨.notFound, "/d/f"⟩ := by cbv
  rw [Streams.Delivers, hentries, FileSystem.Takes, if_neg (by decide), hpath]
  rcases hresult : FileSystem.append "/d/f" message.stderr removed.counted.files with
    ⟨e | u, files⟩
  · exact id
  · rw [hresult] at happend
    cases happend

end Removing

/-- **A signal can be lost.** A command is left by its body and not by the same signal. -/
theorem Command.removing_loses_exit :
    ¬ ∀ (r : Runner) (command : Command) (input : String) (shell ready after : Shell)
        (streams : Streams) (body : Run Outcome) (s : Signal) (output : Output),
      command.prepared r input shell.withoutExpansionErrors = (.ok (some (streams, body)), ready) →
        body ready = (.error (.signal s output), after) →
          ∃ o, (command.run r input shell).1 = .error (.signal s o) := by
  intro hleft
  obtain ⟨o, hexit⟩ := hleft Removing.runner Command.removing "" Removing.before _ _ _ _ _ _
    Removing.prepared Removing.leaves
  obtain ⟨e, hfault⟩ : ∃ e, (Command.removing.run Removing.runner "" Removing.before).1 =
      .error (.fault (.files e)) :=
    run_of_not_delivers Removing.prepared Removing.leaves Removing.not_delivers
  rw [hfault] at hexit
  cases hexit

/-- The pipeline around `{ rm -r d; exit x; } 2> d/f` goes on. -/
theorem Command.leftBy_signal_iff_removing :
    Command.removing.prepared Removing.runner "" Removing.before.withoutExpansionErrors =
        (.ok (some (Removing.streams, Removing.body)), Removing.opened) ∧
      Removing.body Removing.opened =
        (.error (.signal (.exit 2) Removing.message), Removing.removed.counted) ∧
      ∃ e : FileError, (stage false "group" (Command.removing.run Removing.runner "")
        Removing.before).1 = .ok (.failure ("bash: group: " ++ e.message ++ "\n") 1) := by
  have hprepared : Command.removing.prepared Removing.runner ""
      Removing.before.withoutExpansionErrors = _ := Removing.prepared
  obtain ⟨-, hfault⟩ := Command.leftBy_signal_iff hprepared Removing.leaves
  obtain ⟨e, -, hstage⟩ := hfault Removing.not_delivers
  exact ⟨hprepared, Removing.leaves, e, hstage false "group"⟩

end VirtualShell
