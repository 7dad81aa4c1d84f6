import VirtualShell.Proofs.FileSystem.Seeding
import VirtualShell.Proofs.Glob.Respelling
import VirtualShell.Proofs.Session.Restoration
import VirtualShell.Proofs.Utility.Effect

/-!
# Where a session is

A session starts in the directory that it is given, spelled as it is given, and stays there until it
goes somewhere else. Wherever it goes, its directory is a path in the normal spelling, since the
target of every move is resolved first. So the only other spelling that a session can ever have is
the one that it started with.

While it has it, utilities see what they would see in the normal spelling, and so does every pattern
whose first name leads to a place. A relative pattern that begins with a wildcard sees nothing
there, or the root under an empty name if the spelling is the empty text.

The paths of the files, which the spelling is compared with, are normal: those of a new file system
are, and all that a script does to files is to run operations on them.

* `Run.Moving` — a step after which the directory is as before, or a normal path, and the files are
  what operations made of them.
* `Session.HasShell` — the shells that a session has between scripts and while they run.
* `Session.Seeded.hasNormalPaths`, `Session.Seeded.hasNormalPaths_run` — the paths of files in a
  session over new files are normal, also while a script runs.
* **`Session.Reachable.paths_cases`** — what patterns and utilities see of the spelling.
-/

namespace VirtualShell

open Run

/-! ## Moving steps -/

/-- **Where a shell may get, and what may become of its files**: operations are run on them if
utilities run nothing else. -/
structure Shell.Follows (utilities : List (String × Utility)) (a b : Shell) : Prop where
  moves : a.Moves b
  files : Utility.AllOperate utilities → a.files.Becomes b.files

namespace Shell.Follows

variable {utilities : List (String × Utility)} {a b c : Shell}

theorem of_place (hdirectory : b.directory = a.directory) (hfiles : b.files = a.files) :
    a.Follows utilities b :=
  ⟨.inl hdirectory, fun _ => .of_eq hfiles⟩

theorem of_sameSetting (h : a.SameSetting b) : a.Follows utilities b := ⟨h.moves, fun _ => h.files⟩

theorem trans (hab : a.Follows utilities b) (hbc : b.Follows utilities c) : a.Follows utilities c :=
  ⟨hab.moves.trans hbc.moves, fun h => (hab.files h).trans (hbc.files h)⟩

end Shell.Follows

namespace Run

variable {α β : Type} {utilities : List (String × Utility)} {x : Run α}

/-- **A step that goes to normal paths only**, if it goes anywhere, and that runs operations on the
files. -/
def Moving (utilities : List (String × Utility)) (x : Run α) : Prop :=
  Leads (Shell.Follows utilities) x

theorem Tame.moving (hx : Tame x) : Moving utilities x := fun shell => .of_sameSetting (hx shell).1

namespace Moving

theorem bind {f : α → Run β} (hx : Moving utilities x) (hf : ∀ a, Moving utilities (f a)) :
    Moving utilities (x >>= f) :=
  Leads.bind (fun _ _ _ hab hbc => hab.trans hbc) hx hf

theorem handle {h : Interrupt → Run α} (hx : Moving utilities x)
    (hh : ∀ i, Moving utilities (h i)) : Moving utilities (tryCatch x h) :=
  Leads.handle (fun _ _ _ hab hbc => hab.trans hbc) hx hh

/-- What is set up for the time of a step has nothing to do with the directory and the files; at the
end the shell stays where the step went, or is back where it was. -/
theorem during {enter : Shell → Shell} {leave : Shell → Shell → Shell} (hx : Moving utilities x)
    (henter : ∀ initial, (enter initial).directory = initial.directory ∧
      (enter initial).files = initial.files)
    (hleave : ∀ initial final, ((leave initial final).directory = final.directory ∨
      (leave initial final).directory = initial.directory) ∧
      (leave initial final).files = final.files) :
    Moving utilities (Run.during enter leave x) := by
  intro shell
  obtain ⟨hthere, hgiven⟩ := henter shell
  obtain ⟨hdirectory, hleft⟩ := hleave shell (x (enter shell)).2
  have hinside := (Shell.Follows.of_place hthere hgiven).trans (hx (enter shell))
  refine ⟨?_, fun h => (hinside.files h).trans (.of_eq hleft)⟩
  rcases hdirectory with hgoes | hback
  · exact hinside.moves.trans (.inl hgoes)
  · exact .inl hback

end Moving

theorem IsHandler.moving {h : Interrupt → Run α} (hh : IsHandler h) (i : Interrupt) :
    Moving utilities (h i) :=
  fun shell => .of_sameSetting (hh i shell).1

theorem moving_accept (limits : Limits) : Moving utilities (accept limits) := by
  intro shell
  rw [accept_apply]
  split <;> exact .of_place rfl rfl

/-- A utility is given the files, so what becomes of them is up to it. -/
theorem moving_step {name : String} {utility : Utility} (call : Call)
    (h : (name, utility) ∈ utilities) : Moving utilities (utility.step call) := by
  refine fun shell => ⟨.inl rfl, fun hall => ?_⟩
  exact hall name utility h call shell.files

theorem moving_binding {x : Run Outcome} (hx : Moving utilities x)
    (bindings : Table String String) : Moving utilities (binding bindings x) := by
  unfold binding
  split
  · exact hx
  · exact hx.during (fun _ => ⟨rfl, rfl⟩) fun _ _ => ⟨.inl rfl, rfl⟩

theorem moving_withInput {x : Run Outcome} (hx : Moving utilities x) (input : String) :
    Moving utilities (withInput input x) := by
  refine hx.during (fun initial => ?_) fun _ _ => ⟨.inl rfl, rfl⟩
  split <;> exact ⟨rfl, rfl⟩

theorem moving_withExpansionErrors {x : Run Outcome} (hx : Moving utilities x) :
    Moving utilities (withExpansionErrors x) := by
  refine fun shell => ⟨?_, fun h => ?_⟩
  · exact (hx { shell with expansionErrors := "" }).moves
  · exact (hx { shell with expansionErrors := "" }).files h

theorem moving_part {body : Output → Run Outcome} (hbody : ∀ o, Moving utilities (body o))
    (written : Output) : Moving utilities (Loop.part written body) := by
  refine Moving.handle ((hbody written).bind fun _ => (tame_pure _).moving) fun i shell => ?_
  have hpassed (again : Nat → Signal) (levels : Nat) (output : Output) (ending : Loop.Ending) :
      shell.Follows utilities (Loop.passOn again levels output ending shell).2 := by
    rw [(passOn_spec again levels output ending shell).1]
    exact .of_place rfl rfl
  rcases i with ⟨levels | levels | status | status | excess, output⟩ | fault
  case signal.break => exact hpassed _ _ _ _
  case signal.continue => exact hpassed _ _ _ _
  -- every other interrupt goes on as it is
  all_goals exact .of_place rfl rfl

theorem moving_calling {x : Run Outcome} (hx : Moving utilities x) (arguments : List String) :
    Moving utilities (calling arguments x) := by
  obtain ⟨handler, hanswer, -, hcalling⟩ := calling_eq_during
  rw [hcalling]
  refine (hx.handle hanswer.isHandler.moving).during (fun _ => ⟨rfl, rfl⟩) fun _ final => ?_
  simp only [Shell.leaveCall, Shell.dropParameters]
  split <;> exact ⟨.inl rfl, rfl⟩

theorem moving_substituting {x : Run Outcome} (hx : Moving utilities x) :
    Moving utilities (substituting x) := by
  obtain ⟨handler, hanswer, -, hsubstituting⟩ := substituting_eq_during
  rw [hsubstituting]
  exact (hx.handle hanswer.isHandler.moving).during (fun _ => ⟨rfl, rfl⟩) fun _ _ => ⟨.inr rfl, rfl⟩

end Run

/-- **Movement**, which is the same for steps of each kind. -/
def movement (utilities : List (String × Utility)) : StepRelation where
  word x _ := Moving utilities x
  command x _ := Moving utilities x
  turn x _ := Moving utilities x
  loop _ _ x _ := Moving utilities x

section

variable (limits : Limits) (utilities : List (String × Utility))

theorem isClosed_movement : (movement utilities).IsClosed limits where
  word_tame hx := hx.moving
  word_bind hx hf := hx.bind hf
  word_handle hx hh := hx.handle hh.moving
  command_word hx := hx
  command_bind hx hf := hx.bind hf
  command_handle hx hh := hx.handle hh.moving
  command_leaving arguments h := fun shell => .of_sameSetting (leaving_spec h arguments shell).1
  command_accept := moving_accept limits
  command_binding bindings hx := moving_binding hx bindings
  command_withInput input hx := moving_withInput hx input
  command_withExpansionErrors hx := moving_withExpansionErrors hx
  command_inside hx := hx.during (fun _ => ⟨rfl, rfl⟩) fun _ _ => ⟨.inl rfl, rfl⟩
  turn_word hx := hx
  turn_bind hx hf := hx.bind hf
  turn_part written hbody := moving_part hbody written
  loop_turn _ hx := hx
  loop_bind _ hx hf := hx.bind hf
  loop_begin _ hx := Moving.bind (fun _ => .of_place rfl rfl) fun _ => hx
  loop_succ _ hx := hx

theorem isGraded_movement : IsGraded (fun _ _ => movement utilities) limits utilities where
  closed _ _ := isClosed_movement limits utilities
  utility call h := moving_step call h
  calling arguments hx := moving_calling hx arguments
  substituting hx := moving_substituting hx

theorem Runner.moving_ofLimits :
    (ofLimits limits utilities).Related (movement utilities) limits (ofLimits limits utilities) :=
  ofLimits_related (isGraded_movement limits utilities) (fun _ hx shell => hx shell shell)
    fun _ hx shell => hx shell shell

end

/-! ## Sessions -/

namespace Session

variable (s : Session)

/-- The runners of a session: that of its scripts, and those of functions and substitutions at any
depth. -/
def HasRunner (r : Runner) : Prop :=
  r = .ofLimits s.limits s.utilities ∨ ∃ calls substitutions,
    r = .forDepth s.limits s.utilities calls substitutions

section

variable {s} {r : Runner} (hr : s.HasRunner r)
include hr

theorem HasRunner.moving : r.Related (movement s.utilities) s.limits r := by
  rcases hr with rfl | ⟨calls, substitutions, rfl⟩
  · exact Runner.moving_ofLimits _ _
  · exact Runner.forDepth_related (isGraded_movement _ _) calls substitutions

theorem HasRunner.moving_command (command : Command) (input : String) :
    Moving s.utilities (command.run r input) :=
  Command.run_related (isClosed_movement _ _) hr.moving command input

theorem HasRunner.moving_runAll (o : Outcome) (statements : List Statement) :
    Moving s.utilities (Statement.runAll r o statements) :=
  Statement.runAll_related (isClosed_movement _ _) hr.moving o statements

end

theorem moving_scriptBody (script : Script) :
    Moving s.utilities (scriptBody (.ofLimits s.limits s.utilities) script) := by
  have hr : s.HasRunner (.ofLimits s.limits s.utilities) := .inl rfl
  refine Moving.bind (fun _ => .of_place rfl rfl) fun _ shell => ?_
  rw [concluding_state]
  exact hr.moving_runAll .success script.statements shell

theorem moving_runText (text : String) :
    Moving s.utilities (runText (.ofLimits s.limits s.utilities) text) := by
  have hstatus (outcome : Outcome) : Moving s.utilities (do
      modify fun shell => { shell with status := outcome.status }
      return outcome : Run Outcome) := fun _ => .of_place rfl rfl
  rw [runText]
  cases Script.parse text with
  | ok script =>
    have hscript : Moving s.utilities (runScript (.ofLimits s.limits s.utilities) script) :=
      (s.moving_scriptBody script).during (fun _ => ⟨rfl, rfl⟩) fun _ _ => ⟨.inl rfl, rfl⟩
    exact hscript.bind hstatus
  | error e =>
    cases e with
    | integer e => exact (tame_fault _).moving.bind hstatus
    | _ => exact (tame_pure _).moving.bind hstatus

/-- **The shells of a session**, between its scripts and while they run: each command and each row of
statements leads from one to the next, at any depth. What is set up around them and what words
change is not followed, but it always leaves the directory, so a shell may be any other one in the
same directory. -/
inductive HasShell : Shell → Prop
  | between : HasShell s.shell
  | command {r : Runner} {shell : Shell} (hr : s.HasRunner r) (command : Command) (input : String) :
      HasShell shell → HasShell (command.run r input shell).2
  | statements {r : Runner} {shell : Shell} (hr : s.HasRunner r) (o : Outcome)
      (statements : List Statement) :
      HasShell shell → HasShell (Statement.runAll r o statements shell).2
  | there {shell other : Shell} :
      HasShell shell → other.directory = shell.directory → HasShell other

variable {s}

/-- A session is where it would be set back to, or at a normal path. -/
theorem Reachable.moves (h : s.Reachable) : s.reset.shell.Moves s.shell := by
  induction h with
  | start | reset => exact .inl rfl
  | @run s text _ ih => exact Shell.Moves.trans ih (s.moving_runText _ s.shell).moves
  | files _ _ ih => exact ih

/-- **The directory of a session** is spelled as at the start or normally, also while a script
runs. -/
theorem Reachable.directory_cases (h : s.Reachable) {shell : Shell}
    (hshell : s.HasShell shell) : shell.directory = s.startDirectory ∨
      Path.normalText shell.directory = shell.directory := by
  have hmoves : s.reset.shell.Moves shell := by
    induction hshell with
    | between => exact h.moves
    | command hr command input _ ih => exact ih.trans (hr.moving_command command input _).moves
    | statements hr o statements _ ih => exact ih.trans (hr.moving_runAll o statements _).moves
    | there _ hsame ih => exact ih.trans (.inl hsame)
  refine hmoves.imp id ?_
  rintro ⟨p, hp, hdirectory⟩
  rw [hdirectory, Path.normalText_render hp]

/-! ## What becomes of the files -/

/-- **Commands and statements run operations on the files**, at any depth. -/
theorem HasRunner.becomes {r : Runner} (hr : s.HasRunner r) (hall : Utility.AllOperate s.utilities)
    (shell : Shell) :
    (∀ command input, shell.files.Becomes (Command.run r command input shell).2.files) ∧
      ∀ o statements, shell.files.Becomes (Statement.runAll r o statements shell).2.files :=
  ⟨fun command input => (hr.moving_command command input shell).files hall,
    fun o statements => (hr.moving_runAll o statements shell).files hall⟩

/-- **The sessions over new files**: they start with what operations made of a new file system,
their utilities run operations only, and so does everybody else who changes the files. -/
inductive Seeded : Session → Prop
  | start (host : Host) (directory : String) (added : List (String × String)) {clock : Clock}
      {directories : List String} {given : List (String × FileSystem.Content)}
      {new files : FileSystem} (hnew : FileSystem.seeded clock directories given = .ok new)
      (hfiles : new.Becomes files) (limits : Limits) {utilities : List (String × Utility)}
      (hall : Utility.AllOperate utilities) (restoresOperators : Bool) :
      Seeded (.start host directory added files limits utilities restoresOperators)
  | run {s : Session} (text : String) : Seeded s → Seeded (s.run text).2
  | reset {s : Session} : Seeded s → Seeded s.reset
  | change {s : Session} (c : FileSystem.Change) :
      Seeded s → Seeded { s with shell := { s.shell with files := c.apply s.shell.files } }

namespace Seeded

/-- A session with the utilities of the registry over a new file system. -/
theorem start_all {clock : Clock} {directories : List String}
    {given : List (String × FileSystem.Content)} {files : FileSystem}
    (hnew : FileSystem.seeded clock directories given = .ok files) (host : Host)
    (directory : String) (added : List (String × String)) (limits : Limits)
    (restoresOperators : Bool) :
    (Session.start host directory added files limits Utility.all restoresOperators).Seeded :=
  .start host directory added hnew (.refl files) limits Utility.allOperate_all restoresOperators

theorem reachable (h : s.Seeded) : s.Reachable := by
  induction h with
  | start host directory added hnew hfiles limits hall restoresOperators => exact .start ..
  | run text _ ih => exact ih.run text
  | reset _ ih => exact ih.reset
  | change c _ ih => exact ih.files _

theorem allOperate (h : s.Seeded) : Utility.AllOperate s.utilities := by
  induction h with
  | start host directory added hnew hfiles limits hall restoresOperators => exact hall
  | run _ _ ih | reset _ ih | change _ _ ih => exact ih

/-- **The paths of all files are normal** in a session over new files. -/
theorem hasNormalPaths (h : s.Seeded) : s.shell.files.HasNormalPaths := by
  induction h with
  | start host directory added hnew hfiles limits hall restoresOperators =>
    exact hfiles.hasNormalPaths (FileSystem.hasNormalPaths_seeded hnew)
  | @run s text h ih =>
    exact ((s.moving_runText _ s.shell).files h.allOperate).hasNormalPaths ih
  | reset _ ih => exact ih
  | change c _ ih => exact ih.of_change c

/-- **They stay normal while a script runs**, at any depth. -/
theorem hasNormalPaths_run (h : s.Seeded) {r : Runner} (hr : s.HasRunner r) {shell : Shell}
    (hshell : shell.files.HasNormalPaths) :
    (∀ command input, (Command.run r command input shell).2.files.HasNormalPaths) ∧
      ∀ o statements, (Statement.runAll r o statements shell).2.files.HasNormalPaths := by
  obtain ⟨hcommand, hstatements⟩ := hr.becomes h.allOperate shell
  exact ⟨fun command input => (hcommand command input).hasNormalPaths hshell,
    fun o statements => (hstatements o statements).hasNormalPaths hshell⟩

end Seeded

/-! ## What is seen of the spelling -/

/-- **Patterns and utilities in the directory of a session.** It is spelled as at the start, or
normally. A pattern stands for the same paths as in the normal spelling if it is absolute or its
first name holds no wildcard. Any other pattern finds nothing in another spelling, apart from the
empty one: there it finds what it finds at the root, and the root as an empty name. Utilities do the
same in both spellings, apart from the one that shows the directory. The paths of the files are
normal in the sessions over new files, and stay so while their scripts run. -/
theorem Reachable.paths_cases (h : s.Reachable) {shell : Shell}
    (hshell : s.HasShell shell) (hfiles : ∀ p ∈ shell.files.entries.keys, p.IsNormal) :
    let cwd := shell.directory
    let normal := Path.normalText cwd
    (cwd = s.startDirectory ∨ normal = cwd) ∧
      (∀ pattern, normal = cwd ∨ ¬ Glob.OpensWild pattern →
        Glob.paths shell.files cwd pattern = Glob.paths shell.files normal pattern) ∧
      (∀ pattern, normal ≠ cwd → Glob.OpensWild pattern →
        (cwd ≠ "" → Glob.paths shell.files cwd pattern = .ok []) ∧
        (cwd = "" → Glob.paths shell.files cwd pattern =
          if .root ∈ shell.files.entries.keys then do
            let isFound ← Glob.matchesNames (Glob.patternsOf pattern) [""]
            let found ← Glob.paths shell.files normal pattern
            return if isFound then "" :: found else found
          else Glob.paths shell.files normal pattern)) ∧
      ∀ name utility, (name, utility) ∈ Utility.all → name ≠ "pwd" → ∀ call : Call,
        call.directory = cwd → utility { call with directory := normal } = utility call := by
  refine ⟨h.directory_cases hshell, fun pattern hsame => ?_, fun pattern hother hopens =>
    ⟨fun hne => ?_, fun hempty => ?_⟩, ?_⟩
  · rcases hsame with hnormal | hopens
    · rw [hnormal]
    · exact Glob.paths_normalText hopens _ _
  · exact Glob.paths_of_ne_normalText hfiles hother hne hopens
  · have hroot : Path.normalText "" = "/" := rfl
    rw [hempty, hroot]
    split
    · next hkey => exact Glob.paths_empty hfiles hopens hkey
    · next hkey => exact Glob.paths_empty_of_no_root hfiles hopens hkey
  · rintro name utility hmem hname call hdirectory
    rw [← hdirectory]
    exact Utility.apply_respelled call hmem hname

/-- A directory with a file. -/
def cabinet : FileSystem :=
  ((FileSystem.ofClock ⟨0, 0⟩).place ⟨["a"]⟩ .directory).place ⟨["a", "f"]⟩ (.file "")

/-- A session that started in a directory with a slash behind its name. -/
theorem Reachable.paths_cases_slash :
    let s := Session.start .bare "/a/" [] cabinet .standard Utility.all false
    s.Reachable ∧ s.HasShell s.shell ∧ (∀ p ∈ s.shell.files.entries.keys, p.IsNormal) ∧
      Glob.paths s.shell.files "/a/" "b/*" = Glob.paths s.shell.files "/a" "b/*" ∧
      Glob.paths s.shell.files "/a/" "*" = .ok [] ∧
      ∀ call : Call, call.directory = "/a/" →
        Utility.Listing.run { call with directory := "/a" } = Utility.Listing.run call := by
  intro s
  have hs : s.Reachable := .start .bare "/a/" [] cabinet .standard Utility.all false
  have hfiles : ∀ p ∈ s.shell.files.entries.keys, p.IsNormal := by decide +kernel
  have hnormal : Path.normalText s.shell.directory = "/a" := by decide +kernel
  have hother : Path.normalText s.shell.directory ≠ s.shell.directory := by decide +kernel
  obtain ⟨-, hsame, hlost, hutility⟩ := hs.paths_cases .between hfiles
  have hinner := hsame "b/*" (.inr (by decide +kernel))
  have hlisting := hutility "ls" Utility.Listing.run (by simp [Utility.all]) (by decide)
  rw [hnormal] at hinner hlisting
  exact ⟨hs, .between, hfiles, hinner, (hlost "*" hother (by decide +kernel)).1 (by decide),
    hlisting⟩

/-- **A star finds nothing** from a directory with a slash behind its name, although the directory is
not empty and is listed all the same. From the directory that is spelled by no character it finds a
name too many. -/
theorem Reachable.paths_slash_loses :
    let s := Session.start .bare "/a/" [] cabinet .standard Utility.all false
    let t := Session.start .bare "" [] cabinet .standard Utility.all false
    s.Reachable ∧ Path.normalText s.shell.directory = "/a" ∧
      Glob.paths s.shell.files s.shell.directory "*" = .ok [] ∧
      Glob.paths s.shell.files "/a" "*" = .ok ["f"] ∧
      (Utility.Listing.run ⟨[], "", s.shell.directory, .empty, .bare⟩ s.shell.files).1 =
        .ok (.ofText "f\n") ∧
      t.Reachable ∧ Path.normalText t.shell.directory = "/" ∧
      Glob.paths t.shell.files t.shell.directory "*" = .ok ["", "a"] ∧
      Glob.paths t.shell.files "/" "*" = .ok ["a"] :=
  ⟨.start .bare "/a/" [] cabinet .standard Utility.all false, by decide +kernel, by cbv, by cbv,
    by cbv, .start .bare "" [] cabinet .standard Utility.all false, by decide +kernel, by cbv, by cbv⟩

end Session

end VirtualShell
