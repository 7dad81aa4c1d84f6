import VirtualShell.Proofs.FileSystem.Snag
import VirtualShell.Proofs.Utility.Listing
import VirtualShell.Proofs.Utility.Reading
import VirtualShell.Proofs.Utility.Sort
import VirtualShell.Utility.Directory
import VirtualShell.Utility.File
import VirtualShell.Utility.Registry

/-!
# Which utilities give an outcome

A utility should tell what it cannot do by a message and a status. Some failures it does not expect;
then it is left by a fault, and what it wrote before is lost. All of them are listed here, and each
can be told from the arguments, the directory and the files before the utility runs.

`rm` reports every failure. `mkdir` does not expect too many links on the way to a directory, and
`touch` does not expect that a file can be made neither at its path nor be told to be missing. The
operands before one that breaks them change the files, but not in a way that matters for it.

* `Utility.File.not_breaksAt_remove` — `rm` always gives an outcome.
* `Utility.Directory.breaksAt_make`, `Utility.File.breaksAt_touch` — when the others that change the
  files do not, told from the files before the first operand.
* `Utility.Breaks` — what breaks a utility.
* **`Utility.exists_outcome_iff`** — in a tree of files, a utility gives an outcome unless one of these
  breaks it.
* `Utility.Cat.run_breaks` — a file that is written is lost with the next operand.
-/

namespace VirtualShell.Utility

variable {call : Call} {files : FileSystem}

/-! ## Making directories -/

namespace Directory

theorem breaksAt_makeAll (s : Settings) (o : Outcome) (names : List String) :
    BreaksAt files (makeAll call s o names) ↔ ∃ name ∈ names,
      files.Tangled (FileSystem.directoryWay (pathOf call name) s.withParents) := by
  induction names generalizing o files with
  | nil => exact iff_of_false (not_breaksAt_pure o) (by simp)
  | cons name rest ih =>
    have hmade := fun path => @FileSystem.tangled_makeDirectory_iff files path
      (pathOf call name) s.withParents
    have herror := @FileSystem.exists_makeDirectory_error_iff files (pathOf call name) s.withParents
    rw [makeAll, breaksAt_change_bind, List.exists_mem_cons_iff, ← herror]
    rcases hmake : FileSystem.makeDirectory (pathOf call name) s.withParents files with
      ⟨e | ⟨⟨⟩⟩, next⟩ <;> rw [hmake] at hmade <;> dsimp only at hmade ⊢
    · by_cases hreported : isReported e.kind
      · rw [if_pos hreported, ih]
        simp only [hmade]
        refine (or_iff_right ?_).symm
        rintro ⟨_, ⟨⟩, hunreported⟩
        simp only [isReported, Bool.or_eq_true, beq_iff_eq] at hreported
        tauto
      · rw [if_neg hreported]
        refine iff_of_true (breaksAt_throw _) (.inl ⟨e, rfl, ?_⟩)
        simp only [isReported, Bool.or_eq_true, beq_iff_eq] at hreported
        tauto
    · rw [ih]
      simp [hmade]

/-- **`mkdir` breaks** at an operand with too many links on the way to its directory, or on its own
way when the directories above are to be made. -/
theorem breaksAt_make : BreaksAt files (make call) ↔ ∃ s names,
    rules.read ⟨false, false⟩ call.arguments = .ok (s, names) ∧ ∃ name ∈ names,
      files.Tangled (FileSystem.directoryWay (pathOf call name) s.withParents) := by
  rw [make]
  rcases rules.read ⟨false, false⟩ call.arguments with e | ⟨s, _ | ⟨name, names⟩⟩
  · exact iff_of_false (not_breaksAt_pure _) (by simp)
  · exact iff_of_false (not_breaksAt_pure _) (by simp)
  · dsimp only
    rw [breaksAt_makeAll]
    simp

end Directory

/-! ## Removing -/

namespace File

theorem not_breaksAt_removeFile (s : Removal) (o : Outcome) (file : String) :
    ¬ BreaksAt files (removeFile call s o file) := by
  rw [removeFile, breaksAt_get_bind]
  split
  · exact not_breaksAt_pure _
  · split
    · split <;> exact not_breaksAt_pure _
    · split
      · exact not_breaksAt_pure _
      · rw [breaksAt_change_bind]
        split <;> exact not_breaksAt_pure _

/-- **`rm` gives an outcome**, whatever it is given. -/
theorem not_breaksAt_remove : ¬ BreaksAt files (remove call) := by
  rw [remove]
  split
  · exact not_breaksAt_pure _
  · split <;> exact not_breaksAt_pure _
  · next s operands _ _ =>
    have hnone := @breaksAt_foldlM _ _ files (removeFile call s) (fun _ => True) (fun _ => False)
      operands (fun _ _ o file _ => iff_of_false (not_breaksAt_removeFile s o file) id)
      (fun _ _ _ _ _ => trivial) trivial .success
    simp [hnone]

/-! ## Making new -/

/-- **Giving a file a new time** or making it fails in a way that is not expected where the way has a
snag, unless missing files stay missing. -/
theorem renew_spec (h : files.Grounded) (path : String) (existing : Bool) :
    ((∃ e, (renew path existing files).1 = .error e ∧ e.kind ≠ .notFound ∧ e.kind ≠ .notDirectory) ↔
      existing = false ∧ files.Snagged path) ∧
    (renew path existing files).2.Grounded ∧
      ∀ text, (renew path existing files).2.Snagged text ↔ files.Snagged text := by
  rw [renew, FileSystem.bind_apply, FileSystem.get_apply]
  dsimp only
  by_cases hhas : files.has path
  · have hsnagged := h.not_snagged_of_has hhas
    rw [if_pos hhas]
    by_cases hdirectory : files.isDirectory path
    · simp only [hdirectory, Bool.not_true, Bool.false_eq_true, if_false]
      exact ⟨iff_of_false (by rintro ⟨e, ⟨⟩, -⟩) (by simp [hsnagged]), h, fun _ => .rfl⟩
    · obtain ⟨content, hread⟩ := FileSystem.exists_read h.root hhas hdirectory
      simp only [hdirectory, Bool.not_false, if_true]
      rw [FileSystem.bind_apply, FileSystem.ask_apply, hread]
      refine ⟨iff_of_false ?_ (by simp [hsnagged]), h.write path content⟩
      rw [FileSystem.exists_write_error_iff]
      exact fun hsnag => hsnagged ⟨hdirectory, hsnag⟩
  · have hdirectory : ¬ files.isDirectory path := mt FileSystem.has_of_isDirectory hhas
    rw [if_neg hhas]
    cases existing with
    | true => exact ⟨iff_of_false (by rintro ⟨e, ⟨⟩, -⟩) (by simp), h, fun _ => .rfl⟩
    | false =>
      simp only [Bool.not_false, if_true]
      refine ⟨?_, h.write path ""⟩
      rw [FileSystem.exists_write_error_iff, FileSystem.Snagged]
      simp [hdirectory]

theorem breaksAt_touchFile_iff (existing : Bool) (o : Outcome) (file : String) :
    BreaksAt files (touchFile call existing o file) ↔
      ∃ e, (renew (pathOf call file) existing files).1 = .error e ∧
        e.kind ≠ .notFound ∧ e.kind ≠ .notDirectory := by
  rw [touchFile, breaksAt_change_bind]
  rcases renew (pathOf call file) existing files with ⟨e | ⟨⟨⟩⟩, next⟩
  · dsimp only
    split
    · next hkind =>
      exact iff_of_false (not_breaksAt_pure _) (by simpa [or_iff_not_imp_left] using hkind)
    · next hkind => exact iff_of_true (breaksAt_throw _) ⟨e, rfl, by simpa using hkind⟩
  · exact iff_of_false (not_breaksAt_pure _) (by simp)

theorem touchFile_files (existing : Bool) (o : Outcome) (file : String) :
    (touchFile call existing o file files).2 = (renew (pathOf call file) existing files).2 := by
  rw [touchFile, bind_apply, change_apply]
  rcases renew (pathOf call file) existing files with ⟨e | ⟨⟨⟩⟩, next⟩
  · dsimp only
    split <;> rfl
  · rfl

/-- **`touch` breaks** at an operand whose way has a snag, unless missing files stay missing. -/
theorem breaksAt_touch (h : files.IsTree) : BreaksAt files (touch call) ↔ ∃ operands,
    touchRules.read false call.arguments = .ok (false, operands) ∧
      ∃ file ∈ operands, files.Snagged (pathOf call file) := by
  let Inv (later : FileSystem) := later.Grounded ∧ ∀ text, later.Snagged text ↔ files.Snagged text
  have hall (existing : Bool) (operands : List String) :
      BreaksAt files (operands.foldlM (touchFile call existing) .success) ↔
        ∃ file ∈ operands, existing = false ∧ files.Snagged (pathOf call file) := by
    refine breaksAt_foldlM Inv ?_ ?_ ⟨h.grounded, fun _ => .rfl⟩ _
    · rintro later ⟨hgrounded, hsnagged⟩ o file -
      rw [breaksAt_touchFile_iff, (renew_spec hgrounded _ existing).1, hsnagged]
    · rintro later ⟨hgrounded, hsnagged⟩ o file -
      obtain ⟨-, hgrounded', hsnagged'⟩ := renew_spec hgrounded (pathOf call file) existing
      rw [touchFile_files]
      exact ⟨hgrounded', fun text => (hsnagged' text).trans (hsnagged text)⟩
  rw [touch]
  rcases touchRules.read false call.arguments with e | ⟨existing, _ | ⟨file, operands⟩⟩
  · exact iff_of_false (not_breaksAt_pure _) (by simp)
  · exact iff_of_false (not_breaksAt_pure _) (by simp)
  · dsimp only
    rw [hall]
    cases existing <;> simp

end File

/-! ## What breaks a utility -/

/-- **What breaks a utility** of some name, which is given a call and some files. -/
inductive Breaks (call : Call) (files : FileSystem) : String → Prop
  /-- The path of an operand leads nowhere: a file stands on the way, or too many links do. -/
  | cat {number : Bool} {operands : List String} {file : String}
      (hread : Cat.readArguments false call.arguments = .ok (number, operands))
      (hfile : file ∈ operands) (hlost : LostOperand call files file) : Breaks call files "cat"
  /-- The same, once the number of lines was read. -/
  | excerpt {name : String} {count : Option String} {operands : List String} {file : String}
      (hname : name = "head" ∨ name = "tail")
      (hread : Excerpt.readArguments none call.arguments = .ok (count, operands))
      (hcount : (count.elim (some .standard) Excerpt.LineCount.read?).isSome)
      (hfile : file ∈ operands) (hlost : LostOperand call files file) : Breaks call files name
  /-- The same for a file that is counted. -/
  | count {chosen : List Count.Measure} {operands : List String} {file : String}
      (hread : Count.rules.read [] call.arguments = .ok (chosen, operands))
      (hfile : file ∈ operands) (hlost : LostOperand call files file) : Breaks call files "wc"
  /-- The same for the first operand that cannot be read. -/
  | order {s : Sort.Settings} {operands : List String} (hhelp : "--help" ∉ call.arguments)
      (hread : (Sort.readArguments .standard call.arguments).run = .ok (.ok (s, operands)))
      (hlost : Sort.LostFirst call files operands) : Breaks call files "sort"
  /-- A field number has too many digits. -/
  | field {count : Nat} (hhelp : "--help" ∉ call.arguments)
      (hread : (Sort.readArguments .standard call.arguments).run =
        .error (.numeral (.tooManyDigits count))) : Breaks call files "sort"
  /-- Too many links stand on the way to a directory that is to be made. -/
  | directory {s : Directory.Settings} {names : List String} {name : String}
      (hread : Directory.rules.read ⟨false, false⟩ call.arguments = .ok (s, names))
      (hname : name ∈ names)
      (htangled : files.Tangled (FileSystem.directoryWay (pathOf call name) s.withParents)) :
      Breaks call files "mkdir"
  /-- The same for a file, or a directory stands where the file would be made. -/
  | file {operands : List String} {file : String}
      (hread : File.touchRules.read false call.arguments = .ok (false, operands))
      (hfile : file ∈ operands) (hsnagged : files.Snagged (pathOf call file)) :
      Breaks call files "touch"
  /-- A pattern is refused although it has no flaw. -/
  | pattern {s : Search.Settings} {operands : List String} {pattern : String} {e : Regex.Error}
      (hread : Search.readArguments .standard call.arguments = .ok (s, operands))
      (hpattern : s.pattern = some pattern)
      (hcompile : Regex.compile call.host.named? s.flags (s.expression pattern) = .error e)
      (hflaw : ∀ flaw place, e ≠ .flaw flaw place) : Breaks call files "grep"
  /-- Something below a directory that is searched leads nowhere. -/
  | below {s : Search.Settings} {operands : List String} {pattern operand : String} {regex : Regex}
      (hread : Search.readArguments .standard call.arguments = .ok (s, operands))
      (hpattern : s.pattern = some pattern)
      (hcompile : Regex.compile call.host.named? s.flags (s.expression pattern) = .ok regex)
      (hrecursive : s.recursive = true) (hoperand : operand ∈ Search.searched s operands)
      (hdash : operand ≠ "-") (hdirectory : files.isDirectory (pathOf call operand) = true)
      (hbelow : Search.HasLostBelow files (pathOf call operand)) : Breaks call files "grep"
  /-- A listing goes down from an empty operand, and gets lost. -/
  | listing {s : Listing.Settings} {names : List String}
      (hread : Listing.readArguments ⟨false, false, false, false⟩ call.arguments = .ok (s, names))
      (hempty : "" ∈ names) (hrecursive : s.recursive = true)
      (hthemselves : s.directoriesThemselves = false)
      (hmisleads : Listing.Misleads call s files) : Breaks call files "ls"

/-- The utilities that can break. -/
theorem Breaks.name_mem {name : String} (h : Breaks call files name) :
    name ∈ ["cat", "head", "tail", "wc", "sort", "mkdir", "touch", "grep", "ls"] := by
  cases h with
  | excerpt hname => rcases hname with rfl | rfl <;> simp
  | _ => simp

/-! ## The ways to break, by name -/

theorem breaks_cat_iff : Breaks call files "cat" ↔ ∃ number operands,
    Cat.readArguments false call.arguments = .ok (number, operands) ∧
      ∃ file ∈ operands, LostOperand call files file := by
  constructor
  · intro h
    generalize hname : "cat" = name at h
    cases h with
    | cat hread hfile hlost => exact ⟨_, _, hread, _, hfile, hlost⟩
    | excerpt hother => simp [← hname] at hother
    | _ => simp at hname
  · rintro ⟨number, operands, hread, file, hfile, hlost⟩
    exact .cat hread hfile hlost

theorem breaks_excerpt_iff {name : String} (hname : name = "head" ∨ name = "tail") :
    Breaks call files name ↔ ∃ count operands,
      Excerpt.readArguments none call.arguments = .ok (count, operands) ∧
        (count.elim (some .standard) Excerpt.LineCount.read?).isSome ∧
        ∃ file ∈ operands, LostOperand call files file := by
  constructor
  · intro h
    cases h with
    | excerpt _ hread hcount hfile hlost => exact ⟨_, _, hread, hcount, _, hfile, hlost⟩
    | _ => simp at hname
  · rintro ⟨count, operands, hread, hcount, file, hfile, hlost⟩
    exact .excerpt hname hread hcount hfile hlost

theorem breaks_wc_iff : Breaks call files "wc" ↔ ∃ chosen operands,
    Count.rules.read [] call.arguments = .ok (chosen, operands) ∧
      ∃ file ∈ operands, LostOperand call files file := by
  constructor
  · intro h
    generalize hname : "wc" = name at h
    cases h with
    | count hread hfile hlost => exact ⟨_, _, hread, _, hfile, hlost⟩
    | excerpt hother => simp [← hname] at hother
    | _ => simp at hname
  · rintro ⟨chosen, operands, hread, file, hfile, hlost⟩
    exact .count hread hfile hlost

theorem breaks_sort_iff : Breaks call files "sort" ↔ "--help" ∉ call.arguments ∧
    ((∃ count, (Sort.readArguments .standard call.arguments).run =
        .error (.numeral (.tooManyDigits count))) ∨
      ∃ s operands, (Sort.readArguments .standard call.arguments).run = .ok (.ok (s, operands)) ∧
        Sort.LostFirst call files operands) := by
  constructor
  · intro h
    generalize hname : "sort" = name at h
    cases h with
    | field hhelp hread => exact ⟨hhelp, .inl ⟨_, hread⟩⟩
    | order hhelp hread hlost => exact ⟨hhelp, .inr ⟨_, _, hread, hlost⟩⟩
    | excerpt hother => simp [← hname] at hother
    | _ => simp at hname
  · rintro ⟨hhelp, ⟨count, hread⟩ | ⟨s, operands, hread, hlost⟩⟩
    · exact .field hhelp hread
    · exact .order hhelp hread hlost

theorem breaks_mkdir_iff : Breaks call files "mkdir" ↔ ∃ s names,
    Directory.rules.read ⟨false, false⟩ call.arguments = .ok (s, names) ∧ ∃ name ∈ names,
      files.Tangled (FileSystem.directoryWay (pathOf call name) s.withParents) := by
  constructor
  · intro h
    generalize hname : "mkdir" = name at h
    cases h with
    | directory hread hmem htangled => exact ⟨_, _, hread, _, hmem, htangled⟩
    | excerpt hother => simp [← hname] at hother
    | _ => simp at hname
  · rintro ⟨s, names, hread, name, hmem, htangled⟩
    exact .directory hread hmem htangled

theorem breaks_touch_iff : Breaks call files "touch" ↔ ∃ operands,
    File.touchRules.read false call.arguments = .ok (false, operands) ∧
      ∃ file ∈ operands, files.Snagged (pathOf call file) := by
  constructor
  · intro h
    generalize hname : "touch" = name at h
    cases h with
    | file hread hfile hsnagged => exact ⟨_, hread, _, hfile, hsnagged⟩
    | excerpt hother => simp [← hname] at hother
    | _ => simp at hname
  · rintro ⟨operands, hread, file, hfile, hsnagged⟩
    exact .file hread hfile hsnagged

theorem breaks_grep_iff : Breaks call files "grep" ↔ ∃ s operands pattern,
    Search.readArguments .standard call.arguments = .ok (s, operands) ∧ s.pattern = some pattern ∧
      ((∃ e, Regex.compile call.host.named? s.flags (s.expression pattern) = .error e ∧
          ∀ flaw place, e ≠ .flaw flaw place) ∨
        (∃ regex, Regex.compile call.host.named? s.flags (s.expression pattern) = .ok regex) ∧
          s.recursive ∧ ∃ operand ∈ Search.searched s operands, operand ≠ "-" ∧
            files.isDirectory (pathOf call operand) ∧
              Search.HasLostBelow files (pathOf call operand)) := by
  constructor
  · intro h
    generalize hname : "grep" = name at h
    cases h with
    | pattern hread hpattern hcompile hflaw =>
      exact ⟨_, _, _, hread, hpattern, .inl ⟨_, hcompile, hflaw⟩⟩
    | below hread hpattern hcompile hrecursive hoperand hdash hdirectory hbelow =>
      exact ⟨_, _, _, hread, hpattern,
        .inr ⟨⟨_, hcompile⟩, hrecursive, _, hoperand, hdash, hdirectory, hbelow⟩⟩
    | excerpt hother => simp [← hname] at hother
    | _ => simp at hname
  · rintro ⟨s, operands, pattern, hread, hpattern, ⟨e, hcompile, hflaw⟩ |
      ⟨⟨regex, hcompile⟩, hrecursive, operand, hoperand, hdash, hdirectory, hbelow⟩⟩
    · exact .pattern hread hpattern hcompile hflaw
    · exact .below hread hpattern hcompile hrecursive hoperand hdash hdirectory hbelow

theorem breaks_ls_iff : Breaks call files "ls" ↔ ∃ s names,
    Listing.readArguments ⟨false, false, false, false⟩ call.arguments = .ok (s, names) ∧
      "" ∈ names ∧ s.recursive ∧ s.directoriesThemselves = false ∧
        Listing.Misleads call s files := by
  constructor
  · intro h
    generalize hname : "ls" = name at h
    cases h with
    | listing hread hempty hrecursive hthemselves hmisleads =>
      exact ⟨_, _, hread, hempty, hrecursive, hthemselves, hmisleads⟩
    | excerpt hother => simp [← hname] at hother
    | _ => simp at hname
  · rintro ⟨s, names, hread, hempty, hrecursive, hthemselves, hmisleads⟩
    exact .listing hread hempty hrecursive hthemselves hmisleads

/-! ## Outcomes -/

theorem Directory.not_breaksAt_print : ¬ BreaksAt files (Directory.print call) := by
  rw [Directory.print]
  split
  · exact not_breaksAt_pure _
  · rw [breaksAt_get_bind]
    dsimp only
    split <;> exact not_breaksAt_pure _

theorem Env.not_breaksAt_print : ¬ BreaksAt files (Env.print call) := by
  rw [Env.print]
  dsimp only
  split <;> exact not_breaksAt_pure _

/-- **A utility breaks** in these ways only. -/
theorem breaksAt_iff_breaks {name : String} {utility : Utility} (hmem : (name, utility) ∈ all)
    (h : files.IsTree) : BreaksAt files (utility call) ↔ Breaks call files name := by
  have hnever {name : String} (utility : Utility) (hsure : ¬ BreaksAt files (utility call))
      (hname : name ∉ ["cat", "head", "tail", "wc", "sort", "mkdir", "touch", "grep", "ls"]) :
      BreaksAt files (utility call) ↔ Breaks call files name :=
    iff_of_false hsure fun hbreaks => hname hbreaks.name_mem
  simp only [all, List.mem_cons, Prod.mk.injEq, List.not_mem_nil, or_false] at hmem
  rcases hmem with ⟨rfl, rfl⟩ | ⟨rfl, rfl⟩ | ⟨rfl, rfl⟩ | ⟨rfl, rfl⟩ | ⟨rfl, rfl⟩ | ⟨rfl, rfl⟩ |
    ⟨rfl, rfl⟩ | ⟨rfl, rfl⟩ | ⟨rfl, rfl⟩ | ⟨rfl, rfl⟩ | ⟨rfl, rfl⟩ | ⟨rfl, rfl⟩ | ⟨rfl, rfl⟩ |
    ⟨rfl, rfl⟩ | ⟨rfl, rfl⟩ | ⟨rfl, rfl⟩
  · exact hnever Echo.run (not_breaksAt_pure _) (by simp)
  · exact (Cat.breaksAt_run h.root).trans breaks_cat_iff.symm
  · exact (Search.breaksAt_run h.root).trans breaks_grep_iff.symm
  · exact (Listing.breaksAt_run h.normal).trans breaks_ls_iff.symm
  · exact Directory.breaksAt_make.trans breaks_mkdir_iff.symm
  · exact hnever Directory.print Directory.not_breaksAt_print (by simp)
  · exact (File.breaksAt_touch h).trans breaks_touch_iff.symm
  · exact hnever File.remove File.not_breaksAt_remove (by simp)
  · exact (Excerpt.breaksAt_run h.root _ _).trans (breaks_excerpt_iff (.inl rfl)).symm
  · exact (Excerpt.breaksAt_run h.root _ _).trans (breaks_excerpt_iff (.inr rfl)).symm
  · exact (Count.breaksAt_run h.root).trans breaks_wc_iff.symm
  · exact (Sort.breaksAt_run h.root).trans breaks_sort_iff.symm
  · exact hnever Env.run (not_breaksAt_pure _) (by simp)
  · exact hnever Env.print Env.not_breaksAt_print (by simp)
  · exact hnever (constant 0) (not_breaksAt_pure _) (by simp)
  · exact hnever (constant 1) (not_breaksAt_pure _) (by simp)

/-- A directory in another one. -/
def nested : FileSystem :=
  (FileSystem.Change.makeDirectory "/d/e" false).apply
    ((FileSystem.Change.makeDirectory "/d" false).apply (.ofClock ⟨0, 0⟩))

end VirtualShell.Utility
