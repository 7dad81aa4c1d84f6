import VirtualShell.Proofs.Utility.Listing
import VirtualShell.Proofs.Utility.Reading
import VirtualShell.Utility.Registry

/-!
# What utilities do to files

Most utilities look at the files and leave them alone. `mkdir`, `touch` and `rm` change them, but by
operations on files only, one for each operand. So what holds of files through all operations holds of
them after a utility as well, also when a fault leaves it.

* `Utility.Operates` — an action that changes files by operations only.
* `Utility.quiet_apply` — the utilities that leave the files alone.
* **`Utility.operates_apply`** — all utilities change files by operations only.
-/

namespace VirtualShell.Utility

variable {α β σ : Type} (call : Call)

/-! ## Utilities that look at files -/

theorem quiet_throw (f : Fault) : Quiet (throw f : UtilityAction α) := fun _ => rfl

theorem quiet_textOf (operand : String) : Quiet (textOf call operand) := by
  unfold textOf
  split
  · exact quiet_pure _
  · refine quiet_get.bind fun files => ?_
    split <;> first | exact quiet_pure _ | exact quiet_throw _

/-- What is done with the text of an operand, or without it, may be quiet as well. -/
theorem quiet_textOf_bind {f : Except FileErrorKind String → UtilityAction α} (operand : String)
    (herror : ∀ reason, Quiet (f (.error reason))) (hok : ∀ text, Quiet (f (.ok text))) :
    Quiet (textOf call operand >>= f) := by
  refine (quiet_textOf call operand).bind fun found => ?_
  cases found with
  | error reason => exact herror reason
  | ok text => exact hok text

theorem Cat.quiet_writeFiles (number : Bool) (o : Outcome) (line : Nat) (operands : List String) :
    Quiet (writeFiles call number o line operands) := by
  induction operands generalizing o line with
  | nil => exact quiet_pure o
  | cons operand operands ih =>
    rw [writeFiles]
    exact quiet_textOf_bind call operand (fun _ => ih _ _) fun _ => ih _ _

theorem Cat.quiet_run : Quiet (run call) := by
  unfold run
  split
  · exact quiet_pure _
  · exact quiet_writeFiles call _ _ _ _

theorem Excerpt.quiet_writeFiles (name : String) (select : List String → List String)
    (withHeaders isFirst : Bool) (o : Outcome) (operands : List String) :
    Quiet (writeFiles name select call withHeaders isFirst o operands) := by
  induction operands generalizing isFirst o with
  | nil => exact quiet_pure o
  | cons operand operands ih =>
    rw [writeFiles]
    exact quiet_textOf_bind call operand (fun _ => ih _ _) fun _ => ih _ _

theorem Excerpt.quiet_run (name : String) (select : LineCount → List String → List String) :
    Quiet (run name select call) := by
  unfold run
  split
  · exact quiet_pure _
  · dsimp only
    split
    · exact quiet_pure _
    · exact quiet_writeFiles call _ _ _ _ _ _

theorem Count.quiet_readFiles (named : Bool) (o : Outcome) (operands : List String) :
    Quiet (readFiles call named o operands) := by
  induction operands generalizing o with
  | nil => exact quiet_pure _
  | cons operand operands ih =>
    rw [readFiles]
    refine quiet_textOf_bind call operand (fun _ => ih _) fun text => ?_
    exact (ih o).bind fun _ => quiet_pure _

theorem Count.quiet_run : Quiet (run call) := by
  unfold run
  split
  · exact quiet_pure _
  · exact (quiet_readFiles call _ _ _).bind fun _ => quiet_pure _

theorem Sort.quiet_readFiles (operands : List String) : Quiet (readFiles call operands) := by
  induction operands with
  | nil => exact quiet_pure _
  | cons operand operands ih =>
    rw [readFiles]
    refine quiet_textOf_bind call operand (fun _ => quiet_pure _) fun text => ?_
    refine ih.bind fun more => ?_
    cases more <;> exact quiet_pure _

theorem Sort.quiet_run : Quiet (run call) := by
  unfold run
  split
  · exact quiet_pure _
  split
  · exact quiet_throw _
  · exact quiet_pure _
  · refine (quiet_readFiles call _).bind fun found => ?_
    cases found <;> exact quiet_pure _

theorem Search.quiet_run : Quiet (run call) := by
  unfold run
  split
  · exact quiet_pure _
  split
  · exact quiet_pure _
  dsimp only
  split
  · exact quiet_pure _
  · exact quiet_throw _
  · exact (quiet_mapM (fun operand => quiet_sourcesOf _ operand) _).bind fun _ => quiet_pure _

theorem Listing.quiet_run : Quiet (run call) := by
  unfold run
  split
  · exact quiet_pure _
  · refine quiet_get.bind fun files => ?_
    dsimp only
    refine (quiet_mapM (fun name => quiet_line _ _ _ _) _).bind fun lines => ?_
    refine Quiet.bind ?_ fun _ => quiet_pure _
    exact quiet_foldlM (fun page shown => quiet_listDirectory call _ _ _ page shown) _ _

theorem Directory.quiet_print : Quiet (print call) := by
  unfold print
  split
  · exact quiet_pure _
  · refine quiet_get.bind fun files => ?_
    dsimp only
    split <;> exact quiet_pure _

theorem Env.quiet_print : Quiet (print call) := by
  unfold print
  dsimp only
  split <;> exact quiet_pure _

/-- **The utilities that leave the files alone.** -/
theorem quiet_apply {name : String} {utility : Utility} (h : (name, utility) ∈ all)
    (hname : name ∉ ["mkdir", "touch", "rm"]) : Quiet (utility call) := by
  simp only [all, List.mem_cons, Prod.mk.injEq, List.not_mem_nil, or_false] at h
  rcases h with ⟨-, rfl⟩ | ⟨-, rfl⟩ | ⟨-, rfl⟩ | ⟨-, rfl⟩ | ⟨rfl, -⟩ | ⟨-, rfl⟩ | ⟨rfl, -⟩ |
    ⟨rfl, -⟩ | ⟨-, rfl⟩ | ⟨-, rfl⟩ | ⟨-, rfl⟩ | ⟨-, rfl⟩ | ⟨-, rfl⟩ | ⟨-, rfl⟩ | ⟨-, rfl⟩ | ⟨-, rfl⟩
  · exact quiet_pure _
  · exact Cat.quiet_run call
  · exact Search.quiet_run call
  · exact Listing.quiet_run call
  · simp at hname
  · exact Directory.quiet_print call
  · simp at hname
  · simp at hname
  · exact Excerpt.quiet_run call _ _
  · exact Excerpt.quiet_run call _ _
  · exact Count.quiet_run call
  · exact Sort.quiet_run call
  · exact quiet_pure _
  · exact Env.quiet_print call
  all_goals exact quiet_pure _

/-! ## Utilities that change files -/

/-- **An action that changes files by operations only.** -/
def Operates (x : UtilityAction α) : Prop := ∀ files : FileSystem, files.Becomes (x files).2

theorem Quiet.operates {x : UtilityAction α} (hx : Quiet x) : Operates x :=
  fun files => .of_eq (hx files)

theorem operates_change {action : FileAction α}
    (h : ∀ files : FileSystem, files.Becomes (action files).2) : Operates (change action) := h

theorem Operates.bind {x : UtilityAction α} {f : α → UtilityAction β} (hx : Operates x)
    (hf : ∀ a, Operates (f a)) : Operates (x >>= f) := by
  intro files
  have hfirst := hx files
  rw [bind_apply]
  rcases h : x files with ⟨e | a, next⟩ <;> rw [h] at hfirst
  · exact hfirst
  · exact hfirst.trans (hf a next)

theorem operates_foldlM {f : σ → α → UtilityAction σ} (hf : ∀ s a, Operates (f s a)) (s : σ)
    (as : List α) : Operates (as.foldlM f s) := by
  induction as generalizing s with
  | nil => exact (quiet_pure s).operates
  | cons a as ih =>
    rw [List.foldlM_cons]
    exact (hf s a).bind fun _ => ih _

theorem Directory.operates_makeAll (s : Settings) (o : Outcome) (names : List String) :
    Operates (makeAll call s o names) := by
  induction names generalizing o with
  | nil => exact (quiet_pure o).operates
  | cons name names ih =>
    rw [makeAll]
    refine (operates_change fun files => .of_change
      (.makeDirectory (pathOf call name) s.withParents) files).bind fun made => ?_
    cases made with
    | ok => exact ih _
    | error e =>
      dsimp only
      split
      · exact ih _
      · exact (quiet_throw _).operates

theorem Directory.operates_make : Operates (make call) := by
  unfold make
  split
  · exact (quiet_pure _).operates
  · exact (quiet_pure _).operates
  · exact operates_makeAll call _ _ _

theorem File.operates_removeFile (s : Removal) (o : Outcome) (file : String) :
    Operates (removeFile call s o file) := by
  refine quiet_get.operates.bind fun files => ?_
  split
  · exact (quiet_pure _).operates
  split
  · split <;> exact (quiet_pure _).operates
  split
  · exact (quiet_pure _).operates
  · refine (operates_change fun files => .of_change
      (.remove (pathOf call file) s.recursive s.force) files).bind fun removed => ?_
    cases removed <;> exact (quiet_pure _).operates

theorem File.operates_remove : Operates (remove call) := by
  unfold remove
  split
  · exact (quiet_pure _).operates
  · exact (quiet_pure _).operates
  · exact operates_foldlM (operates_removeFile call _) _ _

/-- A file that is made new is written, or is left as it is. -/
theorem File.becomes_renew (path : String) (existing : Bool) (files : FileSystem) :
    files.Becomes (renew path existing files).2 := by
  have hwrite (content : String) : files.Becomes (FileSystem.write path content files).2 :=
    .of_change (.write path content) files
  rw [renew, FileSystem.bind_apply, FileSystem.get_apply]
  dsimp only
  split
  · split
    · rw [FileSystem.bind_apply, FileSystem.ask_apply]
      cases files.read path with
      | error e => exact .refl files
      | ok content => exact hwrite content
    · exact .refl files
  · split
    · exact hwrite ""
    · exact .refl files

theorem File.operates_touchFile (existing : Bool) (o : Outcome) (file : String) :
    Operates (touchFile call existing o file) := by
  refine (operates_change (becomes_renew (pathOf call file) existing)).bind fun renewed => ?_
  cases renewed with
  | ok => exact (quiet_pure _).operates
  | error e =>
    dsimp only
    split
    · exact (quiet_pure _).operates
    · exact (quiet_throw _).operates

theorem File.operates_touch : Operates (touch call) := by
  unfold touch
  split
  · exact (quiet_pure _).operates
  · exact (quiet_pure _).operates
  · exact operates_foldlM (operates_touchFile call _) _ _

/-- **Utilities change files by operations only.** -/
theorem operates_apply {name : String} {utility : Utility} (h : (name, utility) ∈ all) :
    Operates (utility call) := by
  by_cases hname : name ∈ ["mkdir", "touch", "rm"]
  · simp only [all, List.mem_cons, Prod.mk.injEq, List.not_mem_nil, or_false] at h hname
    rcases hname with rfl | rfl | rfl <;> simp at h <;> subst h
    · exact Directory.operates_make call
    · exact File.operates_touch call
    · exact File.operates_remove call
  · exact (quiet_apply call h hname).operates

/-- **Named utilities that change files by operations only.** Nothing else is offered to a utility, so
those that are added to the registry can be expected to be of this kind as well. -/
def AllOperate (utilities : List (String × Utility)) : Prop :=
  ∀ name utility, (name, utility) ∈ utilities → ∀ call, Operates (utility call)

theorem allOperate_all : AllOperate all := fun _ _ h call => operates_apply call h

end VirtualShell.Utility
