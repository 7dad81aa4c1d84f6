import VirtualShell.Proofs.FileSystem.Question
import VirtualShell.Utility.Basic

/-!
# Actions of utilities that break

A utility that a fault leaves gives no outcome, and what it wrote before is lost. Whether this happens
is said here for the actions that utilities are made of. A utility that goes through its operands
breaks if it breaks at one of them; this can be told from the files before the first operand, as long
as the operands before the breaking one do not matter for it.

* `Utility.BreaksAt` — a fault leaves an action.
* `Utility.Quiet` — an action leaves the files alone.
* `Utility.breaksAt_foldlM` — going through operands.
* **`Utility.breaksAt_textOf_bind`** — reading an operand, and then going on.
-/

namespace VirtualShell.Utility

variable {α β σ : Type} {files : FileSystem}

/-! ## Acting on files -/

theorem bind_apply (x : UtilityAction α) (f : α → UtilityAction β) (files : FileSystem) :
    (x >>= f) files =
      match x files with
      | (.ok a, next) => f a next
      | (.error i, next) => (.error i, next) := by
  simp only [bind, ExceptT.bind, ExceptT.mk, StateT.bind]
  rcases x files with ⟨_ | _, _⟩ <;> rfl

theorem bind_apply_of_ok {x : UtilityAction α} {a : α} {files next : FileSystem}
    (h : x files = (.ok a, next)) (f : α → UtilityAction β) : (x >>= f) files = f a next := by
  rw [bind_apply, h]

theorem bind_apply_of_error {x : UtilityAction α} {e : Fault} {files next : FileSystem}
    (h : x files = (.error e, next)) (f : α → UtilityAction β) :
    (x >>= f) files = (.error e, next) := by
  rw [bind_apply, h]

theorem pure_apply (a : α) (files : FileSystem) :
    (pure a : UtilityAction α) files = (.ok a, files) := rfl

theorem get_apply (files : FileSystem) :
    (get : UtilityAction FileSystem) files = (.ok files, files) := rfl

theorem ask_apply (question : FileSystem → Except FileError α) (files : FileSystem) :
    ask question files = ((question files).mapError .files, files) := by
  rw [ask, bind_apply, get_apply]
  dsimp only
  cases question files <;> rfl

theorem change_apply (action : FileAction α) (files : FileSystem) :
    change action files = (.ok (action files).1, (action files).2) := rfl

/-- **An action writes a text** and leaves the files as they are. -/
def Writes (x : UtilityAction Outcome) (files : FileSystem) (text : String) : Prop :=
  ∃ o, x files = (.ok o, files) ∧ o.output.stdout = text

/-! ## Breaking -/

/-- **An action breaks** at some files: a fault leaves it. -/
def BreaksAt (files : FileSystem) (x : UtilityAction α) : Prop := ∃ f, (x files).1 = .error f

/-- An action that leaves the files as they are. -/
def Quiet (x : UtilityAction α) : Prop := ∀ files, (x files).2 = files

theorem not_breaksAt_iff {x : UtilityAction α} :
    ¬ BreaksAt files x ↔ ∃ a, (x files).1 = .ok a := by
  rw [BreaksAt]
  cases (x files).1 <;> simp

theorem not_breaksAt_pure (a : α) : ¬ BreaksAt files (pure a : UtilityAction α) := by
  rintro ⟨f, h⟩
  cases h

theorem breaksAt_throw (f : Fault) : BreaksAt files (throw f : UtilityAction α) := ⟨f, rfl⟩

theorem breaksAt_bind {x : UtilityAction α} {f : α → UtilityAction β} :
    BreaksAt files (x >>= f) ↔
      BreaksAt files x ∨ ∃ a, (x files).1 = .ok a ∧ BreaksAt (x files).2 (f a) := by
  rw [BreaksAt, BreaksAt, bind_apply]
  rcases x files with ⟨f | a, next⟩ <;> simp [BreaksAt]

theorem breaksAt_get_bind {f : FileSystem → UtilityAction β} :
    BreaksAt files (get >>= f) ↔ BreaksAt files (f files) := by
  rw [BreaksAt, bind_apply, get_apply]
  rfl

theorem breaksAt_ask {question : FileSystem → Except FileError α} :
    BreaksAt files (ask question) ↔ ∃ e, question files = .error e := by
  rw [BreaksAt, ask_apply]
  cases question files <;> simp [Except.mapError]

/-- What cannot break may follow. -/
theorem breaksAt_bind_of_sure {x : UtilityAction α} {f : α → UtilityAction β}
    (hf : ∀ a next, ¬ BreaksAt next (f a)) : BreaksAt files (x >>= f) ↔ BreaksAt files x := by
  simp only [breaksAt_bind, hf, and_false, exists_false, or_false]

theorem breaksAt_bind_pure {x : UtilityAction α} (f : α → β) :
    BreaksAt files (x >>= fun a => pure (f a)) ↔ BreaksAt files x :=
  breaksAt_bind_of_sure fun _ _ => not_breaksAt_pure _

theorem breaksAt_change_bind {action : FileAction α}
    {f : Except FileError α → UtilityAction β} :
    BreaksAt files (change action >>= f) ↔ BreaksAt (action files).2 (f (action files).1) := by
  rw [BreaksAt, bind_apply, change_apply]
  rfl

/-! ## Quiet actions -/

theorem quiet_pure (a : α) : Quiet (pure a : UtilityAction α) := fun _ => rfl

theorem quiet_ask (question : FileSystem → Except FileError α) : Quiet (ask question) :=
  fun files => by rw [ask_apply]

theorem Quiet.bind {x : UtilityAction α} {f : α → UtilityAction β} (hx : Quiet x)
    (hf : ∀ a, Quiet (f a)) : Quiet (x >>= f) := by
  intro files
  have hsame := hx files
  rw [bind_apply]
  rcases h : x files with ⟨e | a, next⟩ <;> rw [h] at hsame
  · exact hsame
  · exact (hf a next).trans hsame

theorem quiet_get : Quiet (get : UtilityAction FileSystem) := fun _ => rfl

/-- What comes of a quiet action. -/
theorem Quiet.cases {x : UtilityAction α} (hx : Quiet x) (files : FileSystem) :
    (∃ a, x files = (.ok a, files)) ∨ ∃ f, x files = (.error f, files) := by
  have hsame := hx files
  rcases h : x files with ⟨f | a, next⟩ <;> rw [h] at hsame
  · exact .inr ⟨f, congrArg (Prod.mk _) hsame⟩
  · exact .inl ⟨a, congrArg (Prod.mk _) hsame⟩

theorem Quiet.breaksAt_bind {x : UtilityAction α} {f : α → UtilityAction β} (hx : Quiet x) :
    BreaksAt files (x >>= f) ↔
      BreaksAt files x ∨ ∃ a, (x files).1 = .ok a ∧ BreaksAt files (f a) := by
  rw [Utility.breaksAt_bind, hx files]

theorem quiet_mapM {f : α → UtilityAction β} (hf : ∀ a, Quiet (f a)) (as : List α) :
    Quiet (as.mapM f) := by
  induction as with
  | nil => exact quiet_pure []
  | cons a as ih =>
    rw [List.mapM_cons]
    exact (hf a).bind fun _ => ih.bind fun _ => quiet_pure _

/-- **Quiet actions one after another** break if one of them does. -/
theorem breaksAt_mapM {f : α → UtilityAction β} (hf : ∀ a, Quiet (f a)) (as : List α) :
    BreaksAt files (as.mapM f) ↔ ∃ a ∈ as, BreaksAt files (f a) := by
  induction as with
  | nil => exact iff_of_false (not_breaksAt_pure []) (by simp)
  | cons a as ih =>
    rw [List.mapM_cons, (hf a).breaksAt_bind]
    simp only [breaksAt_bind_pure, ih, List.exists_mem_cons_iff]
    constructor
    · rintro (h | ⟨-, -, h⟩)
      · exact .inl h
      · exact .inr h
    · intro h
      by_cases hfirst : BreaksAt files (f a)
      · exact .inl hfirst
      · obtain ⟨b, hb⟩ := not_breaksAt_iff.1 hfirst
        exact .inr ⟨b, hb, h.resolve_left hfirst⟩

theorem quiet_foldlM {f : σ → α → UtilityAction σ} (hf : ∀ s a, Quiet (f s a)) (s : σ)
    (as : List α) : Quiet (as.foldlM f s) := by
  induction as generalizing s with
  | nil => exact quiet_pure s
  | cons a as ih =>
    rw [List.foldlM_cons]
    exact (hf s a).bind fun _ => ih _

/-- **Going through operands**: if each of them breaks the action or not whatever came before it, the
action breaks if one of them does. What keeps the others from mattering is an invariant of the
files. -/
theorem breaksAt_foldlM {f : σ → α → UtilityAction σ} (Inv : FileSystem → Prop)
    {Breaks : α → Prop} {as : List α}
    (hbreaks : ∀ files, Inv files → ∀ s, ∀ a ∈ as, BreaksAt files (f s a) ↔ Breaks a)
    (hinv : ∀ files, Inv files → ∀ s, ∀ a ∈ as, Inv (f s a files).2) (h : Inv files) (s : σ) :
    BreaksAt files (as.foldlM f s) ↔ ∃ a ∈ as, Breaks a := by
  induction as generalizing s files with
  | nil => exact iff_of_false (not_breaksAt_pure s) (by simp)
  | cons a as ih =>
    have hfirst := hbreaks files h s a List.mem_cons_self
    have hnext := hinv files h s a List.mem_cons_self
    rw [List.foldlM_cons, breaksAt_bind, hfirst, List.exists_mem_cons_iff]
    by_cases hbreak : Breaks a
    · simp [hbreak]
    · obtain ⟨s', hs'⟩ := not_breaksAt_iff.1 (mt hfirst.1 hbreak)
      have hrest := ih (fun files h s b hb => hbreaks files h s b (List.mem_cons_of_mem _ hb))
        (fun files h s b hb => hinv files h s b (List.mem_cons_of_mem _ hb)) hnext
      simp [hbreak, hs', hrest]

/-- Going quietly through operands. -/
theorem breaksAt_foldlM_of_quiet {f : σ → α → UtilityAction σ} (Breaks : α → Prop)
    (hf : ∀ s a, Quiet (f s a)) {as : List α}
    (hbreaks : ∀ s, ∀ a ∈ as, BreaksAt files (f s a) ↔ Breaks a) (s : σ) : BreaksAt files (as.foldlM f s) ↔ ∃ a ∈ as, Breaks a := by
  refine breaksAt_foldlM (· = files) ?_ ?_ rfl s
  · rintro _ rfl
    exact hbreaks
  · rintro _ rfl s a -
    exact hf s a _

/-! ## Reading operands -/

/-- **The path of an operand leads nowhere**; a dash has no path. -/
def LostOperand (call : Call) (files : FileSystem) (operand : String) : Prop :=
  operand ≠ "-" ∧ files.Lost (pathOf call operand)

/-- An operand can be read: it is the input, or a file. -/
def ReadableOperand (call : Call) (files : FileSystem) (operand : String) : Prop :=
  operand = "-" ∨ ∃ text, files.read (pathOf call operand) = .ok text

theorem textOf_of_read {call : Call} {operand text : String} (hdash : operand ≠ "-")
    (hread : files.read (pathOf call operand) = .ok text) :
    textOf call operand files = (.ok (.ok text), files) := by
  rw [textOf, if_neg hdash, bind_apply, get_apply]
  dsimp only
  rw [hread]
  rfl

/-- **The text of an operand** is found if it can be read, and otherwise it is told what it misses,
unless its path leads nowhere. -/
theorem textOf_cases (hroot : files.nodeAt? .root = some .directory) (call : Call)
    (operand : String) :
    (LostOperand call files operand ∧ BreaksAt files (textOf call operand)) ∨
      ¬ LostOperand call files operand ∧ ∃ found, textOf call operand files = (.ok found, files) ∧
        ((∃ text, found = .ok text) ↔ ReadableOperand call files operand) := by
  rw [BreaksAt, textOf, ReadableOperand]
  by_cases hdash : operand = "-"
  · rw [if_pos hdash]
    exact .inr ⟨fun h => h.1 hdash, _, rfl, iff_of_true ⟨_, rfl⟩ (.inl hdash)⟩
  · rw [if_neg hdash]
    rw [bind_apply, get_apply]
    dsimp only
    rcases files.read_cases hroot (pathOf call operand) with
      ⟨hlost, ⟨kind, place⟩, hread, hkind⟩ | ⟨hlost, hread⟩
    · refine .inl ⟨⟨hdash, hlost⟩, ?_⟩
      rw [hread]
      rcases hkind with rfl | rfl <;> exact ⟨_, rfl⟩
    · refine .inr ⟨fun h => hlost h.2, ?_⟩
      rcases hread with ⟨content, hread⟩ | hread | hread <;> rw [hread]
      · exact ⟨_, rfl, iff_of_true ⟨_, rfl⟩ (.inr ⟨_, rfl⟩)⟩
      · exact ⟨_, rfl, iff_of_false nofun (by simp [hdash])⟩
      · exact ⟨_, rfl, iff_of_false nofun (by simp [hdash])⟩

/-- **Reading an operand, and then going on**: this breaks if the path of the operand leads nowhere,
or whatever was read or missed when the rest breaks. -/
theorem breaksAt_textOf_bind (hroot : files.nodeAt? .root = some .directory) {call : Call}
    {operand : String} {f : Except FileErrorKind String → UtilityAction β} {Later : Prop}
    (hf : ∀ found, BreaksAt files (f found) ↔ Later) :
    BreaksAt files (textOf call operand >>= f) ↔ LostOperand call files operand ∨ Later := by
  rw [breaksAt_bind]
  rcases textOf_cases hroot call operand with ⟨hlost, hbreaks⟩ | ⟨hlost, found, hfound, -⟩
  · simp [hlost, hbreaks]
  · have hreads : ¬ BreaksAt files (textOf call operand) :=
      not_breaksAt_iff.2 ⟨found, by rw [hfound]⟩
    simp [hlost, hreads, hfound, hf]

end VirtualShell.Utility
