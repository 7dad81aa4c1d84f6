import Mathlib
import VirtualShell.Proofs.FileSystem.History

/-!
# Failing operations on files

An operation that fails leaves the files as they were, the clock included. Each operation asks its
questions first, and once it has changed something it cannot fail any more. Making directories is a
recursion: a directory is made after the one above it, and only the way up to the first entry that
is there can fail, before anything was made.

* `FileAction.Atomic` — a failure leaves everything as it was.
* `FileAction.Quiet`, `FileAction.Sure` — nothing is changed; nothing fails.
* `FileAction.Atomic.andThen`, `FileAction.Quiet.andThen` — how these are put one after another.
* **`FileSystem.Change.apply_of_error`** — all operations are atomic.
-/

namespace VirtualShell

namespace FileAction

variable {α β : Type}

/-- **All or nothing**: the action does what it does, or it fails and leaves everything as it was. -/
def Atomic (x : FileAction α) : Prop := ∀ fs e, (x fs).1 = .error e → (x fs).2 = fs

/-- The action changes nothing. -/
def Quiet (x : FileAction α) : Prop := ∀ fs, (x fs).2 = fs

/-- The action does not fail. -/
def Sure (x : FileAction α) : Prop := ∀ fs e, (x fs).1 ≠ .error e

theorem Quiet.atomic {x : FileAction α} (h : Quiet x) : Atomic x := fun fs _ _ => h fs

theorem Sure.atomic {x : FileAction α} (h : Sure x) : Atomic x :=
  fun fs e he => absurd he (h fs e)

/-- After a question the files are the ones that were asked. -/
theorem Quiet.andThen {x : FileAction α} {f : α → FileAction β} (h : Quiet x)
    (hf : ∀ a, Atomic (f a)) : Atomic (x >>= f) := by
  intro fs e he
  have hsame := h fs
  rw [FileSystem.bind_apply] at he ⊢
  rcases hx : x fs with ⟨_ | a, next⟩
  · rw [hx] at hsame
    exact hsame
  · rw [hx] at hsame he
    obtain rfl : next = fs := hsame
    exact hf a next e he

/-- What cannot fail may follow what is atomic. -/
theorem Atomic.andThen {x : FileAction α} {f : α → FileAction β} (h : Atomic x)
    (hf : ∀ a, Sure (f a)) : Atomic (x >>= f) := by
  intro fs e he
  have hsame := h fs
  rw [FileSystem.bind_apply] at he ⊢
  rcases hx : x fs with ⟨failure | a, next⟩
  · rw [hx] at hsame
    exact hsame failure rfl
  · rw [hx] at he
    exact absurd he (hf a next e)

theorem quiet_pure (a : α) : Quiet (pure a : FileAction α) := fun _ => rfl

theorem quiet_throw (e : FileError) : Quiet (throw e : FileAction α) := fun _ => rfl

theorem quiet_get : Quiet (get : FileAction FileSystem) := fun _ => rfl

theorem quiet_ask (question : FileSystem → Except FileError α) :
    Quiet (FileSystem.ask question) := fun fs => by rw [FileSystem.ask_apply]

theorem sure_modify (f : FileSystem → FileSystem) : Sure (modify f : FileAction Unit) := nofun

theorem sure_make (p : Path) (node : Node) : Sure (FileSystem.make p node) := sure_modify _

end FileAction

namespace FileSystem

open FileAction

/-! ## The operations -/

theorem atomic_write (text content : String) : Atomic (write text content) := by
  unfold write
  refine (quiet_ask _).andThen fun p => (quiet_ask _).andThen fun p => quiet_get.andThen fun fs => ?_
  split
  · exact (quiet_throw _).atomic
  · exact (sure_modify _).atomic
  · exact (sure_make _ _).atomic

theorem atomic_append (text content : String) : Atomic (append text content) := by
  unfold append
  refine quiet_get.andThen fun fs => ?_
  split
  · exact atomic_write _ _
  · exact atomic_write _ _
  · exact (quiet_throw _).atomic

/-- **Making directories**, by induction on the way up: the entry below is made when all above it
are there. -/
theorem atomic_ensureNames (names : List String) : Atomic (ensureNames names) := by
  induction names with
  | nil => exact (quiet_pure _).atomic
  | cons name above ih =>
    rw [ensureNames]
    refine quiet_get.andThen fun fs => ?_
    split
    · exact (quiet_pure _).atomic
    · exact (quiet_throw _).atomic
    · exact ih.andThen fun _ => sure_make _ _

theorem atomic_makeAt (text message : String) (node : Node) : Atomic (makeAt text message node) := by
  unfold makeAt
  refine (quiet_ask _).andThen fun p => quiet_get.andThen fun fs => ?_
  dsimp only
  split
  · exact (quiet_throw _).andThen fun _ => (sure_make _ _).atomic
  · exact (sure_make _ _).atomic

theorem atomic_makeDirectory (text : String) (withParents : Bool) :
    Atomic (makeDirectory text withParents) := by
  cases withParents with
  | true => exact (quiet_ask _).andThen fun p => atomic_ensureNames _
  | false => exact atomic_makeAt _ text .directory

theorem atomic_removeEntry (text : String) (recursive force : Bool) (p : Path) :
    Atomic (removeEntry text recursive force p) := by
  unfold removeEntry
  refine quiet_get.andThen fun fs => ?_
  split
  · split
    · exact (quiet_pure _).atomic
    · exact (quiet_throw _).atomic
  · refine quiet_get.andThen fun fs => ?_
    dsimp only
    split
    · exact (quiet_throw _).andThen fun _ => (sure_modify _).atomic
    · exact (sure_modify _).atomic
  · split
    · exact (sure_modify _).atomic
    · exact (quiet_pure _).atomic

theorem atomic_remove (text : String) (recursive force : Bool) :
    Atomic (remove text recursive force) := by
  unfold remove
  refine quiet_get.andThen fun fs => ?_
  split
  · split
    · exact (quiet_pure _).atomic
    · exact (quiet_throw _).atomic
  · next directory _ => exact atomic_removeEntry text recursive force (removedAt directory text)

theorem atomic_setMode (text : String) (mode : Int) : Atomic (setMode text mode) :=
  (quiet_ask _).andThen fun _ => (sure_modify _).atomic

/-- **An operation that fails leaves the files as they were.** -/
theorem Change.apply_of_error {c : Change} {fs : FileSystem} {e : FileError}
    (h : (c.action fs).1 = .error e) : c.apply fs = fs := by
  have hatomic : Atomic c.action := by
    cases c with
    | write text content => exact atomic_write text content
    | append text content => exact atomic_append text content
    | makeDirectory text withParents => exact atomic_makeDirectory text withParents
    | remove text recursive force => exact atomic_remove text recursive force
    | makeLink target text => exact atomic_makeAt _ text (.link target)
    | setMode text mode => exact atomic_setMode text mode
  exact hatomic fs e h

/-- Directories cannot be made below a file, also where a link leads to it. -/
theorem Change.apply_of_error_file :
    let fs := (Change.makeLink "f" "/l").apply ((Change.write "/f" "x").apply (ofClock ⟨0, 1⟩))
    ((Change.makeDirectory "/l" true).action fs).1 = .error ⟨.alreadyExists, "/f"⟩ ∧
      (Change.makeDirectory "/l" true).apply fs = fs := by
  have h : ((Change.makeDirectory "/l" true).action ((Change.makeLink "f" "/l").apply
      ((Change.write "/f" "x").apply (ofClock ⟨0, 1⟩)))).1 = .error ⟨.alreadyExists, "/f"⟩ := by cbv
  exact ⟨h, Change.apply_of_error h⟩

end FileSystem

end VirtualShell
