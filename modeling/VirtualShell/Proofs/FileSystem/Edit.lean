import Mathlib
import VirtualShell.Proofs.FileSystem.History
import VirtualShell.Proofs.FileSystem.Resolution

/-!
# Edits of the table of files

What the operations on files do to the table, one entry at a time: a file is written, an entry made
where nothing stands, permission bits are set, or entries are dropped. `Change.Edit` says under which
conditions each of these happens. What an operation leaves is then found by induction over its
edits, and no operation has to be opened again.

* `FileSystem.Change.WritesAt`, `FileSystem.Change.SetsModeAt`, `FileSystem.Change.Removes` — what
  an operation may do to an entry that is there.
* `FileSystem.Change.Edit` — an edit that an operation makes.
* **`FileSystem.Change.edits_apply`** — an operation is a sequence of such edits.
-/

namespace VirtualShell.FileSystem

variable {fs : FileSystem} {p : Path}

namespace Change

/-- **The operation writes the file at a path.** -/
def WritesAt (fs : FileSystem) (p : Path) : Change → Prop
  | write text _ | append text _ => fs.landing text = .ok p
  | _ => False

/-- **The operation sets the permission bits** of what stands at a path. -/
def SetsModeAt (fs : FileSystem) (p : Path) : Change → Prop
  | setMode text _ => fs.realPath text = .ok p
  | _ => False

/-- The operation removes entries. -/
def Removes : Change → Prop
  | remove .. => True
  | _ => False

instance : (c : Change) → Decidable c.Removes
  | remove .. => .isTrue trivial
  | write .. | append .. | makeDirectory .. | makeLink .. | setMode .. => .isFalse id

/-- **An edit** that an operation makes after it found some files. A file that is written keeps its
permission bits, and stands neither in the place of a directory nor, below the root, in that of a
link. A new entry is made where nothing stands, in the root or a directory. -/
inductive Edit (c : Change) (found fs : FileSystem) : FileSystem → Prop
  | write {p : Path} {e : Entry} {content : String} {clock : Clock} (hat : c.WritesAt found p)
      (hdir : fs.nodeAt? p ≠ some .directory)
      (hlink : p ≠ .root → ∀ target, fs.nodeAt? p ≠ some (.link target))
      (hnode : e.node = .file content)
      (hmode : ∀ old mode modified, fs.entryAt? p = some ⟨.file old, mode, modified⟩ → e.mode = mode) :
      c.Edit found fs ⟨fs.entries.insert p e, clock⟩
  | make {p : Path} {node : Node} (hfree : fs.nodeAt? p = none)
      (hparent : p.parent = .root ∨ fs.nodeAt? p.parent = some .directory) :
      c.Edit found fs (fs.place p node)
  | setMode {p : Path} {e : Entry} {mode : Int} (hat : c.SetsModeAt found p)
      (he : fs.entryAt? p = some e) : c.Edit found fs ⟨fs.entries.insert p { e with mode }, fs.clock⟩
  | dropBelow {p : Path} (hremoves : c.Removes) :
      c.Edit found fs (fs.drop fun q => goesWith p q || q == p)
  | dropOne {p : Path} (hremoves : c.Removes) (hdir : fs.nodeAt? p ≠ some .directory) :
      c.Edit found fs (fs.drop (· == p))

/-- **Edits one after another**, from the files that the operation found. -/
abbrev Edits (c : Change) (found : FileSystem) : FileSystem → Prop :=
  Relation.ReflTransGen (c.Edit found) found

/-! ## Writing -/

/-- Where a file lands stands no link. -/
theorem not_link_of_landing {text : String} (h : fs.landing text = .ok p) (hroot : p ≠ .root)
    (target : String) : fs.nodeAt? p ≠ some (.link target) := by
  obtain ⟨q, -, hfollow⟩ := bind_eq_ok_iff.1 h
  obtain ⟨links, hleads⟩ := exists_leads hfollow
  exact hleads.not_link hroot target

theorem edits_write {c : Change} {text : String} (content : String)
    (hat : ∀ p, fs.landing text = .ok p → c.WritesAt fs p) :
    c.Edits fs (FileSystem.write text content fs).2 := by
  rw [write_apply]
  cases hlanding : fs.landing text with
  | error e => exact .refl
  | ok p =>
    have hlink := not_link_of_landing hlanding
    dsimp only
    cases hentry : fs.entryAt? p with
    | none =>
      refine .single (.write (hat p hlanding) ?_ hlink rfl ?_)
      · simp [nodeAt?, hentry]
      · simp [hentry]
    | some e =>
      obtain ⟨node, mode, modified⟩ := e
      cases node with
      | directory => exact .refl
      | file old =>
        refine .single (.write (hat p hlanding) ?_ hlink rfl ?_)
        · simp [nodeAt?, hentry]
        · rintro old' mode' modified' heq
          rw [hentry] at heq
          cases heq
          rfl
      | link target =>
        refine .single (.write (hat p hlanding) ?_ hlink rfl ?_)
        · simp [nodeAt?, hentry]
        · simp [hentry]

/-! ## Making entries -/

theorem edits_makeAt (c : Change) (text message : String) (node : Node) :
    c.Edits fs (makeAt text message node fs).2 := by
  rcases makeAt_cases fs text message node with hsame | ⟨p, hplace, hfree, hnext⟩
  · rw [hsame]
  · rw [hnext]
    refine .single (.make (nodeAt?_eq_none_iff.2 hfree) ?_)
    by_cases hroot : p = .root
    · subst hroot
      exact .inl rfl
    · exact .inr ((placeFor_spec hplace).2 hroot)

/-- Making directories leaves what is further down as it is. -/
theorem nodeAt?_ensureNames_of_lt {names : List String} {q : Path}
    (h : names.length < q.parts.length) :
    (ensureNames names fs).2.nodeAt? q = fs.nodeAt? q := by
  induction names with
  | nil => rfl
  | cons name above ih =>
    have hrest := ih (by simp at h; omega)
    rcases ensureNames_cases name above fs with ⟨-, hrun⟩ | ⟨node, e, -, -, -, hrun⟩ |
      ⟨-, ⟨e, next, habove, hrun⟩ | ⟨next, habove, hrun⟩⟩
    · rw [hrun]
    · rw [hrun]
    · rw [habove] at hrest
      rw [hrun]
      exact hrest
    · have hne : (⟨(name :: above).reverse⟩ : Path) ≠ q := by
        rintro rfl
        simp at h
      rw [habove] at hrest
      rw [hrun, place, nodeAt?_insert, if_neg hne]
      exact hrest

/-- **Making directories** is a sequence of edits, and in the end the last one stands there. -/
theorem edits_ensureNames (c : Change) (names : List String) :
    c.Edits fs (ensureNames names fs).2 ∧ ((ensureNames names fs).1 = .ok () →
      names = [] ∨ (ensureNames names fs).2.nodeAt? ⟨names.reverse⟩ = some .directory) := by
  induction names with
  | nil => exact ⟨.refl, fun _ => .inl rfl⟩
  | cons name above ih =>
    obtain ⟨hedits, hdir⟩ := ih
    have hframe := @nodeAt?_ensureNames_of_lt fs above ⟨(name :: above).reverse⟩ (by simp)
    rcases ensureNames_cases name above fs with ⟨hthere, hrun⟩ | ⟨node, e, -, -, -, hrun⟩ |
      ⟨hfree, ⟨e, next, habove, hrun⟩ | ⟨next, habove, hrun⟩⟩
    · rw [hrun]
      exact ⟨.refl, fun _ => .inr hthere⟩
    · rw [hrun]
      exact ⟨.refl, by rintro ⟨⟩⟩
    · rw [habove] at hedits
      rw [hrun]
      exact ⟨hedits, by rintro ⟨⟩⟩
    · rw [habove] at hedits hdir hframe
      rw [hrun]
      have hparent : Path.parent ⟨(name :: above).reverse⟩ = ⟨above.reverse⟩ := by
        simp [Path.parent]
      refine ⟨hedits.tail (.make (hframe.trans hfree) ?_), fun _ => .inr ?_⟩
      · rw [hparent]
        rcases hdir rfl with rfl | hdir
        · exact .inl rfl
        · exact .inr hdir
      · rw [place, nodeAt?_insert, if_pos rfl]

theorem edits_makeDirectory (c : Change) (text : String) (withParents : Bool) :
    c.Edits fs (FileSystem.makeDirectory text withParents fs).2 := by
  cases withParents with
  | true =>
    simp only [FileSystem.makeDirectory, if_true]
    rw [bind_apply, ask_apply]
    cases fs.follow (.ofString text) true with
    | error e => exact .refl
    | ok p => exact (edits_ensureNames c p.parts.reverse).1
  | false =>
    rw [makeDirectory_eq]
    exact edits_makeAt c _ _ _

theorem edits_makeLink (c : Change) (target text : String) :
    c.Edits fs (FileSystem.makeLink target text fs).2 := by
  rw [makeLink_eq]
  exact edits_makeAt c _ _ _

theorem edits_setMode (text : String) (mode : Int) :
    (Change.setMode text mode).Edits fs (FileSystem.setMode text mode fs).2 := by
  rw [FileSystem.setMode, bind_apply, ask_apply]
  cases hlookup : fs.lookup text true with
  | error e => exact .refl
  | ok found =>
    obtain ⟨p, e⟩ := found
    have hreal : fs.realPath text = .ok p := by
      rw [realPath, hlookup]
      rfl
    exact .single (.setMode hreal (lookup_eq_ok_iff.1 hlookup).2)

/-! ## Removing entries -/

theorem edits_removeEntry {c : Change} (hc : c.Removes) (text : String) (recursive force : Bool)
    (p : Path) : c.Edits fs (removeEntry text recursive force p fs).2 := by
  rw [removeEntry, bind_apply, get_apply]
  dsimp only
  cases hentry : fs.entryAt? p with
  | none => cases force <;> exact .refl
  | some e =>
    obtain ⟨node, mode, modified⟩ := e
    cases node with
    | directory =>
      dsimp only
      rw [bind_apply, get_apply]
      dsimp only
      split
      · exact .refl
      · exact .single (.dropBelow hc)
    | file content =>
      dsimp only
      split
      · exact .single (.dropOne hc (by simp [nodeAt?, hentry]))
      · exact .refl
    | link target =>
      dsimp only
      split
      · exact .single (.dropOne hc (by simp [nodeAt?, hentry]))
      · exact .refl

theorem edits_remove (text : String) (recursive force : Bool) :
    (Change.remove text recursive force).Edits fs (FileSystem.remove text recursive force fs).2 := by
  have hremoves : (Change.remove text recursive force).Removes := trivial
  cases hfollow : fs.follow (Path.ofString text).parent true with
  | error e =>
    rw [FileSystem.remove, bind_apply, get_apply]
    dsimp only
    rw [hfollow]
    cases force <;> exact .refl
  | ok directory =>
    rw [remove_apply hfollow]
    exact edits_removeEntry hremoves text recursive force _

/-- **An operation is a sequence of edits.** -/
theorem edits_apply (c : Change) (fs : FileSystem) : c.Edits fs (c.apply fs) := by
  cases c with
  | write text content => exact edits_write content fun _ => id
  | append text content =>
    by_cases hread : fs.Unreadable text
    · rw [show (append text content).apply fs = fs from append_of_unreadable hread content]
    · obtain ⟨whole, hwrite⟩ := append_of_not_unreadable hread content
      rw [show (append text content).apply fs = (FileSystem.write text whole fs).2 from
        congrArg Prod.snd hwrite]
      exact edits_write whole fun _ => id
  | makeDirectory text withParents => exact edits_makeDirectory _ text withParents
  | remove text recursive force => exact edits_remove text recursive force
  | makeLink target text => exact edits_makeLink _ target text
  | setMode text mode => exact edits_setMode text mode

end Change

end VirtualShell.FileSystem
