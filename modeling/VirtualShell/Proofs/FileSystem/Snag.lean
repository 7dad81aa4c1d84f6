import VirtualShell.Proofs.FileSystem.Question
import VirtualShell.Proofs.FileSystem.ReadBack

/-!
# Why a directory or a file cannot be made

A new entry is made at the end of a way, and the way may go over too many links. A file may also be
written at the end of a way that is looked up in two parts, and then a directory may stand there
although the whole path goes over too many links. Whether this happens does not depend on what was
made before: a new directory stands where nothing stood, and no walk is changed by it; and a new file
blocks only walks that met nothing but missing entries, or a file.

* `FileSystem.Tangled` — too many links stand on the way.
* `FileSystem.Snagged` — a way on which a file can neither be written nor be told to be missing.
* `FileSystem.exists_makeDirectory_error_iff`, `FileSystem.exists_write_error_iff` — how making
  directories and writing files fail on such ways.
* `FileSystem.tangled_makeDirectory_iff`, **`FileSystem.Grounded.write`** — what was made before does
  not matter.
-/

namespace VirtualShell.FileSystem

variable {fs next : FileSystem} {path place p : Path} {bound : Nat} {names : List String}
  {text content : String}

/-- **Too many links** stand on the way of a path. -/
def Tangled (fs : FileSystem) (path : Path) : Prop :=
  ∃ e, fs.follow path true = .error e ∧ e.kind = .tooManyLinks

/-- **A path leads to a directory.** -/
def LeadsToDirectory (fs : FileSystem) (path : Path) : Prop :=
  ∃ place, fs.follow path true = .ok place ∧ fs.nodeAt? place = some .directory

/-! ## New directories -/

/-- Files that differ by directories where nothing stood. -/
def DirectoriesAdded (fs next : FileSystem) : Prop :=
  ∀ p, next.nodeAt? p = fs.nodeAt? p ∨ fs.nodeAt? p = none ∧ next.nodeAt? p = some .directory

theorem DirectoriesAdded.refl (fs : FileSystem) : DirectoriesAdded fs fs := fun _ => .inl rfl

theorem directoriesAdded_place (hfree : fs.nodeAt? p = none) :
    DirectoriesAdded fs (fs.place p .directory) := by
  intro q
  rw [place, nodeAt?_insert]
  by_cases hq : p = q
  · subst hq
    exact .inr ⟨hfree, if_pos rfl⟩
  · exact .inl (if_neg hq)

theorem DirectoriesAdded.trans {last : FileSystem} (h : DirectoriesAdded fs next)
    (h' : DirectoriesAdded next last) : DirectoriesAdded fs last := by
  intro p
  rcases h p with hsame | ⟨hfree, hmade⟩
  · rw [← hsame]
    exact h' p
  · rcases h' p with hsame' | ⟨hfree', -⟩
    · exact .inr ⟨hfree, hsame'.trans hmade⟩
    · rw [hmade] at hfree'
      cases hfree'

/-- **No walk is changed** by directories where nothing stood. -/
theorem DirectoriesAdded.walk_eq (h : DirectoriesAdded fs next) (place : Path)
    (names : List String) : next.walk true place names = fs.walk true place names := by
  induction names generalizing place with
  | nil => rfl
  | cons name rest ih =>
    rw [walk_cons, walk_cons]
    rcases h (place.child name) with hsame | ⟨hfree, hmade⟩
    · rw [hsame, ih]
    · rw [hfree, hmade]
      exact ih _

theorem DirectoriesAdded.follow_eq (h : DirectoriesAdded fs next) (path : Path) :
    next.follow path true = fs.follow path true := by
  rw [follow, follow]
  generalize maxLinks = bound
  generalize path.parts = names
  induction bound generalizing names with
  | zero => rw [followNames, followNames, h.walk_eq]
  | succ bound ih =>
    rw [followNames, followNames, h.walk_eq]
    simp only [ih]

/-! ## Making directories -/

/-- Making directories adds directories; it fails only where something else stands. -/
theorem directoriesAdded_ensureNames (fs : FileSystem) (names : List String) :
    DirectoriesAdded fs (ensureNames names fs).2 ∧
      ∀ e, (ensureNames names fs).1 = .error e → e.kind = .alreadyExists := by
  induction names with
  | nil =>
    refine ⟨.refl fs, ?_⟩
    rintro e ⟨⟩
  | cons name above ih =>
    obtain ⟨hadded, hkind⟩ := ih
    have hframe := @Change.nodeAt?_ensureNames_of_lt fs above ⟨(name :: above).reverse⟩ (by simp)
    rcases ensureNames_cases name above fs with ⟨-, hrun⟩ | ⟨node, e, -, -, he, hrun⟩ |
      ⟨hfree, ⟨e, next, habove, hrun⟩ | ⟨next, habove, hrun⟩⟩
    · rw [hrun]
      refine ⟨.refl fs, ?_⟩
      rintro e ⟨⟩
    · rw [hrun]
      refine ⟨.refl fs, ?_⟩
      rintro e ⟨⟩
      exact he
    · rw [habove] at hadded hkind
      rw [hrun]
      exact ⟨hadded, hkind⟩
    · rw [habove] at hadded hframe
      rw [hrun]
      refine ⟨hadded.trans (directoriesAdded_place (hframe.trans hfree)), ?_⟩
      rintro e ⟨⟩

theorem directoriesAdded_makeDirectory (fs : FileSystem) (text : String) (withParents : Bool) :
    DirectoriesAdded fs (makeDirectory text withParents fs).2 := by
  cases withParents with
  | true =>
    simp only [makeDirectory, if_true]
    rw [bind_apply, ask_apply]
    cases fs.follow (.ofString text) true with
    | error e => exact .refl fs
    | ok p => exact (directoriesAdded_ensureNames fs _).1
  | false =>
    rw [makeDirectory_eq]
    rcases makeAt_cases fs (Path.ofString text).render text .directory with
      hsame | ⟨p, -, hfree, hnext⟩
    · rw [hsame]
      exact .refl fs
    · rw [hnext]
      exact directoriesAdded_place (nodeAt?_eq_none_iff.2 hfree)

/-- The path that is followed to make a directory. -/
def directoryWay (text : String) (withParents : Bool) : Path :=
  if withParents then .ofString text else (Path.ofString text).parent

/-- **A directory that was made does not matter** for the way to another one. -/
theorem tangled_makeDirectory_iff (text : String) (withParents : Bool) :
    (makeDirectory text withParents fs).2.Tangled path ↔ fs.Tangled path := by
  rw [Tangled, Tangled, (directoriesAdded_makeDirectory fs text withParents).follow_eq]

theorem follow_cases (fs : FileSystem) (path : Path) :
    (∃ place, fs.follow path true = .ok place ∧ ¬ fs.Tangled path) ∨
      ∃ e, fs.follow path true = .error e ∧ (e.kind = .notDirectory ∧ ¬ fs.Tangled path ∨
        e.kind = .tooManyLinks ∧ fs.Tangled path) := by
  rw [Tangled]
  cases hfollow : fs.follow path true with
  | ok place => exact .inl ⟨place, rfl, by simp⟩
  | error e =>
    rcases kind_of_followNames hfollow with hkind | hkind
    · exact .inr ⟨e, rfl, .inl ⟨hkind, by simp [hkind]⟩⟩
    · exact .inr ⟨e, rfl, .inr ⟨hkind, e, rfl, hkind⟩⟩

/-- Where an entry would be made, or why there is no such place. -/
theorem placeFor_cases (fs : FileSystem) (text : String) :
    (∃ directory, fs.follow (Path.ofString text).parent true = .ok directory ∧
        fs.nodeAt? directory = some .directory ∧
        fs.placeFor text = .ok (removedAt directory text)) ∨
      ¬ fs.LeadsToDirectory (Path.ofString text).parent ∧ ∃ e, fs.placeFor text = .error e ∧
        ((e.kind = .notFound ∨ e.kind = .notDirectory) ∧ ¬ fs.Tangled (Path.ofString text).parent ∨
          e.kind = .tooManyLinks ∧ fs.Tangled (Path.ofString text).parent) := by
  rw [placeFor, LeadsToDirectory]
  rcases fs.follow_cases (Path.ofString text).parent with
    ⟨directory, hfollow, htangled⟩ | ⟨e, hfollow, hkind⟩ <;>
    simp only [hfollow, bind, Except.bind, nodeAt?]
  · rcases hentry : fs.entryAt? directory with - | ⟨node, mode, modified⟩
    · exact .inr ⟨by simp [hentry], _, rfl, .inl ⟨.inl rfl, htangled⟩⟩
    · cases node with
      | directory =>
        refine .inl ⟨directory, rfl, by simp [hentry], ?_⟩
        rw [removedAt]
        cases (Path.ofString text).name? <;> rfl
      | file | link => exact .inr ⟨by simp [hentry], _, rfl, .inl ⟨.inr rfl, htangled⟩⟩
  · exact .inr ⟨by simp, e, rfl, hkind.imp (.imp_left .inr) id⟩

/-- **Why a directory is not made.** Too many links on the way are one reason; otherwise something
stands there already, or there is no directory to hold it. -/
theorem exists_makeDirectory_error_iff {withParents : Bool} :
    (∃ e, (makeDirectory text withParents fs).1 = .error e ∧ e.kind ≠ .alreadyExists ∧
      e.kind ≠ .notFound ∧ e.kind ≠ .notDirectory) ↔
      fs.Tangled (directoryWay text withParents) := by
  cases withParents with
  | true =>
    simp only [makeDirectory, directoryWay, if_true]
    rw [bind_apply, ask_apply]
    rcases fs.follow_cases (.ofString text) with
      ⟨place, hfollow, htangled⟩ | ⟨e, hfollow, ⟨hkind, htangled⟩ | ⟨hkind, htangled⟩⟩ <;>
      rw [hfollow]
    · refine iff_of_false ?_ htangled
      rintro ⟨e, he, hexists, -⟩
      exact hexists ((directoriesAdded_ensureNames fs _).2 e he)
    · exact iff_of_false (by simp [hkind]) htangled
    · exact iff_of_true ⟨e, rfl, by simp [hkind]⟩ htangled
  | false =>
    have hnormal : (Path.ofString text).IsNormal := Path.isNormal_ofString text
    rw [makeDirectory_eq, makeAt, bind_apply, ask_apply, directoryWay]
    rcases fs.placeFor_cases (Path.ofString text).render with
      ⟨directory, hfollow, -, hplace⟩ | ⟨-, e, hplace, hkind⟩ <;>
      rw [Path.ofString_render hnormal] at * <;> rw [hplace]
    · refine iff_of_false ?_ (by simp [Tangled, hfollow])
      dsimp only
      rw [bind_apply, get_apply]
      dsimp only
      split
      · rintro ⟨e, ⟨⟩, hexists, -⟩
        exact hexists rfl
      · rintro ⟨e, ⟨⟩, -⟩
    · rcases hkind with ⟨hkind | hkind, htangled⟩ | ⟨hkind, htangled⟩
      · exact iff_of_false (by simp [hkind]) htangled
      · exact iff_of_false (by simp [hkind]) htangled
      · exact iff_of_true ⟨e, rfl, by simp [hkind]⟩ htangled

/-! ## New files -/

/-- **A way that `touch` gets caught on**: over too many links there is no place for a file, or a
directory stands at it although the path leads to none. -/
def Snagged (fs : FileSystem) (text : String) : Prop :=
  ¬ fs.isDirectory text ∧ ((∃ e, fs.landing text = .error e ∧ e.kind = .tooManyLinks) ∨
    ∃ p, fs.landing text = .ok p ∧ fs.nodeAt? p = some .directory)

/-- **Snags in the parts of a way**: at the directory, or at what the name in it leads to. -/
theorem snagged_iff : fs.Snagged text ↔ ¬ fs.LeadsToDirectory (.ofString text) ∧
    (fs.Tangled (Path.ofString text).parent ∨
      ∃ directory, fs.follow (Path.ofString text).parent true = .ok directory ∧
        fs.nodeAt? directory = some .directory ∧
        (fs.Tangled (removedAt directory text) ∨ fs.LeadsToDirectory (removedAt directory text))) := by
  rw [Snagged, isDirectory_eq_true_iff]
  refine and_congr_right fun _ => ?_
  rw [landing]
  rcases fs.placeFor_cases text with
    ⟨directory, hfollow, hdirectory, hplace⟩ | ⟨hleads, e, hplace, hkind⟩
  · have htangled : ¬ fs.Tangled (Path.ofString text).parent := by simp [Tangled, hfollow]
    simp [hplace, hfollow, hdirectory, Tangled, LeadsToDirectory, bind, Except.bind]
  · have hnone : ¬ ∃ directory, fs.follow (Path.ofString text).parent true = .ok directory ∧
        fs.nodeAt? directory = some .directory ∧ (fs.Tangled (removedAt directory text) ∨
          fs.LeadsToDirectory (removedAt directory text)) := by
      rintro ⟨directory, hfollow, hdirectory, -⟩
      exact hleads ⟨directory, hfollow, hdirectory⟩
    rw [or_iff_left hnone]
    rcases hkind with ⟨hkind | hkind, htangled⟩ | ⟨hkind, htangled⟩ <;>
      simp [hplace, hkind, htangled, bind, Except.bind]

/-- Where a file can be written at all, or why not. -/
theorem exists_write_error_iff : (∃ e, (write text content fs).1 = .error e ∧
    e.kind ≠ .notFound ∧ e.kind ≠ .notDirectory) ↔
      (∃ e, fs.landing text = .error e ∧ e.kind = .tooManyLinks) ∨
        ∃ p, fs.landing text = .ok p ∧ fs.nodeAt? p = some .directory := by
  rw [write_apply]
  cases hlanding : fs.landing text with
  | error e =>
    have hkind : e.kind = .notFound ∨ e.kind = .notDirectory ∨ e.kind = .tooManyLinks := by
      rw [landing] at hlanding
      rcases fs.placeFor_cases text with ⟨directory, -, -, hplace⟩ | ⟨-, e', hplace, hkind⟩ <;>
        simp only [hplace, bind, Except.bind] at hlanding
      · exact .inr (kind_of_followNames hlanding)
      · cases hlanding
        rcases hkind with ⟨hkind | hkind, -⟩ | ⟨hkind, -⟩ <;> simp [hkind]
    rcases hkind with hkind | hkind | hkind <;> simp [hkind]
  | ok p =>
    rcases hentry : fs.entryAt? p with - | ⟨node, mode, modified⟩
    · simp [hentry, nodeAt?]
    · cases node <;> simp [hentry, nodeAt?]

/-! ## Writing files -/

section Inserting

variable {e : Entry} {clock : Clock}

/-- Below what is no directory there are neither directories nor links, so a walk from there ends at
a place below, or at a file on the way. -/
theorem Anchored.walk_below (h : fs.Anchored) (hroot : p ≠ .root)
    (hfree : fs.nodeAt? p ≠ some .directory) (hplace : p.parts <+: place.parts) :
    fs.walk true place names = .blocked ∨
      fs.walk true place names = .arrived ⟨place.parts ++ names⟩ := by
  induction names generalizing place with
  | nil => exact .inr (by simp [walk])
  | cons name rest ih =>
    have hfile {node : Node} (hnode : fs.nodeAt? (place.child name) = some node) :
        ∃ content, node = .file content := by
      by_contra hfile
      push Not at hfile
      exact hfree (h.directory_of_prefix hnode hfile hplace hroot)
    rw [walk_cons]
    rcases hnode : fs.nodeAt? (place.child name) with - | node
    · have hchild : p.parts <+: (place.child name).parts := hplace.trans (List.prefix_append _ _)
      simpa [Path.child] using ih hchild
    · obtain ⟨content, rfl⟩ := hfile hnode
      cases rest with
      | nil => exact .inr rfl
      | cons => exact .inl rfl

/-- **A walk over a new file** is blocked; any other walk is the same. Without the file that walk was
blocked, too, or it came to a place below the file. -/
theorem Anchored.walk_insert (h : fs.Anchored) (hroot : p ≠ .root)
    (hfree : fs.nodeAt? p ≠ some .directory) (hlink : ∀ target, fs.nodeAt? p ≠ some (.link target))
    (he : e.node = .file content) (place : Path) (names : List String) :
    walk ⟨fs.entries.insert p e, clock⟩ true place names = fs.walk true place names ∨
      walk ⟨fs.entries.insert p e, clock⟩ true place names = .blocked ∧
        (fs.walk true place names = .blocked ∨
          ∃ q, fs.walk true place names = .arrived q ∧ q.isBelow p) := by
  induction names generalizing place with
  | nil => exact .inl rfl
  | cons name rest ih =>
    rw [walk_cons, walk_cons, nodeAt?_insert]
    by_cases hp : p = place.child name
    · rw [if_pos hp, he, ← hp]
      rcases hnode : fs.nodeAt? p with - | node
      · cases rest with
        | nil => exact .inl rfl
        | cons next rest =>
          refine .inr ⟨rfl, ?_⟩
          have hbelow : (⟨p.parts ++ next :: rest⟩ : Path) ≠ p := fun heq => by
            simpa using congrArg (fun q : Path => q.parts.length) heq
          rcases h.walk_below hroot hfree (List.prefix_refl _) with hwalk | hwalk
          · exact .inl hwalk
          · exact .inr ⟨_, hwalk, by simp [Path.isBelow, hbelow]⟩
      · cases node with
        | file => exact .inl rfl
        | directory => exact absurd hnode hfree
        | link target => exact absurd hnode (hlink target)
    · rw [if_neg hp]
      rcases fs.nodeAt? (place.child name) with - | node
      · exact ih _
      · cases node with
        | file => exact .inl rfl
        | directory => exact ih _
        | link => exact .inl rfl

/-- **Following links over a new file.** -/
theorem Anchored.follow_insert (h : fs.Anchored) (clock : Clock) (hroot : p ≠ .root)
    (hfree : fs.nodeAt? p ≠ some .directory) (hlink : ∀ target, fs.nodeAt? p ≠ some (.link target))
    (he : e.node = .file content) (path : Path) :
    follow ⟨fs.entries.insert p e, clock⟩ path true = fs.follow path true ∨
      (∃ failure, follow ⟨fs.entries.insert p e, clock⟩ path true = .error failure ∧
        failure.kind = .notDirectory) ∧
      ((∃ failure, fs.follow path true = .error failure ∧ failure.kind = .notDirectory) ∨
        ∃ q, fs.follow path true = .ok q ∧ q.isBelow p) := by
  rw [follow, follow]
  generalize maxLinks = bound
  generalize path.parts = names
  induction bound generalizing names with
  | zero =>
    rw [followNames, followNames]
    rcases h.walk_insert hroot hfree hlink he .root names with
      hsame | ⟨hblocked, hwalk | ⟨q, hwalk, hq⟩⟩
    · exact .inl (by rw [hsame])
    · exact .inl (by rw [hblocked, hwalk])
    · rw [hblocked, hwalk]
      exact .inr ⟨⟨_, rfl, rfl⟩, .inr ⟨q, rfl, hq⟩⟩
  | succ bound ih =>
    rw [followNames, followNames]
    rcases h.walk_insert hroot hfree hlink he .root names with
      hsame | ⟨hblocked, hwalk | ⟨q, hwalk, hq⟩⟩
    · rw [hsame]
      cases fs.walk true .root names with
      | arrived => exact .inl rfl
      | blocked => exact .inl rfl
      | link directory target rest => exact ih _
    · exact .inl (by rw [hblocked, hwalk])
    · rw [hblocked, hwalk]
      exact .inr ⟨⟨_, rfl, rfl⟩, .inr ⟨q, rfl, hq⟩⟩

/-- No directory stands below what is no directory. -/
theorem Anchored.not_directory_of_isBelow (h : fs.Anchored) (hroot : p ≠ .root)
    (hfree : fs.nodeAt? p ≠ some .directory) {q : Path} (hq : q.isBelow p = true) :
    fs.nodeAt? q ≠ some .directory := by
  intro hdirectory
  have hne : q ≠ .root := by
    rintro rfl
    simp [Path.isBelow, Path.root] at hq
    exact hroot (congrArg Path.mk hq.1)
  obtain ⟨name, -, hchild⟩ := Path.exists_eq_child hne
  rw [hchild] at hq hdirectory
  exact hfree (h.directory_of_prefix hdirectory (by simp) (Path.isBelow_child_iff.1 hq) hroot)

/-- **A new file tangles no way** and frees none. -/
theorem Anchored.tangled_insert_iff (h : fs.Anchored) (hroot : p ≠ .root)
    (hfree : fs.nodeAt? p ≠ some .directory) (hlink : ∀ target, fs.nodeAt? p ≠ some (.link target))
    (he : e.node = .file content) :
    Tangled ⟨fs.entries.insert p e, clock⟩ path ↔ fs.Tangled path := by
  rw [Tangled, Tangled]
  rcases h.follow_insert clock hroot hfree hlink he path with
    hsame | ⟨⟨failure, hnew, hkind⟩, ⟨failure', hold, hkind'⟩ | ⟨q, hold, -⟩⟩
  · rw [hsame]
  · exact iff_of_false (by simp [hnew, hkind]) (by simp [hold, hkind'])
  · exact iff_of_false (by simp [hnew, hkind]) (by simp [hold])

/-- **Paths that lead to a directory** lead there over a new file, and no others do. -/
theorem Anchored.follow_directory_insert_iff (h : fs.Anchored) (hroot : p ≠ .root)
    (hfree : fs.nodeAt? p ≠ some .directory) (hlink : ∀ target, fs.nodeAt? p ≠ some (.link target))
    (he : e.node = .file content) :
    follow ⟨fs.entries.insert p e, clock⟩ path true = .ok place ∧
        nodeAt? ⟨fs.entries.insert p e, clock⟩ place = some .directory ↔
      fs.follow path true = .ok place ∧ fs.nodeAt? place = some .directory := by
  have hnode : nodeAt? ⟨fs.entries.insert p e, clock⟩ place = some .directory ↔
      fs.nodeAt? place = some .directory := by
    rw [nodeAt?_insert]
    split
    · next heq =>
      subst heq
      exact iff_of_false (by simp [he]) hfree
    · rfl
  rw [hnode]
  refine and_congr_left fun hdirectory => ?_
  rcases h.follow_insert clock hroot hfree hlink he path with
    hsame | ⟨⟨failure, hnew, -⟩, ⟨failure', hold, -⟩ | ⟨q, hold, hq⟩⟩
  · rw [hsame]
  · exact iff_of_false (by simp [hnew]) (by simp [hold])
  · refine iff_of_false (by simp [hnew]) ?_
    rw [hold]
    rintro ⟨⟩
    exact h.not_directory_of_isBelow hroot hfree hq hdirectory

end Inserting

/-- **What operations on trees leave of them**: directories and links stand in directories, and the
root is one. -/
structure Grounded (fs : FileSystem) : Prop where
  anchored : fs.Anchored
  root : fs.nodeAt? .root = some .directory

theorem IsTree.grounded (h : fs.IsTree) : fs.Grounded := ⟨h.anchored, h.root⟩

/-- **A file that was written does not matter** for whether another one can be. -/
theorem Grounded.write (h : fs.Grounded) (written content : String) :
    (write written content fs).2.Grounded ∧
      ∀ text, (write written content fs).2.Snagged text ↔ fs.Snagged text := by
  rcases write_cases fs written content with ⟨-, hsame⟩ | ⟨p, e, clock, hlanding, hfree, he, hnext⟩
  · rw [hsame]
    exact ⟨h, fun _ => .rfl⟩
  · have hroot : p ≠ .root := by
      rintro rfl
      exact hfree h.root
    have hlink := Change.not_link_of_landing hlanding hroot
    rw [hnext]
    refine ⟨⟨h.anchored.insert (.inl ⟨_, he⟩) fun hp => absurd hp hfree, ?_⟩, fun text => ?_⟩
    · rw [nodeAt?_insert, if_neg hroot]
      exact h.root
    · simp only [snagged_iff, LeadsToDirectory, ← and_assoc,
        h.anchored.tangled_insert_iff hroot hfree hlink he,
        h.anchored.follow_directory_insert_iff hroot hfree hlink he]

/-- **What leads somewhere is not snagged**: the way to its directory is no longer than the whole
way, and the name in it leads where the whole way does. -/
theorem Grounded.not_snagged_of_has (h : fs.Grounded) (hhas : fs.has text = true) :
    ¬ fs.Snagged text := by
  obtain ⟨place, hfollow, -⟩ := has_eq_true_iff.1 hhas
  rw [snagged_iff]
  rintro ⟨hdirectory, hsnag⟩
  have hroot : Path.ofString text ≠ .root := by
    intro hroot
    rw [hroot] at hdirectory
    exact hdirectory ⟨.root, rfl, h.root⟩
  obtain ⟨name, hname, hchild⟩ := Path.exists_eq_child hroot
  rw [hchild] at hfollow
  rcases hsnag with ⟨e, he, -⟩ | ⟨directory, hparent, -, hsnag⟩
  · obtain ⟨before, hbefore⟩ : ∃ before, fs.follow (Path.ofString text).parent true = .ok before :=
      exists_followNames_prefix hfollow
    rw [hbefore] at he
    cases he
  · have hentry : fs.follow (removedAt directory text) true = .ok place := by
      rw [removedAt, hname]
      exact follow_child hparent hfollow
    rcases hsnag with ⟨e, he, -⟩ | ⟨found, hfound, hnode⟩
    · rw [hentry] at he
      cases he
    · rw [hentry] at hfound
      cases hfound
      exact hdirectory ⟨place, by rw [hchild]; exact hfollow, hnode⟩

end VirtualShell.FileSystem
