import VirtualShell.Proofs.FileSystem.History
import VirtualShell.Proofs.FileSystem.Resolution

/-!
# What questions about files come to

A path leads to a place, where an entry may stand, or it leads nowhere: a file stands on the way, or
too many links do. In a tree of files this decides for what reason a file cannot be read. A path with
a name after it is resolved like the place it leads to with that name after it, so what is known of a
directory is known of the names in it.

* `FileSystem.Lost` — a path leads nowhere.
* `FileSystem.followNames_append` — the way to a directory and on from there.
* `FileSystem.exists_statLink`, `FileSystem.exists_statLink_child` — what can be seen without
  resolving the last link.
* **`FileSystem.IsTree.read_cases`** — what reading comes to.
-/

namespace VirtualShell.FileSystem

variable {fs : FileSystem} {last : Bool} {path path' place directory : Path} {bound : Nat}
  {names tail : List String} {text name : String}

/-! ## Walks that go on -/

theorem walk_append_of_link {target : String} {rest : List String} (htail : tail ≠ [])
    (h : fs.walk true place names = .link directory target rest) :
    fs.walk last place (names ++ tail) = .link directory target (rest ++ tail) := by
  induction names generalizing place with
  | nil => cases h
  | cons name names ih =>
    rw [walk_cons, nodeAt?] at h
    rw [List.cons_append, walk]
    rcases hentry : fs.entryAt? (place.child name) with - | ⟨node, mode, modified⟩ <;>
      rw [hentry] at h
    · exact ih h
    · cases node with
      | file content =>
        dsimp only [Option.map] at h
        split at h <;> cases h
      | directory => exact ih h
      | link target =>
        cases h
        simp [htail]

theorem walk_append_of_blocked (h : fs.walk true place names = .blocked) :
    fs.walk last place (names ++ tail) = .blocked := by
  induction names generalizing place with
  | nil => cases h
  | cons name names ih =>
    rw [walk_cons, nodeAt?] at h
    rw [List.cons_append, walk]
    rcases hentry : fs.entryAt? (place.child name) with - | ⟨node, mode, modified⟩ <;>
      rw [hentry] at h
    · exact ih h
    · cases node with
      | file content =>
        cases names with
        | nil => cases h
        | cons => rfl
      | directory => exact ih h
      | link target => cases h

/-- **From a directory** a walk goes on. -/
theorem walk_append_of_arrived (h : fs.walk true place names = .arrived directory)
    (hdirectory : fs.nodeAt? directory = some .directory) :
    fs.walk last place (names ++ tail) = fs.walk last directory tail := by
  induction names generalizing place with
  | nil =>
    cases h
    rfl
  | cons name names ih =>
    rw [walk_cons] at h
    rw [List.cons_append, walk]
    rcases hentry : fs.entryAt? (place.child name) with - | ⟨node, mode, modified⟩ <;>
      rw [nodeAt?, hentry] at h
    · exact ih h
    · cases node with
      | file content =>
        dsimp only [Option.map] at h
        split at h
        · cases h
          simp [nodeAt?, hentry] at hdirectory
        · cases h
      | directory => exact ih h
      | link target => cases h

theorem parts_of_walk_arrived (h : fs.walk last place names = .arrived directory) :
    directory.parts = place.parts ++ names := by
  induction names generalizing place with
  | nil =>
    cases h
    simp
  | cons name names ih =>
    have hrest (h : fs.walk last (place.child name) names = .arrived directory) :
        directory.parts = place.parts ++ name :: names := by
      simpa [Path.child] using ih h
    rw [walk] at h
    split at h
    · split at h
      · cases h
      · exact hrest h
    · split at h
      · next hnil =>
        cases h
        simp [Path.child, List.isEmpty_iff.1 hnil]
      · cases h
    · exact hrest h

/-- **A walk that does not resolve the last link** ends there, or is the same. -/
theorem walk_false_cases (fs : FileSystem) (place : Path) (names : List String) :
    fs.walk false place names = fs.walk true place names ∨
      ∃ directory target name, fs.walk true place names = .link directory target [] ∧
        fs.walk false place names = .arrived (directory.child name) ∧
        fs.nodeAt? (directory.child name) = some (.link target) := by
  induction names generalizing place with
  | nil => exact .inl rfl
  | cons name names ih =>
    rw [walk_cons, walk]
    rcases hentry : fs.entryAt? (place.child name) with - | ⟨node, mode, modified⟩ <;>
      rw [nodeAt?, hentry]
    · exact ih _
    · cases node with
      | file content => exact .inl rfl
      | directory => exact ih _
      | link target =>
        cases names with
        | nil => exact .inr ⟨place, target, name, rfl, rfl, by simp [nodeAt?, hentry]⟩
        | cons => exact .inl rfl

/-! ## Ways that go on -/

/-- The path that a failure names and a greater bound do not matter on a way that ends. -/
theorem followNames_mono {bound' : Nat} (hbound : bound ≤ bound')
    (h : fs.followNames last path bound names = .ok place) :
    fs.followNames last path' bound' names = .ok place := by
  induction bound generalizing bound' names with
  | zero =>
    rw [followNames] at h ⊢
    split at h
    · exact h
    · cases h
    · cases h
  | succ bound ih =>
    rw [followNames] at h ⊢
    split at h
    · exact h
    · cases h
    · cases bound' with
      | zero => cases hbound
      | succ bound' => exact ih (Nat.le_of_succ_le_succ hbound) h

/-- **The way to a place and on from there**: the names after it are followed from the place, with
what is left of the bound. -/
theorem followNames_append (htail : tail ≠ [])
    (h : fs.followNames true path bound names = .ok directory) :
    ∃ left ≤ bound, fs.followNames last path' bound (names ++ tail) =
      fs.followNames last path' left (directory.parts ++ tail) := by
  have harrived (bound : Nat) (names : List String)
      (h : fs.walk true .root names = .arrived directory) :
      fs.followNames last path' bound (names ++ tail) =
        fs.followNames last path' bound (directory.parts ++ tail) := by
    rw [parts_of_walk_arrived h]
    rfl
  induction bound generalizing names with
  | zero =>
    rw [followNames] at h
    split at h
    · next hwalk =>
      cases h
      exact ⟨0, Nat.le_refl _, harrived 0 names hwalk⟩
    · cases h
    · cases h
  | succ bound ih =>
    rw [followNames] at h
    split at h
    · next hwalk =>
      cases h
      exact ⟨_, Nat.le_refl _, harrived _ names hwalk⟩
    · cases h
    · next hwalk =>
      obtain ⟨left, hleft, hrest⟩ := ih h
      refine ⟨left, Nat.le_succ_of_le hleft, ?_⟩
      rw [← hrest, followNames, walk_append_of_link htail hwalk]
      simp

/-- A way that ends has passed every name on it. -/
theorem exists_followNames_prefix
    (h : fs.followNames true path bound (names ++ tail) = .ok place) :
    ∃ before, fs.followNames true path' bound names = .ok before := by
  by_cases htail : tail = []
  · subst htail
    rw [List.append_nil] at h
    exact ⟨place, followNames_mono (Nat.le_refl _) h⟩
  induction bound generalizing names with
  | zero =>
    rw [followNames]
    cases hwalk : fs.walk true .root names with
    | arrived before => exact ⟨before, rfl⟩
    | blocked =>
      rw [followNames, walk_append_of_blocked hwalk] at h
      cases h
    | link =>
      rw [followNames, walk_append_of_link htail hwalk] at h
      cases h
  | succ bound ih =>
    rw [followNames]
    cases hwalk : fs.walk true .root names with
    | arrived before => exact ⟨before, rfl⟩
    | blocked =>
      rw [followNames, walk_append_of_blocked hwalk] at h
      cases h
    | link =>
      rw [followNames, walk_append_of_link htail hwalk] at h
      dsimp only at h ⊢
      rw [← List.append_assoc] at h
      exact ih h

/-- **A directory is resolved once**: a name in it leads where the path of the directory leads with
the name after it. -/
theorem follow_child (hpath : fs.follow path true = .ok directory)
    (h : fs.follow (path.child name) true = .ok place) :
    fs.follow (directory.child name) true = .ok place := by
  obtain ⟨left, hleft, hrest⟩ := @followNames_append fs true path (path.child name) directory
    maxLinks path.parts [name] (by simp) hpath
  rw [follow, show (path.child name).parts = path.parts ++ [name] from rfl, hrest] at h
  exact followNames_mono hleft h

/-! ## What stands at the end of a way -/

theorem has_eq_true_iff : fs.has text = true ↔
    ∃ place, fs.follow (.ofString text) true = .ok place ∧ fs.nodeAt? place ≠ none := by
  constructor
  · intro h
    obtain ⟨⟨place, e⟩, hlookup⟩ := Option.isSome_iff_exists.1 h
    cases hfound : fs.lookup text true with
    | error => simp [hfound, Except.toOption] at hlookup
    | ok found =>
      obtain ⟨hfollow, he⟩ := lookup_eq_ok_iff.1 hfound
      exact ⟨_, hfollow, by simp [nodeAt?, he]⟩
  · rintro ⟨place, hfollow, hnode⟩
    obtain ⟨node, hnode⟩ := Option.ne_none_iff_exists'.1 hnode
    obtain ⟨mode, modified, he⟩ := nodeAt?_eq_some_iff.1 hnode
    rw [has, lookup_eq_ok_iff.2 ⟨hfollow, he⟩]
    rfl

theorem isDirectory_eq_true_iff : fs.isDirectory text = true ↔
    ∃ place, fs.follow (.ofString text) true = .ok place ∧
      fs.nodeAt? place = some .directory := by
  rw [isDirectory, find?]
  constructor
  · intro h
    cases hfound : fs.lookup text true with
    | error => simp [hfound, Except.toOption] at h
    | ok found =>
      obtain ⟨place, node, mode, modified⟩ := found
      obtain ⟨hfollow, he⟩ := lookup_eq_ok_iff.1 hfound
      refine ⟨place, hfollow, nodeAt?_eq_some_iff.2 ⟨mode, modified, ?_⟩⟩
      cases node <;> simp [hfound, Except.toOption] at h
      exact he
  · rintro ⟨place, hfollow, hnode⟩
    obtain ⟨mode, modified, he⟩ := nodeAt?_eq_some_iff.1 hnode
    rw [lookup_eq_ok_iff.2 ⟨hfollow, he⟩]
    rfl

/-- **A path leads nowhere**: a file stands on the way, or too many links do. -/
def Lost (fs : FileSystem) (text : String) : Prop :=
  ∃ e, fs.follow (.ofString text) true = .error e

/-- Following links fails for two reasons only. -/
theorem kind_of_followNames {e : FileError} (h : fs.followNames last path bound names = .error e) :
    e.kind = .notDirectory ∨ e.kind = .tooManyLinks := by
  induction bound generalizing names with
  | zero =>
    rw [followNames] at h
    split at h <;> cases h
    · exact .inl rfl
    · exact .inr rfl
  | succ bound ih =>
    rw [followNames] at h
    split at h
    · cases h
    · cases h
      exact .inl rfl
    · exact ih h

/-- No link stands where a path leads, if the root is none. -/
theorem not_link_of_follow (hroot : fs.nodeAt? .root = some .directory)
    (h : fs.follow path true = .ok place) (target : String) :
    fs.nodeAt? place ≠ some (.link target) := by
  by_cases hplace : place = .root
  · rw [hplace, hroot]
    simp
  · obtain ⟨links, hleads⟩ := exists_leads h
    exact hleads.not_link hplace target

/-- **What reading comes to.** A path that leads nowhere is the reason for one of two failures; at
the end of a way a file can be read, and otherwise it is missing or a directory. -/
theorem read_cases (hroot : fs.nodeAt? .root = some .directory) (text : String) :
    (fs.Lost text ∧ ∃ e, fs.read text = .error e ∧
      (e.kind = .notDirectory ∨ e.kind = .tooManyLinks)) ∨
    ¬ fs.Lost text ∧ ((∃ content, fs.read text = .ok content) ∨
      fs.read text = .error ⟨.notFound, text⟩ ∨ fs.read text = .error ⟨.isDirectory, text⟩) := by
  rw [read, lookup]
  cases hfollow : fs.follow (.ofString text) true with
  | error e => exact .inl ⟨⟨e, hfollow⟩, e, rfl, kind_of_followNames hfollow⟩
  | ok place =>
    have hlost : ¬ fs.Lost text := by simp [Lost, hfollow]
    refine .inr ⟨hlost, ?_⟩
    have hlink := not_link_of_follow hroot hfollow
    simp only [bind, Except.bind]
    rcases hentry : fs.entryAt? place with - | ⟨node, mode, modified⟩
    · exact .inr (.inl rfl)
    · cases node with
      | file content => exact .inl ⟨content, rfl⟩
      | directory => exact .inr (.inr rfl)
      | link target => exact absurd (by simp [nodeAt?, hentry]) (hlink target)

theorem has_of_isDirectory (h : fs.isDirectory text = true) : fs.has text = true := by
  obtain ⟨place, hfollow, hnode⟩ := isDirectory_eq_true_iff.1 h
  exact has_eq_true_iff.2 ⟨place, hfollow, by simp [hnode]⟩

/-- What is there and no directory can be read. -/
theorem exists_read (hroot : fs.nodeAt? .root = some .directory) (hhas : fs.has text = true)
    (hdirectory : fs.isDirectory text ≠ true) : ∃ content, fs.read text = .ok content := by
  obtain ⟨place, hfollow, hnode⟩ := has_eq_true_iff.1 hhas
  obtain ⟨node, hnode⟩ := Option.ne_none_iff_exists'.1 hnode
  obtain ⟨mode, modified, he⟩ := nodeAt?_eq_some_iff.1 hnode
  rw [read, lookup_eq_ok_iff.2 ⟨hfollow, he⟩]
  cases node with
  | file content => exact ⟨content, rfl⟩
  | directory => exact absurd (isDirectory_eq_true_iff.2 ⟨place, hfollow, hnode⟩) hdirectory
  | link target => exact absurd hnode (not_link_of_follow hroot hfollow target)

/-- What is not there cannot be read. -/
theorem exists_read_error (hhas : fs.has text ≠ true) : ∃ e, fs.read text = .error e := by
  cases hlookup : fs.lookup text true with
  | error e =>
    rw [read, hlookup]
    exact ⟨e, rfl⟩
  | ok found => simp [has, hlookup, Except.toOption] at hhas

/-! ## Entries themselves -/

/-- **What leads somewhere is something itself**: the entry at its end, or a link there. -/
theorem exists_statLink (h : fs.has text = true) : ∃ e, fs.statLink text = .ok e := by
  suffices ∃ place e, fs.follow (.ofString text) false = .ok place ∧ fs.entryAt? place = some e by
    obtain ⟨place, e, hfollow, he⟩ := this
    exact ⟨e, by rw [statLink, lookup_eq_ok_iff.2 ⟨hfollow, he⟩]; rfl⟩
  obtain ⟨place, hfollow, hnode⟩ := has_eq_true_iff.1 h
  rw [follow] at hfollow ⊢
  generalize maxLinks = bound at hfollow ⊢
  generalize (Path.ofString text).parts = names at hfollow ⊢
  induction bound generalizing names with
  | zero =>
    rw [followNames] at hfollow ⊢
    rcases fs.walk_false_cases .root names with hsame | ⟨directory, target, name, hlink, hend, hnode⟩
    · rw [hsame]
      split at hfollow
      · cases hfollow
        obtain ⟨node, hnode⟩ := Option.ne_none_iff_exists'.1 hnode
        obtain ⟨mode, modified, he⟩ := nodeAt?_eq_some_iff.1 hnode
        exact ⟨place, _, rfl, he⟩
      · cases hfollow
      · cases hfollow
    · obtain ⟨mode, modified, he⟩ := nodeAt?_eq_some_iff.1 hnode
      exact ⟨_, _, by rw [hend], he⟩
  | succ bound ih =>
    rw [followNames] at hfollow ⊢
    rcases fs.walk_false_cases .root names with hsame | ⟨directory, target, name, hlink, hend, hnode⟩
    · rw [hsame]
      split at hfollow
      · cases hfollow
        obtain ⟨node, hnode⟩ := Option.ne_none_iff_exists'.1 hnode
        obtain ⟨mode, modified, he⟩ := nodeAt?_eq_some_iff.1 hnode
        exact ⟨place, _, rfl, he⟩
      · cases hfollow
      · exact ih _ hfollow
    · obtain ⟨mode, modified, he⟩ := nodeAt?_eq_some_iff.1 hnode
      exact ⟨_, _, by rw [hend], he⟩

/-- **A directory can be listed**: the names in it are those of the paths one name longer. -/
theorem exists_list (hfollow : fs.follow (.ofString text) true = .ok directory)
    (hdirectory : fs.nodeAt? directory = some .directory) :
    ∃ names, fs.list text = .ok names ∧
      ∀ name, name ∈ names ↔ directory.child name ∈ fs.entries.keys := by
  obtain ⟨mode, modified, he⟩ := nodeAt?_eq_some_iff.1 hdirectory
  exact ⟨_, by rw [list, lookup_eq_ok_iff.2 ⟨hfollow, he⟩]; rfl,
    fun name => List.mem_mergeSort.trans mem_namesIn_iff⟩

/-- **A name in a directory** is something itself, wherever the path of the directory goes over
links. -/
theorem exists_statLink_child (hpath : path.IsNormal) (hname : Path.IsName name)
    (hfollow : fs.follow path true = .ok directory)
    (hdirectory : fs.nodeAt? directory = some .directory)
    (hchild : directory.child name ∈ fs.entries.keys) :
    ∃ e, fs.statLink (path.child name).render = .ok e := by
  obtain ⟨left, -, hrest⟩ := @followNames_append fs false path (path.child name) directory
    maxLinks path.parts [name] (by simp) hfollow
  have harrived : fs.walk true .root directory.parts = .arrived directory := by
    obtain ⟨links, hleads⟩ := exists_leads hfollow
    exact walk_parts hleads.open_parent fun hroot => hleads.not_link hroot
  have hwalk : fs.walk false .root (directory.parts ++ [name]) = .arrived (directory.child name) := by
    rw [walk_append_of_arrived harrived hdirectory, walk]
    split <;> rfl
  have hchildFollow : fs.follow (path.child name) false = .ok (directory.child name) := by
    rw [follow, show (path.child name).parts = path.parts ++ [name] from rfl, hrest]
    cases left <;> rw [followNames, hwalk]
  obtain ⟨e, he⟩ := Option.isSome_iff_exists.1 ((Table.mem_keys_iff _ _).1 hchild)
  refine ⟨e, ?_⟩
  rw [statLink, lookup_eq_ok_iff.2 ⟨?_, he⟩]
  · rfl
  · rw [Path.ofString_render (hpath.child hname)]
    exact hchildFollow

end VirtualShell.FileSystem
