import Mathlib.Data.List.Induction
import VirtualShell.FileSystem.Basic
import VirtualShell.Proofs.FileSystem.Path

/-!
# The tree of files

The table of files is a tree when its root is a directory and every other entry stands in one. Then
whatever is in it can be found from the root by listing directories.

* `FileSystem.HasNormalPaths` — the paths in the table of files are normal.
* `FileSystem.IsTree` — the table of files is a tree.
* `FileSystem.IsTree.insert`, `FileSystem.IsTree.keep` — what may be put into a tree and taken out
  of it.
* `FileSystem.isNormal_of_follow` — links lead from normal paths to normal paths.
* **`FileSystem.IsTree.listed`** — everything in a tree is listed.
-/

namespace VirtualShell.FileSystem

variable {fs : FileSystem} {p q : Path}

/-! ## Nodes -/

/-- What stands at a path, without its permission bits and its time. -/
def nodeAt? (fs : FileSystem) (p : Path) : Option Node := (fs.entryAt? p).map (·.node)

theorem nodeAt?_eq_some_iff {node : Node} : fs.nodeAt? p = some node ↔
    ∃ mode modified, fs.entryAt? p = some ⟨node, mode, modified⟩ := by
  simp only [nodeAt?, Option.map_eq_some_iff]
  constructor
  · rintro ⟨e, he, rfl⟩
    exact ⟨e.mode, e.modified, he⟩
  · rintro ⟨mode, modified, he⟩
    exact ⟨_, he, rfl⟩

theorem nodeAt?_eq_none_iff : fs.nodeAt? p = none ↔ fs.entryAt? p = none := by
  simp [nodeAt?]

theorem mem_keys_iff_nodeAt? : p ∈ fs.entries.keys ↔ fs.nodeAt? p ≠ none := by
  rw [Table.mem_keys_iff, nodeAt?, entryAt?, Option.isSome_iff_ne_none, ne_eq, ne_eq,
    Option.map_eq_none_iff]

theorem nodeAt?_insert (e : Entry) (clock : Clock) :
    nodeAt? ⟨fs.entries.insert p e, clock⟩ q = if p = q then some e.node else fs.nodeAt? q := by
  rw [nodeAt?, entryAt?, Table.get?_insert]
  split
  · rfl
  · rfl

theorem nodeAt?_keep (test : Path → Bool) (clock : Clock) :
    nodeAt? ⟨fs.entries.keep test, clock⟩ q = if test q then fs.nodeAt? q else none := by
  rw [nodeAt?, entryAt?, Table.get?_keep]
  split
  · rfl
  · rfl

theorem mem_keys_of_keep {test : Path → Bool} (hq : q ∈ (fs.entries.keep test).keys) :
    q ∈ fs.entries.keys ∧ test q = true := by
  rw [Table.mem_keys_iff, Table.get?_keep] at hq
  split at hq
  · next htest => exact ⟨(Table.mem_keys_iff _ _).2 hq, htest⟩
  · cases hq

/-! ## Normal paths -/

/-- **The paths in the table are normal**, whether it is a tree or not. -/
def HasNormalPaths (fs : FileSystem) : Prop := ∀ p ∈ fs.entries.keys, p.IsNormal

namespace HasNormalPaths

theorem insert (h : fs.HasNormalPaths) (e : Entry) (clock : Clock) (hp : p.IsNormal) :
    HasNormalPaths ⟨fs.entries.insert p e, clock⟩ := by
  intro q hq
  rcases Table.mem_keys_put.1 hq with rfl | hq
  · exact hp
  · exact h q hq

theorem keep (h : fs.HasNormalPaths) (test : Path → Bool) (clock : Clock) :
    HasNormalPaths ⟨fs.entries.keep test, clock⟩ :=
  fun q hq => h q (mem_keys_of_keep hq).1

end HasNormalPaths

/-! ## Trees -/

/-- **The table of files is a tree**: the paths in it are normal, its root is a directory, and what
holds any other path in it is a directory. -/
structure IsTree (fs : FileSystem) : Prop where
  normal : ∀ p ∈ fs.entries.keys, p.IsNormal
  root : fs.nodeAt? .root = some .directory
  parent : ∀ p ∈ fs.entries.keys, p ≠ .root → fs.nodeAt? p.parent = some .directory

/-- The root directory alone is a tree. -/
theorem isTree_ofClock (clock : Clock) : (ofClock clock).IsTree := by
  have hkeys : (ofClock clock).entries.keys = [.root] := rfl
  refine ⟨?_, rfl, ?_⟩
  · simp [hkeys, Path.isNormal_root]
  · simp [hkeys]

namespace IsTree

/-- **What may be put into a tree**: an entry in a directory that is there, which takes the place of
a directory only if it is one itself. -/
theorem insert (h : fs.IsTree) (e : Entry) (clock : Clock) (hp : p.IsNormal)
    (hparent : p ≠ .root → fs.nodeAt? p.parent = some .directory)
    (hnode : fs.nodeAt? p = some .directory → e.node = .directory) :
    IsTree ⟨fs.entries.insert p e, clock⟩ := by
  have hstays (q : Path) (hq : fs.nodeAt? q = some .directory) :
      nodeAt? ⟨fs.entries.insert p e, clock⟩ q = some .directory := by
    rw [nodeAt?_insert]
    split
    · next heq => rw [hnode (heq ▸ hq)]
    · exact hq
  refine ⟨HasNormalPaths.insert h.normal e clock hp, hstays _ h.root, fun q hq hroot => ?_⟩
  rcases Table.mem_keys_put.1 hq with rfl | hq
  · exact hstays _ (hparent hroot)
  · exact hstays _ (h.parent q hq hroot)

/-- **What may be taken out of a tree**: not the root, and of a directory only together with all
that stands in it. -/
theorem keep (h : fs.IsTree) (test : Path → Bool) (clock : Clock) (hroot : test .root = true)
    (hparent : ∀ q ∈ fs.entries.keys, q ≠ .root → test q = true → test q.parent = true) :
    IsTree ⟨fs.entries.keep test, clock⟩ := by
  refine ⟨HasNormalPaths.keep h.normal test clock, ?_, ?_⟩
  · rw [nodeAt?_keep, if_pos hroot]
    exact h.root
  · intro q hq hne
    obtain ⟨hmem, htest⟩ := mem_keys_of_keep hq
    rw [nodeAt?_keep, if_pos (hparent q hmem hne htest)]
    exact h.parent q hmem hne

/-- On the way to a directory there are only directories. -/
theorem directory_of_append (h : fs.IsTree) {above below : List String}
    (hdir : fs.nodeAt? ⟨above ++ below⟩ = some .directory) :
    fs.nodeAt? ⟨above⟩ = some .directory := by
  induction below using List.reverseRecOn with
  | nil => simpa using hdir
  | append_singleton below name ih =>
    refine ih ?_
    have hmem : (⟨above ++ (below ++ [name])⟩ : Path) ∈ fs.entries.keys := by
      rw [mem_keys_iff_nodeAt?, hdir]
      simp
    have hparent := h.parent _ hmem (by simp [Path.root])
    simpa [Path.parent, ← List.append_assoc] using hparent

/-- What lies below anything in a tree lies below a directory. -/
theorem directory_of_isBelow (h : fs.IsTree) (hq : q ∈ fs.entries.keys)
    (hbelow : q.isBelow p = true) : fs.nodeAt? p = some .directory := by
  have hroot : q ≠ .root := by
    rintro rfl
    simp [Path.not_root_isBelow] at hbelow
  obtain ⟨below, hparts⟩ := Path.prefix_parent_of_isBelow hbelow
  have hdir : fs.nodeAt? ⟨p.parts ++ below⟩ = some .directory := by
    rw [hparts]
    exact h.parent q hq hroot
  exact h.directory_of_append hdir

end IsTree

/-! ## Following links -/

/-- A way that ends at a normal path, or at a link in a directory with a normal path. -/
def Way.IsNormal : Way → Prop
  | .arrived place => place.IsNormal
  | .link directory _ rest => directory.IsNormal ∧ ∀ name ∈ rest, Path.IsName name
  | .blocked => True

theorem isNormal_walk {last : Bool} {place : Path} {names : List String}
    (hplace : place.IsNormal) (hnames : ∀ name ∈ names, Path.IsName name) :
    (fs.walk last place names).IsNormal := by
  induction names generalizing place with
  | nil => exact hplace
  | cons name rest ih =>
    have hrest : ∀ name ∈ rest, Path.IsName name := fun n hn => hnames n (by simp [hn])
    have hnext : (place.child name).IsNormal := hplace.child (hnames name (by simp))
    rw [walk]
    split
    · split
      · exact ⟨hplace, hrest⟩
      · exact ih hnext hrest
    · split
      · exact hnext
      · trivial
    · exact ih hnext hrest

theorem isNormal_of_followNames {last : Bool} {path : Path} {links : Nat} {names : List String}
    (hnames : ∀ name ∈ names, Path.IsName name)
    (h : fs.followNames last path links names = .ok p) : p.IsNormal := by
  induction links generalizing names with
  | zero =>
    have hwalk : (fs.walk last .root names).IsNormal := isNormal_walk Path.isNormal_root hnames
    rw [followNames] at h
    split at h
    · next harrived =>
      rw [harrived] at hwalk
      cases h
      exact hwalk
    · cases h
    · cases h
  | succ links ih =>
    have hwalk : (fs.walk last .root names).IsNormal := isNormal_walk Path.isNormal_root hnames
    rw [followNames] at h
    split at h
    · next harrived =>
      rw [harrived] at hwalk
      cases h
      exact hwalk
    · cases h
    · next directory target rest hlink =>
      rw [hlink] at hwalk
      refine ih (fun name hname => ?_) h
      rcases List.mem_append.1 hname with hname | hname
      · exact Path.isNormal_resolve hwalk.1 target name hname
      · exact hwalk.2 name hname

/-- **Links lead to normal paths**, wherever their targets are. -/
theorem isNormal_of_follow {path : Path} {last : Bool} (hpath : path.IsNormal)
    (h : fs.follow path last = .ok p) : p.IsNormal :=
  isNormal_of_followNames hpath h

/-! ## Listing -/

/-- **The names in a place** are those of the paths one name longer. -/
theorem mem_namesIn_iff {place : Path} {keys : List Path} {name : String} :
    name ∈ keys.filterMap (fun q => if q.parent = place then q.name? else none) ↔
      place.child name ∈ keys := by
  rw [List.mem_filterMap]
  constructor
  · rintro ⟨q, hq, hname⟩
    split at hname
    · next hparent =>
      have hroot : q ≠ .root := fun hroot => by simp [hroot, Path.name?, Path.root] at hname
      obtain ⟨other, hother, hchild⟩ := Path.exists_eq_child hroot
      rw [hname] at hother
      rw [← hparent, Option.some.inj hother, ← hchild]
      exact hq
    · cases hname
  · intro hmem
    exact ⟨place.child name, hmem, by simp [Path.name?, Path.child, Path.parent]⟩

namespace IsTree

theorem walk_directory (h : fs.IsTree) (last : Bool) {place : Path} {names : List String}
    (hdir : fs.nodeAt? ⟨place.parts ++ names⟩ = some .directory) :
    fs.walk last place names = .arrived ⟨place.parts ++ names⟩ := by
  induction names generalizing place with
  | nil => simp [walk]
  | cons name rest ih =>
    have hrest : fs.nodeAt? ⟨(place.child name).parts ++ rest⟩ = some .directory := by
      simpa [Path.child] using hdir
    obtain ⟨mode, modified, hnext⟩ := nodeAt?_eq_some_iff.1 (h.directory_of_append hrest)
    rw [walk, show fs.entryAt? (place.child name) = _ from hnext]
    simpa [Path.child] using ih hrest

/-- **A directory of a tree is where its path leads.** -/
theorem follow_directory (h : fs.IsTree) (last : Bool) (hdir : fs.nodeAt? p = some .directory) :
    fs.follow p last = .ok p := by
  have hwalk : fs.walk last .root p.parts = .arrived p := h.walk_directory last hdir
  rw [follow, maxLinks, followNames, hwalk]

/-- **A directory of a tree lists what stands in it.** -/
theorem list_directory (h : fs.IsTree) (hdir : fs.nodeAt? p = some .directory) :
    ∃ names, fs.list p.render = .ok names ∧ ∀ name, name ∈ names ↔ p.child name ∈ fs.entries.keys := by
  obtain ⟨mode, modified, he⟩ := nodeAt?_eq_some_iff.1 hdir
  have hnormal : p.IsNormal := h.normal p (by simp [mem_keys_iff_nodeAt?, hdir])
  have hlookup : fs.lookup p.render true = .ok (p, ⟨.directory, mode, modified⟩) := by
    rw [lookup, Path.ofString_render hnormal, h.follow_directory true hdir]
    simp only [bind, Except.bind, he]
    rfl
  exact ⟨_, by rw [list, hlookup]; rfl, fun name => List.mem_mergeSort.trans mem_namesIn_iff⟩

end IsTree

/-- **What is found by listing**: the root, and what is listed in a directory that was found. -/
inductive Listed (fs : FileSystem) : Path → Prop
  | root : Listed fs .root
  | child {p : Path} {names : List String} {name : String} :
      Listed fs p → fs.list p.render = .ok names → name ∈ names → Listed fs (p.child name)

/-- **Everything in a tree is listed.** -/
theorem IsTree.listed (h : fs.IsTree) (hp : p ∈ fs.entries.keys) : fs.Listed p := by
  induction hn : p.parts.length generalizing p with
  | zero =>
    have hroot : p = .root := congrArg Path.mk (List.eq_nil_of_length_eq_zero hn)
    exact hroot ▸ .root
  | succ n ih =>
    have hroot : p ≠ .root := by
      rintro rfl
      simp [Path.root] at hn
    obtain ⟨name, -, hchild⟩ := Path.exists_eq_child hroot
    have hdir := h.parent p hp hroot
    obtain ⟨names, hlist, hmem⟩ := h.list_directory hdir
    have hparent : fs.Listed p.parent := by
      refine ih ?_ ?_
      · simp [mem_keys_iff_nodeAt?, hdir]
      · simp [Path.parent, hn]
    rw [hchild]
    exact .child hparent hlist ((hmem name).2 (hchild ▸ hp))

end VirtualShell.FileSystem
