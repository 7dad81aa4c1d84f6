import Mathlib
import VirtualShell.Proofs.FileSystem.Edit

/-!
# Creating does not disturb

In a tree a path that leads somewhere keeps leading there when files are written, directories and
links made and permission bits set, whatever path the operation is given and wherever links take it.
All that is passed on the way to an entry of a tree is there, so a new entry cannot stand in it; and
what is there stays what it is. The content of a file changes only if the operation writes this file,
and permission bits only if it sets those of this entry.

* `FileSystem.Keeps` — what an operation keeps of an entry.
* `FileSystem.Keeps.edit`, `FileSystem.keeps_apply` — one edit and a whole operation keep it.
* `FileSystem.IsTree.leads_later` — ways to entries of a tree stay.
* **`FileSystem.IsTree.stat_apply`** — what an operation leaves of a path that led somewhere.
-/

namespace VirtualShell

/-- The kinds of what stands at a path. -/
inductive Node.Kind where
  | file
  | directory
  | link
  deriving DecidableEq, Repr

/-- The kind of what stands at a path. -/
def Node.kind : Node → Node.Kind
  | .file _ => .file
  | .directory => .directory
  | .link _ => .link

/-- The same node, or two files. -/
def Node.Alike (m n : Node) : Prop := m = n ∨ m.kind = .file ∧ n.kind = .file

namespace Node.Alike

variable {m n k : Node}

theorem refl (m : Node) : m.Alike m := .inl rfl

theorem trans (h : m.Alike n) (h' : n.Alike k) : m.Alike k := by
  rcases h with rfl | ⟨hm, hn⟩
  · exact h'
  · rcases h' with rfl | ⟨-, hk⟩
    · exact .inr ⟨hm, hn⟩
    · exact .inr ⟨hm, hk⟩

theorem kind_eq (h : m.Alike n) : m.kind = n.kind := by
  rcases h with rfl | ⟨hm, hn⟩
  · rfl
  · rw [hm, hn]

/-- What is like a node that is no file is the same. -/
theorem eq_of_ne_file (h : m.Alike n) (hn : n.kind ≠ .file) : m = n :=
  h.resolve_right fun hfile => hn hfile.2

end Node.Alike

namespace FileSystem

variable {fs : FileSystem} {p : Path}

/-! ## What is kept of entries -/

/-- **What an operation keeps of an entry** that it found: what kind of thing it is, the target of a
link, the content unless it writes the file, and the permission bits unless it sets them. -/
structure Keeps (c : Change) (found : FileSystem) (p : Path) (e e' : Entry) : Prop where
  alike : e'.node.Alike e.node
  node : ¬ c.WritesAt found p → e'.node = e.node
  mode : ¬ c.SetsModeAt found p → e'.mode = e.mode

theorem Keeps.refl (c : Change) (found : FileSystem) (p : Path) (e : Entry) :
    Keeps c found p e e := ⟨.refl _, fun _ => rfl, fun _ => rfl⟩

theorem Keeps.trans {c : Change} {found : FileSystem} {e e' e'' : Entry}
    (h : Keeps c found p e e') (h' : Keeps c found p e' e'') : Keeps c found p e e'' where
  alike := h'.alike.trans h.alike
  node hwrites := (h'.node hwrites).trans (h.node hwrites)
  mode hsets := (h'.mode hsets).trans (h.mode hsets)

/-- **One edit** of an operation that removes nothing keeps each entry. -/
theorem Keeps.edit {c : Change} {found next : FileSystem} (hc : ¬ c.Removes)
    (hedit : c.Edit found fs next) (hroot : fs.nodeAt? .root = some .directory) {e : Entry}
    (he : fs.entryAt? p = some e) : ∃ e', next.entryAt? p = some e' ∧ Keeps c found p e e' := by
  have hnode : fs.nodeAt? p = some e.node := by simp [nodeAt?, he]
  have hother {q : Path} (hq : q ≠ p) (e' : Entry) (clock : Clock) :
      ∃ e'', entryAt? ⟨fs.entries.insert q e', clock⟩ p = some e'' ∧ Keeps c found p e e'' :=
    ⟨e, by rw [entryAt?, Table.get?_insert, if_neg hq]; exact he, .refl c found p e⟩
  cases hedit with
  | @write q e' content clock hat hdir hlink hfile hmode =>
    by_cases hq : q = p
    · subst hq
      have hne : q ≠ .root := fun heq => hdir (heq ▸ hroot)
      obtain ⟨node, mode, modified⟩ := e
      cases node with
      | directory => exact absurd hnode hdir
      | link target => exact absurd hnode (hlink hne target)
      | file old =>
        refine ⟨e', Table.get?_insert_self _ _ _, ⟨.inr ⟨?_, rfl⟩, fun hwrites => ?_, fun _ => ?_⟩⟩
        · rw [hfile, Node.kind]
        · exact absurd hat hwrites
        · exact hmode old mode modified he
    · exact hother hq e' clock
  | @make q node hfree =>
    refine hother (fun hq => ?_) _ _
    rw [hq, hnode] at hfree
    cases hfree
  | @setMode q e' mode hat he' =>
    by_cases hq : q = p
    · subst hq
      obtain rfl : e' = e := Option.some.inj (he'.symm.trans he)
      exact ⟨_, Table.get?_insert_self _ _ _, .refl _, fun _ => rfl, fun hsets => absurd hat hsets⟩
    · exact hother hq _ _
  | dropBelow hremoves => exact absurd hremoves hc
  | dropOne hremoves => exact absurd hremoves hc

/-- **An operation** that removes nothing keeps each entry of a tree. -/
theorem keeps_apply (h : fs.IsTree) {c : Change} (hc : ¬ c.Removes) {e : Entry}
    (he : fs.entryAt? p = some e) :
    ∃ e', (c.apply fs).entryAt? p = some e' ∧ Keeps c fs p e e' := by
  have hedits := c.edits_apply fs
  generalize c.apply fs = later at hedits
  induction hedits generalizing p e with
  | refl => exact ⟨e, he, .refl c fs p e⟩
  | tail _ hedit ih =>
    obtain ⟨mode, modified, hroot⟩ := nodeAt?_eq_some_iff.1 h.root
    obtain ⟨eroot, heroot, hkeeps⟩ := ih hroot
    have hdir : eroot.node = .directory := hkeeps.alike.eq_of_ne_file (by simp [Node.kind])
    obtain ⟨e', he', hkept⟩ := ih he
    obtain ⟨e'', he'', hkept'⟩ := Keeps.edit hc hedit (by simp [nodeAt?, heroot, hdir]) he'
    exact ⟨e'', he'', hkept.trans hkept'⟩

/-! ## Ways stay -/

section Ways

variable {later : FileSystem}

/-- Whatever the files hold is there later, up to the content of files. -/
def Extends (fs later : FileSystem) : Prop :=
  ∀ p node, fs.nodeAt? p = some node → ∃ node', later.nodeAt? p = some node' ∧ node'.Alike node

theorem extends_apply (h : fs.IsTree) {c : Change} (hc : ¬ c.Removes) :
    fs.Extends (c.apply fs) := by
  intro p node hnode
  obtain ⟨mode, modified, he⟩ := nodeAt?_eq_some_iff.1 hnode
  obtain ⟨e', he', hkeeps⟩ := keeps_apply h hc he
  exact ⟨e'.node, by simp [nodeAt?, he'], hkeeps.alike⟩

/-- What is no file is the same later. -/
theorem Extends.nodeAt? (h : fs.Extends later) {node : Node} (hnode : fs.nodeAt? p = some node)
    (hfile : node.kind ≠ .file) : later.nodeAt? p = some node := by
  obtain ⟨node', hnode', halike⟩ := h p node hnode
  rw [hnode', halike.eq_of_ne_file hfile]

/-- The way to what stands in a tree is open later, up to the directory it stands in. -/
theorem IsTree.open_parent_later (h : fs.IsTree) (hlater : fs.Extends later)
    (hp : fs.nodeAt? p ≠ none) : later.Open p.parent := by
  have hdir : fs.nodeAt? p.parent = some .directory := by
    by_cases hroot : p = .root
    · rw [hroot]
      exact h.root
    · exact h.parent p (mem_keys_iff_nodeAt?.2 hp) hroot
  rintro q ⟨below, hbelow⟩ -
  have hq : fs.nodeAt? ⟨q.parts ++ below⟩ = some .directory := by rwa [hbelow]
  exact .inr (hlater.nodeAt? (h.directory_of_append hq) (by simp [Node.kind]))

/-- **Ways to entries of a tree stay**, with the links on them. -/
theorem IsTree.leads_later (h : fs.IsTree) (hlater : fs.Extends later) {names : List String}
    {links : List Path} {place : Path} (hleads : fs.Leads names links place)
    (hplace : fs.nodeAt? place ≠ none) : later.Leads names links place := by
  induction hleads with
  | @arrived place _ hlink =>
    refine .arrived (h.open_parent_later hlater hplace) fun hroot target htarget => ?_
    obtain ⟨node, hnode⟩ := Option.ne_none_iff_exists'.1 hplace
    obtain ⟨node', hnode', halike⟩ := hlater place node hnode
    obtain rfl : node' = .link target := Option.some.inj (hnode'.symm.trans htarget)
    rcases halike with heq | hfile
    · exact hlink hroot target (hnode.trans (congrArg some heq.symm))
    · simp [Node.kind] at hfile
  | @link directory place name target rest links _ hlink _ ih =>
    have hopen : later.Open (directory.child name).parent :=
      h.open_parent_later hlater (by simp [hlink])
    rw [Path.parent_child] at hopen
    exact .link hopen (hlater.nodeAt? hlink (by simp [Node.kind])) (ih hplace)

end Ways

/-! ## What a path leads to -/

/-- **What an operation leaves of a path that led somewhere.** In a tree of files, an operation that
removes nothing leaves the path leading to the same place, with an entry of the same kind. The same
is read there unless the operation writes this file, and the permission bits are the same unless it
sets those of this entry. -/
theorem IsTree.stat_apply (h : fs.IsTree) {c : Change} (hc : ¬ c.Removes) {text : String}
    {e : Entry} (hstat : fs.stat text = .ok e) :
    ∃ place e', fs.realPath text = .ok place ∧ (c.apply fs).realPath text = .ok place ∧
      (c.apply fs).stat text = .ok e' ∧ e'.node.kind = e.node.kind ∧
      (¬ c.WritesAt fs place → (c.apply fs).read text = fs.read text) ∧
      (¬ c.SetsModeAt fs place → e'.mode = e.mode) := by
  cases hlookup : fs.lookup text true with
  | error failure =>
    rw [stat, hlookup] at hstat
    cases hstat
  | ok found =>
    obtain ⟨place, e₀⟩ := found
    obtain rfl : e₀ = e := by
      rw [stat, hlookup] at hstat
      cases hstat
      rfl
    obtain ⟨hfollow, he⟩ := lookup_eq_ok_iff.1 hlookup
    obtain ⟨e', he', hkeeps⟩ := keeps_apply h hc he
    -- the way to the place is the same, and it is not longer than before
    have hfollow' : (c.apply fs).follow (.ofString text) true = .ok place := by
      obtain ⟨links, hleads⟩ := exists_leads hfollow
      have hleads' := h.leads_later (extends_apply h hc) hleads (by simp [nodeAt?, he])
      rw [follow, hleads.followNames] at hfollow
      rw [follow, hleads'.followNames]
      exact hfollow
    have hlookup' := lookup_eq_ok_iff.2 ⟨hfollow', he'⟩
    refine ⟨place, e', ?_, ?_, ?_, hkeeps.alike.kind_eq, fun hwrites => ?_, hkeeps.mode⟩
    · rw [realPath, hlookup]
      rfl
    · rw [realPath, hlookup']
      rfl
    · rw [stat, hlookup']
      rfl
    · rw [read, read, hlookup, hlookup']
      simp only [bind, Except.bind, hkeeps.node hwrites]

/-- A directory with a file in it, and a link to it. -/
def shelf : FileSystem :=
  (Change.write "/d/f" "x").apply ((Change.makeLink "d" "/a").apply
    ((Change.makeDirectory "/d" false).apply (ofClock ⟨0, 0⟩)))

/-- Over the link a second file is written beside the first, which is still read over the link. -/
theorem IsTree.stat_apply_shelf :
    shelf.IsTree ∧ shelf.read "/a/f" = .ok "x" ∧
      ((Change.write "/a/g" "y").apply shelf).read "/a/f" = .ok "x" := by
  have htree : shelf.IsTree := by
    refine (isTree_along_iff (isTree_ofClock ⟨0, 0⟩)
      [.makeDirectory "/d" false, .makeLink "d" "/a", .write "/d/f" "x"]).2
      (of_decide_eq_true (by cbv)) shelf ?_
    simp [along, shelf]
  have hstat : shelf.stat "/a/f" = .ok ⟨.file "x", 0o644, 0⟩ := by cbv
  have hreal : shelf.realPath "/a/f" = .ok ⟨["d", "f"]⟩ := by cbv
  have hread : shelf.read "/a/f" = .ok "x" := by cbv
  have hlanding : shelf.landing "/a/g" = .ok ⟨["d", "g"]⟩ := by cbv
  have hremoves : ¬ (Change.write "/a/g" "y").Removes := id
  obtain ⟨place, e', hplace, -, -, -, hsame, -⟩ := htree.stat_apply hremoves hstat
  rw [hreal] at hplace
  cases hplace
  have hwrites : ¬ (Change.write "/a/g" "y").WritesAt shelf ⟨["d", "f"]⟩ := by
    simp [Change.WritesAt, hlanding]
  exact ⟨htree, hread, (hsame hwrites).trans hread⟩

end FileSystem

end VirtualShell
