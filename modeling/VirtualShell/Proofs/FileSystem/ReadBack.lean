import Mathlib
import VirtualShell.Proofs.FileSystem.Edit
import VirtualShell.Proofs.FileSystem.Question

/-!
# Reading what was written

A file that was written under a path can be read under the same path, with two exceptions. Writing
resolves the directory of the path first and the entry in it after that, each with the whole bound
on links, and reading resolves them together; so what is written over more links than the bound
cannot be read. And the file that was written may itself stand on the way to a link that the path
goes over. This needs a link that stands in no directory. No sequence of operations leads from a
tree to such a link, though it may leave files without a directory and lose the root.

A file that is extended is found both ways first, and what is added to it keeps it where it is
found. So texts that are appended to a file one after another are there in their order.

* `Path.Bars` — a file at a path would bar the way to a link.
* `FileSystem.Leads.insert`, `FileSystem.Leads.followNames_barred` — the way to a file after it was
  written, if it bars none of the links and if it does.
* `FileSystem.Anchored` — directories and links stand in directories.
* `FileSystem.Anchored.along` — operations keep them there.
* **`FileSystem.read_write`** — reading what was written, on all tables of files.
* `FileSystem.ExtendsAt`, `FileSystem.ExtendsAt.append_eq` — where a file can be extended, and what
  that comes to.
* **`FileSystem.IsTree.forM_append`** — texts that are appended to a file of a tree one after another.
-/

namespace VirtualShell

/-- **A file at a path would bar the way** to a link: the link lies below it, and it is not at the
root, which no walk looks at. -/
def Path.Bars (p link : Path) : Prop := p ≠ .root ∧ link.isBelow p = true

instance (p link : Path) : Decidable (p.Bars link) :=
  inferInstanceAs (Decidable (p ≠ .root ∧ link.isBelow p = true))

namespace FileSystem

variable {fs : FileSystem} {p q : Path}

/-! ## The way to a file that was written -/

section Inserting

variable {e : Entry} {content : String} {clock : Clock} {names : List String} {links : List Path}
  {place : Path}

theorem open_insert_iff (he : e.node = .file content) :
    Open ⟨fs.entries.insert p e, clock⟩ q ↔ fs.Open q ∧ ¬ (p ≠ .root ∧ p.parts <+: q.parts) := by
  constructor
  · intro h
    have hbars : ¬ (p ≠ .root ∧ p.parts <+: q.parts) := by
      rintro ⟨hroot, hp⟩
      have hnode := h p hp hroot
      rw [nodeAt?_insert, if_pos rfl, he] at hnode
      simp at hnode
    refine ⟨fun r hr hroot => ?_, hbars⟩
    have hne : p ≠ r := by
      rintro rfl
      exact hbars ⟨hroot, hr⟩
    have hnode := h r hr hroot
    rwa [nodeAt?_insert, if_neg hne] at hnode
  · rintro ⟨h, hbars⟩ r hr hroot
    have hne : p ≠ r := by
      rintro rfl
      exact hbars ⟨hroot, hr⟩
    rw [nodeAt?_insert, if_neg hne]
    exact h r hr hroot

/-- The way to the directory of a path is open after a file was put at the path. -/
theorem open_parent_insert (he : e.node = .file content) (h : fs.Open p.parent) :
    Open ⟨fs.entries.insert p e, clock⟩ p.parent := by
  refine (open_insert_iff he).2 ⟨h, ?_⟩
  rintro ⟨hroot, hp⟩
  exact Path.parent_ne_self hroot
    (congrArg Path.mk (List.dropLast_prefix p.parts |>.eq_of_length_le hp.length_le))

theorem nodeAt?_link_insert {link : Path} {target : String}
    (hlink : fs.nodeAt? link = some (.link target))
    (hplace : p ≠ .root → ∀ target, fs.nodeAt? p ≠ some (.link target)) (hroot : link ≠ .root) :
    nodeAt? ⟨fs.entries.insert p e, clock⟩ link = some (.link target) := by
  have hne : p ≠ link := by
    rintro rfl
    exact hplace hroot target hlink
  rw [nodeAt?_insert, if_neg hne]
  exact hlink

/-- **The way stays** when a file is put at its end, if that bars none of the links on it. -/
theorem Leads.insert (h : fs.Leads names links place) (he : e.node = .file content)
    (hbars : ∀ link ∈ links, ¬ place.Bars link) :
    Leads ⟨fs.entries.insert place e, clock⟩ names links place := by
  induction h with
  | @arrived place hopen hlink =>
    refine .arrived (open_parent_insert he hopen) fun _ target => ?_
    rw [nodeAt?_insert, if_pos rfl, he]
    simp
  | @link directory place name target rest links hopen hlink h ih =>
    have hdirectory : ¬ (place ≠ .root ∧ place.parts <+: directory.parts) := by
      rintro ⟨hroot, habove⟩
      exact hbars _ List.mem_cons_self ⟨hroot, Path.isBelow_child_iff.2 habove⟩
    exact .link ((open_insert_iff he).2 ⟨hopen, hdirectory⟩)
      (nodeAt?_link_insert hlink h.not_link (directory.child_ne_root name))
      (ih fun link hlink => hbars link (by simp [hlink]))

/-- **The way was there before** a file was put on it, since no way goes over a file. -/
theorem Leads.of_insert (he : e.node = .file content)
    (hnode : fs.nodeAt? p = none ∨ ∃ old, fs.nodeAt? p = some (.file old))
    (h : Leads ⟨fs.entries.insert p e, clock⟩ names links place) : fs.Leads names links place := by
  induction h with
  | @arrived place hopen hlink =>
    refine .arrived ((open_insert_iff he).1 hopen).1 fun hroot target htarget => ?_
    refine hlink hroot target ?_
    rw [nodeAt?_insert]
    split
    · next heq =>
      subst heq
      rcases hnode with hnode | ⟨old, hnode⟩ <;> rw [hnode] at htarget <;> cases htarget
    · exact htarget
  | @link directory place name target rest links hopen hlink h ih =>
    refine .link ((open_insert_iff he).1 hopen).1 ?_ ih
    rw [nodeAt?_insert] at hlink
    split at hlink
    · rw [he] at hlink
      cases hlink
    · exact hlink

/-- A walk over a file ends there. -/
theorem walk_insert_blocked {directory : Path} (hopen : fs.Open directory) (he : e.node = .file content)
    (hroot : p ≠ .root) (hp : p.parts <+: directory.parts) (name : String) (rest : List String) :
    walk ⟨fs.entries.insert p e, clock⟩ true .root (directory.parts ++ name :: rest) = .blocked := by
  obtain ⟨last, -, hchild⟩ := Path.exists_eq_child hroot
  obtain ⟨below, hbelow⟩ := hp
  have habove : fs.Open p.parent :=
    hopen.of_prefix ((List.dropLast_prefix _).trans ⟨below, hbelow⟩)
  have hparts : directory.parts ++ name :: rest =
      p.parent.parts ++ last :: (below ++ name :: rest) := by
    have hp : p.parts = p.parent.parts ++ [last] := congrArg Path.parts hchild
    rw [← hbelow, hp]
    simp
  have hfile : nodeAt? ⟨fs.entries.insert p e, clock⟩ (p.parent.child last) =
      some (.file content) := by
    rw [← hchild, nodeAt?_insert, if_pos rfl, he]
  rw [hparts, walk_of_file (open_parent_insert he habove) hfile]
  simp

/-- **The way is lost** when a file is put at its end that bars a link on it. -/
theorem Leads.followNames_barred (h : fs.Leads names links place) (he : e.node = .file content)
    (hbars : ∃ link ∈ links, place.Bars link) (path : Path) (bound : Nat) :
    ∃ failure, FileSystem.followNames ⟨fs.entries.insert place e, clock⟩ true path bound names =
      .error failure ∧ (failure.kind = .tooManyLinks ∨ failure.kind = .notDirectory) := by
  induction h generalizing bound with
  | arrived => simp at hbars
  | @link directory place name target rest links hopen hlink h ih =>
    rw [FileSystem.followNames]
    by_cases hfirst : place.Bars (directory.child name)
    · rw [walk_insert_blocked hopen he hfirst.1 (Path.isBelow_child_iff.1 hfirst.2)]
      exact ⟨_, rfl, .inr rfl⟩
    · have hdirectory : ¬ (place ≠ .root ∧ place.parts <+: directory.parts) := fun hd =>
        hfirst ⟨hd.1, Path.isBelow_child_iff.2 hd.2⟩
      rw [walk_of_link ((open_insert_iff he).2 ⟨hopen, hdirectory⟩)
        (nodeAt?_link_insert hlink h.not_link (directory.child_ne_root name))]
      cases bound with
      | zero => exact ⟨_, rfl, .inl rfl⟩
      | succ bound => exact ih (by simpa [hfirst] using hbars) bound

end Inserting

/-! ## Links stand in directories -/

/-- **Directories and links stand in directories**, or in the root. Files may stand anywhere. -/
def Anchored (fs : FileSystem) : Prop :=
  ∀ p node, fs.nodeAt? p = some node → (∀ content, node ≠ .file content) →
    p.parent = .root ∨ fs.nodeAt? p.parent = some .directory

theorem IsTree.anchored (h : fs.IsTree) : fs.Anchored := by
  intro p node hnode _
  by_cases hroot : p = .root
  · subst hroot
    exact .inl rfl
  · exact .inr (h.parent p (by simp [mem_keys_iff_nodeAt?, hnode]) hroot)

namespace Anchored

theorem directory_of_prefix (h : fs.Anchored) {directory : Path} {name : String} {node : Node}
    (hnode : fs.nodeAt? (directory.child name) = some node) (hfile : ∀ content, node ≠ .file content)
    (hp : p.parts <+: directory.parts) (hroot : p ≠ .root) : fs.nodeAt? p = some .directory := by
  obtain ⟨parts⟩ := directory
  induction parts using List.reverseRecOn generalizing name node with
  | nil => exact absurd (Path.eq_root_of_prefix_root hp) hroot
  | append_singleton parts last ih =>
    have hdir : fs.nodeAt? (Path.child ⟨parts⟩ last) = some .directory := by
      have hparent := h _ node hnode hfile
      rw [Path.parent_child] at hparent
      exact hparent.resolve_left (Path.child_ne_root ⟨parts⟩ last)
    rcases List.prefix_concat_iff.1 hp with heq | hp
    · have hp : p = Path.child ⟨parts⟩ last := congrArg Path.mk heq
      exact hp ▸ hdir
    · exact ih (by simp) hdir hp

/-- What may be put into the table: a file where no directory stands, what takes the place of the
same, and an entry in a directory. -/
theorem insert (h : fs.Anchored) {e : Entry} {clock : Clock}
    (hparent : (∃ content, e.node = .file content) ∨ p.parent = .root ∨
      fs.nodeAt? p.parent = some .directory)
    (hdir : fs.nodeAt? p = some .directory → e.node = .directory) :
    Anchored ⟨fs.entries.insert p e, clock⟩ := by
  have hstays (q : Path) (hq : fs.nodeAt? q = some .directory) :
      nodeAt? ⟨fs.entries.insert p e, clock⟩ q = some .directory := by
    rw [nodeAt?_insert]
    split
    · next heq => rw [hdir (heq ▸ hq)]
    · exact hq
  intro q node hnode hfile
  rw [nodeAt?_insert] at hnode
  split at hnode
  · next heq =>
    subst heq
    obtain rfl : e.node = node := Option.some.inj hnode
    rcases hparent with ⟨content, he⟩ | hparent
    · exact absurd he (hfile content)
    · exact hparent.imp_right (hstays _)
  · exact (h q node hnode hfile).imp_right (hstays _)

/-- What may be taken out: a directory only together with all that stands in it. -/
theorem drop (h : fs.Anchored) {gone : Path → Bool}
    (hgone : ∀ q, fs.nodeAt? q.parent = some .directory → gone q.parent = true → gone q = true) :
    (fs.drop gone).Anchored := by
  intro q node hnode hfile
  rw [FileSystem.drop, nodeAt?_keep] at hnode
  split at hnode
  · next hstays =>
    refine (h q node hnode hfile).imp_right fun hdir => ?_
    rw [FileSystem.drop, nodeAt?_keep]
    cases hparent : gone q.parent with
    | false => simpa [hparent] using hdir
    | true => simp [hgone q hdir hparent] at hstays
  · cases hnode

/-- **One edit** leaves directories and links in directories. -/
theorem edit (h : fs.Anchored) {c : Change} {found next : FileSystem}
    (hedit : c.Edit found fs next) :
    next.Anchored := by
  cases hedit with
  | write _ hdir _ hnode => exact h.insert (.inl ⟨_, hnode⟩) fun hp => absurd hp hdir
  | make hfree hparent => exact h.insert (.inr hparent) fun hp => by simp [hfree] at hp
  | @setMode p e mode _ he =>
    have hnode : fs.nodeAt? p = some e.node := by simp [nodeAt?, he]
    by_cases hfile : ∃ content, e.node = .file content
    · exact h.insert (.inl hfile) fun hp => by simpa [hnode] using hp
    · exact h.insert (.inr (h p e.node hnode fun content he => hfile ⟨content, he⟩)) fun hp => by
        simpa [hnode] using hp
  | dropBelow _ => exact h.drop fun q _ hparent => goesWith_of_parent hparent
  | dropOne _ hdir =>
    refine h.drop fun q hparent hgone => ?_
    rw [beq_iff_eq] at hgone
    exact absurd (hgone ▸ hparent) hdir

theorem edits (h : fs.Anchored) {c : Change} {next : FileSystem} (hedits : c.Edits fs next) :
    next.Anchored := by
  induction hedits with
  | refl => exact h
  | tail _ hedit ih => exact ih.edit hedit

/-- **A whole history** leaves directories and links in directories. -/
theorem along (h : fs.Anchored) (history : List Change) :
    ∀ later ∈ fs.along history, later.Anchored := by
  induction history generalizing fs with
  | nil => simpa [FileSystem.along] using h
  | cons c rest ih =>
    simp only [FileSystem.along, List.mem_cons, forall_eq_or_imp]
    exact ⟨h, ih (h.edits (c.edits_apply fs))⟩

end Anchored

/-! ## Reading -/

/-- The way to where a file lands goes over the links on the way to its directory, and then over
those at its end. -/
theorem leads_of_landing {text : String} (h : fs.landing text = .ok p) :
    ∃ links, fs.Leads (Path.ofString text).parts links p := by
  obtain ⟨q, hplace, hfollow⟩ := bind_eq_ok_iff.1 h
  obtain ⟨directory, hdirectory, -, rfl⟩ := exists_of_placeFor hplace
  obtain ⟨atDirectory, hleads⟩ := exists_leads hdirectory
  obtain ⟨atEnd, hleads'⟩ := exists_leads hfollow
  cases hname : (Path.ofString text).name? with
  | none =>
    rw [removedAt, hname] at hleads'
    rw [Path.name?_eq_none_iff.1 hname]
    exact ⟨_, hleads'⟩
  | some name =>
    rw [removedAt, hname] at hleads'
    have hparts : (Path.ofString text).parts = (Path.ofString text).parent.parts ++ [name] :=
      (List.dropLast_append_getLast? name hname).symm
    exact ⟨_, hparts ▸ hleads.child hleads'⟩

theorem read_of_follow {text content : String} {e : Entry}
    (h : fs.follow (.ofString text) true = .ok p) (hentry : fs.entryAt? p = some e)
    (he : e.node = .file content) : fs.read text = .ok content := by
  obtain ⟨node, mode, modified⟩ := e
  cases he
  rw [read, lookup_eq_ok_iff.2 ⟨h, hentry⟩]
  rfl

theorem read_of_follow_error {text : String} {failure : FileError}
    (h : fs.follow (.ofString text) true = .error failure) : fs.read text = .error failure := by
  rw [read, lookup, h]
  rfl

/-- **A file can be read over some links** after it was written at their end: there are no more of
them than reading resolves, and the file bars none. -/
def ReadsOver (links : List Path) (place : Path) : Prop :=
  links.length ≤ maxLinks ∧ ∀ link ∈ links, ¬ place.Bars link

/-- What writing does when it succeeds. -/
theorem exists_insert_of_write {text content : String} (h : (write text content fs).1 = .ok ()) :
    ∃ p e clock, fs.landing text = .ok p ∧ fs.nodeAt? p ≠ some .directory ∧
      e.node = .file content ∧ (write text content fs).2 = ⟨fs.entries.insert p e, clock⟩ := by
  refine (write_cases fs text content).resolve_left fun ⟨hdir, _⟩ => ?_
  rw [write_apply] at h
  cases hlanding : fs.landing text with
  | error e =>
    rw [hlanding] at h
    cases h
  | ok p =>
    obtain ⟨mode, modified, hentry⟩ := nodeAt?_eq_some_iff.1 (hdir p hlanding)
    simp [hlanding, hentry] at h

/-- **Reading what was written.** A file that was written can be read under the path at which it was
written if no more links lead to it than reading resolves and it bars none of them, and otherwise
reading fails. In files that any sequence of operations has made of a tree, only the number of links
counts. -/
theorem read_write {text content : String} (h : (write text content fs).1 = .ok ()) :
    ∃ links place, fs.landing text = .ok place ∧
      fs.Leads (Path.ofString text).parts links place ∧
      (ReadsOver links place → (write text content fs).2.read text = .ok content) ∧
      (¬ ReadsOver links place → ∃ failure, (write text content fs).2.read text = .error failure ∧
        (failure.kind = .tooManyLinks ∨ failure.kind = .notDirectory)) ∧
      ∀ (start : FileSystem) (history : List Change), start.IsTree → fs ∈ start.along history →
        (write text content fs).2.read text =
          if links.length ≤ maxLinks then .ok content
          else .error ⟨.tooManyLinks, (Path.ofString text).render⟩ := by
  obtain ⟨place, e, clock, hlanding, hdir, he, hnext⟩ := exists_insert_of_write h
  obtain ⟨links, hleads⟩ := leads_of_landing hlanding
  rw [hnext]
  have hentry : entryAt? ⟨fs.entries.insert place e, clock⟩ place = some e :=
    Table.get?_insert_self _ _ _
  -- as long as the file bars no link, the way is the same as before
  have hstays (hbars : ∀ link ∈ links, ¬ place.Bars link) :
      read ⟨fs.entries.insert place e, clock⟩ text =
        if links.length ≤ maxLinks then .ok content
        else .error ⟨.tooManyLinks, (Path.ofString text).render⟩ := by
    have hway : Leads ⟨fs.entries.insert place e, clock⟩ _ links place := hleads.insert he hbars
    have hfollow := hway.followNames (.ofString text) maxLinks
    split at hfollow
    · next hlength => rw [if_pos hlength, read_of_follow hfollow hentry he]
    · next hlength => rw [if_neg hlength, read_of_follow_error hfollow]
  refine ⟨links, place, hlanding, hleads, ?_, ?_, ?_⟩
  · rintro ⟨hlength, hbars⟩
    rw [hstays hbars, if_pos hlength]
  · intro hover
    by_cases hbars : ∀ link ∈ links, ¬ place.Bars link
    · have hlength : ¬ links.length ≤ maxLinks := fun hlength => hover ⟨hlength, hbars⟩
      rw [hstays hbars, if_neg hlength]
      exact ⟨_, rfl, .inl rfl⟩
    · push Not at hbars
      obtain ⟨failure, hfollow, hkind⟩ := hleads.followNames_barred he hbars (.ofString text) maxLinks
      exact ⟨failure, read_of_follow_error hfollow, hkind⟩
  · intro start history htree hfs
    have hanchored := htree.anchored.along history fs hfs
    refine hstays fun link hlink hbars => hdir ?_
    obtain ⟨directory, name, target, rfl, hnode⟩ := hleads.exists_of_mem hlink
    exact hanchored.directory_of_prefix hnode (by simp) (Path.isBelow_child_iff.1 hbars.2) hbars.1

/-- A directory with a link to it, and in it a link to a file outside it that is missing. -/
def linked : FileSystem :=
  (Change.makeLink "../f" "/d/l").apply
    ((Change.makeLink "d" "/a").apply ((Change.makeDirectory "/d" false).apply (ofClock ⟨0, 0⟩)))

/-- A file is written over both links and read over them. -/
theorem read_write_linked :
    (write "/a/l" "x" linked).1 = .ok () ∧ (write "/a/l" "x" linked).2.read "/a/l" = .ok "x" := by
  have hwrite : (write "/a/l" "x" linked).1 = .ok () := by cbv
  refine ⟨hwrite, ?_⟩
  obtain ⟨links, place, -, hleads, -, -, hread⟩ := read_write hwrite
  have hlength : links.length ≤ maxLinks := by
    have hfollow := hleads.followNames (.ofString "/a/l") maxLinks
    by_contra hlength
    rw [if_neg hlength] at hfollow
    have hok : linked.followNames true (.ofString "/a/l") maxLinks (Path.ofString "/a/l").parts =
        .ok ⟨["f"]⟩ := by cbv
    rw [hok] at hfollow
    cases hfollow
  have hmem : linked ∈ (ofClock ⟨0, 0⟩).along
      [.makeDirectory "/d" false, .makeLink "d" "/a", .makeLink "../f" "/d/l"] := by
    simp [along, linked]
  rw [hread _ _ (isTree_ofClock _) hmem, if_pos hlength]

/-- A link to the root, and one to a file that is missing. -/
def circled : FileSystem :=
  (Change.makeLink "/g" "/f").apply ((Change.makeLink "/" "/l").apply (ofClock ⟨0, 0⟩))

/-- The way that goes to the root forty times and then to the missing file. -/
def longWay : String := String.join (List.replicate 40 "/l") ++ "/f"

/-- A link to a place where nothing stands, in a directory below that place. The files are given
with a file over the directory there, which is then removed. -/
def buried : Except FileError FileSystem := do
  let fs ← seeded ⟨0, 0⟩ ["/a/b"] [("/a", .text "x")]
  return (Change.makeLink "/a" "/a/b/l").apply ((Change.remove "/a" false false).apply fs)

/-- What is written over more than forty links cannot be read, nor can a file that is written over
a link below it. -/
theorem read_write_exceptions :
    (write longWay "x" circled).1 = .ok () ∧
      (write longWay "x" circled).2.read longWay = .error ⟨.tooManyLinks, longWay⟩ ∧
      (buried.map fun fs =>
        ((write "/a/b/l" "x" fs).1, (write "/a/b/l" "x" fs).2.read "/a/b/l")) =
          .ok (.ok (), .error ⟨.notDirectory, "/a/b/l"⟩) := by
  decide +kernel

/-! ## Extending files -/

/-- What a file at a path holds; nothing where no file stands. -/
def contentAt (fs : FileSystem) (p : Path) : String :=
  match fs.entryAt? p with
  | some ⟨.file content, _, _⟩ => content
  | _ => ""

/-- The permission bits of the file at a path, or those of a new one. -/
def fileModeAt (fs : FileSystem) (p : Path) : Int :=
  match fs.entryAt? p with
  | some ⟨.file _, mode, _⟩ => mode
  | _ => (Node.file "").defaultMode

/-- The files with a text at the end of the file at a path. -/
def extendAt (fs : FileSystem) (p : Path) (content : String) : FileSystem where
  entries := fs.entries.insert p ⟨.file (fs.contentAt p ++ content), fs.fileModeAt p, fs.clock.now⟩
  clock := fs.clock.next

theorem entryAt?_extendAt (fs : FileSystem) (p : Path) (content : String) :
    (fs.extendAt p content).entryAt? p =
      some ⟨.file (fs.contentAt p ++ content), fs.fileModeAt p, fs.clock.now⟩ :=
  Table.get?_insert_self _ _ _

theorem contentAt_extendAt (fs : FileSystem) (p : Path) (content : String) :
    (fs.extendAt p content).contentAt p = fs.contentAt p ++ content := by
  rw [contentAt, entryAt?_extendAt]

theorem fileModeAt_extendAt (fs : FileSystem) (p : Path) (content : String) :
    (fs.extendAt p content).fileModeAt p = fs.fileModeAt p := by
  rw [fileModeAt, entryAt?_extendAt]

/-- **What is there, apart from when it was changed**: the paths in the order in which they came in,
with what stands there and the permission bits. -/
def undated (fs : FileSystem) : List (Path × Node × Int) :=
  fs.entries.entries.map fun e => (e.1, e.2.node, e.2.mode)

/-- **Two texts after each other**, or one text made of both. -/
theorem undated_extendAt_extendAt (fs : FileSystem) (p : Path) (first second : String) :
    ((fs.extendAt p first).extendAt p second).undated =
      (fs.extendAt p (first ++ second)).undated := by
  rw [extendAt, contentAt_extendAt, fileModeAt_extendAt, String.append_assoc]
  simp only [undated, extendAt, Table.insert_insert]
  exact Table.map_entries_insert _ p rfl

/-- **The place at which a path is extended**: the whole path leads there, what is written lands
there, and there is a file or nothing. -/
structure ExtendsAt (fs : FileSystem) (text : String) (p : Path) : Prop where
  follow : fs.follow (.ofString text) true = .ok p
  landing : fs.landing text = .ok p
  node : fs.nodeAt? p = none ∨ ∃ content, fs.nodeAt? p = some (.file content)

/-- **What reading comes to**, with where the path leads. -/
theorem read_eq (fs : FileSystem) (text : String) :
    fs.read text =
      match fs.follow (.ofString text) true with
      | .error e => .error e
      | .ok p =>
        match fs.nodeAt? p with
        | none => .error ⟨.notFound, text⟩
        | some (.file content) => .ok content
        | some .directory => .error ⟨.isDirectory, text⟩
        | some (.link _) => .error ⟨.invalid, text⟩ := by
  rw [read, lookup]
  cases fs.follow (.ofString text) true with
  | error e => rfl
  | ok p =>
    simp only [bind, Except.bind, nodeAt?]
    rcases fs.entryAt? p with - | ⟨node, mode, modified⟩
    · rfl
    · cases node <;> rfl

/-- What is written lands where the path leads. -/
theorem eq_of_follow_of_landing {text : String} {place : Path}
    (hfollow : fs.follow (.ofString text) true = .ok place) (hlanding : fs.landing text = .ok p) :
    place = p := by
  obtain ⟨links, hleads⟩ := exists_leads hfollow
  obtain ⟨links', hleads'⟩ := leads_of_landing hlanding
  have h := hleads.followNames (.ofString text) (links.length + links'.length)
  have h' := hleads'.followNames (.ofString text) (links.length + links'.length)
  rw [if_pos (Nat.le_add_right _ _)] at h
  rw [if_pos (Nat.le_add_left _ _), h] at h'
  exact Except.ok.inj h'

/-- **Where a file was extended.** -/
theorem exists_extendsAt {text content : String} (h : (append text content fs).1 = .ok ()) :
    ∃ p, fs.ExtendsAt text p := by
  have hwritten (whole : String) (hwrite : (write text whole fs).1 = .ok ()) :
      ∃ p, fs.landing text = .ok p := by
    obtain ⟨p, _, _, hlanding, -⟩ := exists_insert_of_write hwrite
    exact ⟨p, hlanding⟩
  rw [append, bind_apply, get_apply] at h
  dsimp only at h
  rw [read_eq] at h
  cases hfollow : fs.follow (.ofString text) true with
  | error e =>
    simp only [hfollow] at h
    obtain ⟨kind, path⟩ := e
    rcases kind_of_followNames hfollow with hkind | hkind <;> cases hkind <;> cases h
  | ok place =>
    cases hnode : fs.nodeAt? place with
    | none =>
      simp only [hfollow, hnode] at h
      obtain ⟨p, hlanding⟩ := hwritten content h
      obtain rfl := eq_of_follow_of_landing hfollow hlanding
      exact ⟨place, hfollow, hlanding, .inl hnode⟩
    | some node =>
      simp only [hfollow, hnode] at h
      cases node with
      | file old =>
        obtain ⟨p, hlanding⟩ := hwritten (old ++ content) h
        obtain rfl := eq_of_follow_of_landing hfollow hlanding
        exact ⟨place, hfollow, hlanding, .inr ⟨old, hnode⟩⟩
      | directory => cases h
      | link target => cases h

namespace ExtendsAt

variable {text : String}

/-- **Extending a file** never fails at such a place, whatever the text. -/
theorem append_eq (h : fs.ExtendsAt text p) (content : String) :
    append text content fs = (.ok (), fs.extendAt p content) := by
  rw [append, bind_apply, get_apply]
  dsimp only
  rw [read_eq, h.follow]
  rcases h.node with hnode | ⟨old, hnode⟩
  · have hentry := nodeAt?_eq_none_iff.1 hnode
    simp only [hnode, write_apply, h.landing, hentry, place, extendAt, contentAt, fileModeAt,
      String.empty_append]
    rfl
  · obtain ⟨mode, modified, hentry⟩ := nodeAt?_eq_some_iff.1 hnode
    simp only [hnode, write_apply, h.landing, hentry, extendAt, contentAt, fileModeAt]

/-- What a file held before it was extended; a missing one is found to be missing. -/
theorem read_or (h : fs.ExtendsAt text p) : fs.read text = .ok (fs.contentAt p) ∨
    fs.contentAt p = "" ∧ fs.read text = .error ⟨.notFound, text⟩ := by
  rw [read_eq, h.follow]
  rcases h.node with hnode | ⟨old, hnode⟩
  · have hentry := nodeAt?_eq_none_iff.1 hnode
    exact .inr ⟨by simp [contentAt, hentry], by simp [hnode]⟩
  · obtain ⟨mode, modified, hentry⟩ := nodeAt?_eq_some_iff.1 hnode
    exact .inl (by simp [hnode, contentAt, hentry])

/-- **The path leads to the same place** after the file there was extended, or made: that bars none
of the links on the way. -/
theorem follow_extendAt (h : fs.ExtendsAt text p) (hfs : fs.Anchored) (content : String) :
    (fs.extendAt p content).follow (.ofString text) true = .ok p := by
  obtain ⟨links, hleads⟩ := exists_leads h.follow
  have hbars : ∀ link ∈ links, ¬ p.Bars link := by
    intro link hlink hbars
    obtain ⟨directory, name, target, rfl, hnode⟩ := hleads.exists_of_mem hlink
    have hdir : fs.nodeAt? p = some .directory :=
      hfs.directory_of_prefix hnode (by simp) (Path.isBelow_child_iff.1 hbars.2) hbars.1
    rcases h.node with hfree | ⟨old, hfile⟩
    · simp [hfree] at hdir
    · simp [hfile] at hdir
  have hway : (fs.extendAt p content).Leads _ links p := hleads.insert rfl hbars
  have hbound := h.follow
  rw [FileSystem.follow, hleads.followNames] at hbound
  rw [FileSystem.follow, hway.followNames]
  exact hbound

/-- Every path that leads somewhere after a file was extended led there before. -/
theorem follow_of_extendAt (h : fs.ExtendsAt text p) {content : String} {path : Path}
    (hfollow : (fs.extendAt p content).follow path true = .ok q) : fs.follow path true = .ok q := by
  obtain ⟨links, hleads⟩ := exists_leads hfollow
  have hbefore : fs.Leads path.parts links q := hleads.of_insert rfl h.node
  rw [FileSystem.follow, hleads.followNames] at hfollow
  rw [FileSystem.follow, hbefore.followNames]
  exact hfollow

theorem anchored_extendAt (h : fs.ExtendsAt text p) (hfs : fs.Anchored) (content : String) :
    (fs.extendAt p content).Anchored := by
  refine hfs.insert (.inl ⟨_, rfl⟩) fun hdir => ?_
  rcases h.node with hfree | ⟨old, hfile⟩
  · simp [hfree] at hdir
  · simp [hfile] at hdir

theorem read_extendAt (h : fs.ExtendsAt text p) (hfs : fs.Anchored) (content : String) :
    (fs.extendAt p content).read text = .ok (fs.contentAt p ++ content) :=
  read_of_follow (h.follow_extendAt hfs content) (entryAt?_extendAt fs p content) rfl

end ExtendsAt

/-- **A file that is extended again and again** holds all the texts, as if it had been extended once.
Each time it is found at the same place, so the induction is on the texts that are left. -/
theorem ExtendsAt.undated_forM {text : String} {first : String} {rest : List String}
    {later : FileSystem} (h : fs.ExtendsAt text p) (hfs : fs.Anchored)
    (hrun : (first :: rest).forM (append text) fs = (.ok (), later)) :
    later.read text = .ok (fs.contentAt p ++ String.join (first :: rest)) ∧
      later.undated = (fs.extendAt p (String.join (first :: rest))).undated := by
  induction rest generalizing fs first with
  | nil =>
    obtain ⟨next, happend, hrest⟩ := forM_cons_eq_ok_iff.1 hrun
    rw [h.append_eq] at happend
    cases happend
    cases hrest
    rw [show String.join [first] = first by simp]
    exact ⟨h.read_extendAt hfs first, rfl⟩
  | cons second rest ih =>
    obtain ⟨next, happend, hrest⟩ := forM_cons_eq_ok_iff.1 hrun
    rw [h.append_eq] at happend
    cases happend
    obtain ⟨_, hsecond, -⟩ := forM_cons_eq_ok_iff.1 hrest
    obtain ⟨place, hplace⟩ := exists_extendsAt (congrArg Prod.fst hsecond)
    obtain rfl : place = p := by
      have hfollow := hplace.follow
      rw [h.follow_extendAt hfs first] at hfollow
      exact (Except.ok.inj hfollow).symm
    obtain ⟨hread, hundated⟩ := ih hplace (h.anchored_extendAt hfs first) hrest
    rw [String.join_cons, ← String.append_assoc]
    rw [contentAt_extendAt] at hread
    exact ⟨hread, hundated.trans (undated_extendAt_extendAt fs place first _)⟩

/-- **Texts that are appended one after another.** When a path of a tree is extended with one text
after another and none of this fails, then what is read there is what it held before, nothing if it
was missing, and the texts after it in their order. The same is there as after it was extended once
with all the texts together. -/
theorem IsTree.forM_append (h : fs.IsTree) {text : String} {contents : List String}
    {later : FileSystem} (hne : contents ≠ [])
    (hrun : contents.forM (append text) fs = (.ok (), later)) :
    ∃ old, (fs.read text = .ok old ∨ old = "" ∧ fs.read text = .error ⟨.notFound, text⟩) ∧
      later.read text = .ok (old ++ String.join contents) ∧
      ∃ once, append text (String.join contents) fs = (.ok (), once) ∧
        later.undated = once.undated := by
  obtain ⟨first, rest, rfl⟩ := List.exists_cons_of_ne_nil hne
  obtain ⟨_, hfirst, -⟩ := forM_cons_eq_ok_iff.1 hrun
  obtain ⟨place, hplace⟩ := exists_extendsAt (congrArg Prod.fst hfirst)
  obtain ⟨hread, hundated⟩ := hplace.undated_forM h.anchored hrun
  exact ⟨fs.contentAt place, hplace.read_or, hread, _, hplace.append_eq _, hundated⟩

/-- A missing file is extended three times under a path with a link on the way and one at its end. -/
theorem IsTree.forM_append_linked :
    linked.IsTree ∧ linked.read "/a/l" = .error ⟨.notFound, "/a/l"⟩ ∧
      ∃ later once, ["x", "", "yz"].forM (append "/a/l") linked = (.ok (), later) ∧
        later.read "/a/l" = .ok "xyz" ∧ append "/a/l" "xyz" linked = (.ok (), once) ∧
        later.undated = once.undated := by
  have htree : linked.IsTree := by
    refine (isTree_along_iff (isTree_ofClock ⟨0, 0⟩)
      [.makeDirectory "/d" false, .makeLink "d" "/a", .makeLink "../f" "/d/l"]).2
      (of_decide_eq_true (by cbv)) linked ?_
    simp [along, linked]
  have hmissing : linked.read "/a/l" = .error ⟨.notFound, "/a/l"⟩ := by cbv
  have hok : (["x", "", "yz"].forM (append "/a/l") linked).1 = .ok () := by cbv
  have hjoin : String.join ["x", "", "yz"] = "xyz" := by decide
  obtain ⟨old, hold, hread, once, honce, hundated⟩ :=
    htree.forM_append (by simp) (Prod.ext hok rfl)
  rcases hold with hold | ⟨rfl, -⟩
  · simp [hmissing] at hold
  · rw [hjoin, String.empty_append] at hread
    rw [hjoin] at honce
    exact ⟨htree, hmissing, _, once, Prod.ext hok rfl, hread, honce, hundated⟩

end FileSystem

end VirtualShell
