import VirtualShell.Proofs.FileSystem.Tree

/-!
# Where names lead

Links are resolved one after another until none is left on the way or too many were met. Here the
way is described without a bound: the table of files alone tells which entries it passes, and the
links that are resolved on it are listed. Following links with a bound then gives the end of the way
if the list is no longer than the bound, and fails otherwise.

* `FileSystem.Open` — no file and no link stands on the way to a path.
* `FileSystem.walk_cases` — all that a walk up to the first link can come to.
* `FileSystem.Leads` — names lead to a place over some links.
* **`FileSystem.Leads.followNames`** — what following links gives, for any bound.
* **`FileSystem.Leads.child`** — a directory and a name in it are resolved one after the other.
-/

namespace VirtualShell.FileSystem

variable {fs : FileSystem} {p q : Path}

/-! ## Open ways -/

/-- **Nothing stops or diverts a walk** to a path: where something stands on the way, the end of it
included, it is a directory. The root is not looked at. -/
def Open (fs : FileSystem) (p : Path) : Prop :=
  ∀ q, q.parts <+: p.parts → q ≠ .root → fs.nodeAt? q = none ∨ fs.nodeAt? q = some .directory

theorem open_root : fs.Open .root := by
  intro q hq hroot
  exact absurd (Path.eq_root_of_prefix_root hq) hroot

theorem Open.of_prefix (h : fs.Open p) (hq : q.parts <+: p.parts) : fs.Open q :=
  fun r hr => h r (hr.trans hq)

theorem open_child_iff {name : String} : fs.Open (p.child name) ↔
    fs.Open p ∧ (fs.nodeAt? (p.child name) = none ∨ fs.nodeAt? (p.child name) = some .directory) := by
  constructor
  · intro h
    exact ⟨h.of_prefix (List.prefix_append _ _), h _ (List.prefix_refl _) (p.child_ne_root name)⟩
  · rintro ⟨h, hchild⟩ q hq hroot
    rcases List.prefix_concat_iff.1 hq with heq | hq
    · have hq : q = p.child name := congrArg Path.mk heq
      exact hq ▸ hchild
    · exact h q hq hroot

/-- In a tree the way to a directory is open. -/
theorem IsTree.open_of_directory (h : fs.IsTree) (hp : fs.nodeAt? p = some .directory) :
    fs.Open p := by
  rintro q ⟨below, hbelow⟩ -
  have hp : fs.nodeAt? ⟨q.parts ++ below⟩ = some .directory := by rwa [hbelow]
  exact .inr (h.directory_of_append hp)

/-- The way to what stands in a tree is open, up to the directory that holds it. -/
theorem IsTree.open_parent (h : fs.IsTree) (hp : fs.nodeAt? p ≠ none) : fs.Open p.parent := by
  by_cases hroot : p = .root
  · rw [hroot]
    exact open_root
  · exact h.open_of_directory (h.parent p (mem_keys_iff_nodeAt?.2 hp) hroot)

/-! ## Walks -/

/-- One name of a walk on which every link is resolved. -/
theorem walk_cons (place : Path) (name : String) (rest : List String) :
    fs.walk true place (name :: rest) =
      match fs.nodeAt? (place.child name) with
      | some (.link target) => .link place target rest
      | some (.file _) => if rest.isEmpty then .arrived (place.child name) else .blocked
      | _ => fs.walk true (place.child name) rest := by
  rw [walk, nodeAt?]
  cases fs.entryAt? (place.child name) with
  | none => rfl
  | some e =>
    obtain ⟨node, mode, modified⟩ := e
    cases node <;> rfl

/-- On an open way the walk goes on. -/
theorem walk_append {place : Path} {before : List String}
    (h : fs.Open ⟨place.parts ++ before⟩) (rest : List String) :
    fs.walk true place (before ++ rest) = fs.walk true ⟨place.parts ++ before⟩ rest := by
  induction before generalizing place with
  | nil => simp
  | cons name before ih =>
    have hparts : place.parts ++ name :: before = (place.child name).parts ++ before := by
      simp [Path.child]
    rw [hparts] at h ⊢
    rw [List.cons_append, walk_cons]
    rcases h (place.child name) (List.prefix_append _ _) (place.child_ne_root name) with hnode | hnode
    · rw [hnode]
      exact ih h
    · rw [hnode]
      exact ih h

theorem walk_of_open {directory : Path} (h : fs.Open directory) (rest : List String) :
    fs.walk true .root (directory.parts ++ rest) = fs.walk true directory rest :=
  @walk_append fs .root _ h rest

theorem walk_of_link {directory : Path} {name target : String} (h : fs.Open directory)
    (hlink : fs.nodeAt? (directory.child name) = some (.link target)) (rest : List String) :
    fs.walk true .root (directory.parts ++ name :: rest) = .link directory target rest := by
  rw [walk_of_open h, walk_cons, hlink]

theorem walk_of_file {directory : Path} {name content : String} (h : fs.Open directory)
    (hfile : fs.nodeAt? (directory.child name) = some (.file content)) (rest : List String) :
    fs.walk true .root (directory.parts ++ name :: rest) =
      if rest.isEmpty then .arrived (directory.child name) else .blocked := by
  rw [walk_of_open h, walk_cons, hfile]

/-- A walk ends at a place with an open way to its directory, if no link stands there. -/
theorem walk_parts (h : fs.Open p.parent)
    (hlink : p ≠ .root → ∀ target, fs.nodeAt? p ≠ some (.link target)) :
    fs.walk true .root p.parts = .arrived p := by
  by_cases hroot : p = .root
  · rw [hroot]
    rfl
  obtain ⟨name, -, hp⟩ := Path.exists_eq_child hroot
  have hparts : p.parts = p.parent.parts ++ [name] := congrArg Path.parts hp
  rw [hparts, walk_of_open h, walk_cons, ← hp]
  cases hnode : fs.nodeAt? p with
  | none => rfl
  | some node =>
    cases node with
    | file content => rfl
    | directory => rfl
    | link target => exact absurd hnode (hlink hroot target)

/-- The way along some names is open, or there is a first file or link on it. -/
theorem open_or_exists (names : List String) :
    fs.Open ⟨names⟩ ∨ ∃ (directory : Path) (name : String) (rest : List String) (node : Node),
      names = directory.parts ++ name :: rest ∧ fs.Open directory ∧
        fs.nodeAt? (directory.child name) = some node ∧ node ≠ .directory := by
  induction names using List.reverseRecOn with
  | nil => exact .inl open_root
  | append_singleton names name ih =>
    rcases ih with hopen | ⟨directory, name', rest, node, rfl, hfirst⟩
    · have hchild := @open_child_iff fs ⟨names⟩ name
      cases hnode : fs.nodeAt? (Path.child ⟨names⟩ name) with
      | none => exact .inl (hchild.2 ⟨hopen, .inl hnode⟩)
      | some node =>
        by_cases hdir : node = .directory
        · exact .inl (hchild.2 ⟨hopen, .inr (hdir ▸ hnode)⟩)
        · exact .inr ⟨⟨names⟩, name, [], node, rfl, hopen, hnode, hdir⟩
    · exact .inr ⟨directory, name', rest ++ [name], node, by simp, hfirst⟩

/-- **All that a walk can come to**: its end, a file, which is the end or blocks the way, or a link
that is to be resolved. -/
theorem walk_cases (fs : FileSystem) (names : List String) :
    (fs.Open ⟨names⟩ ∧ fs.walk true .root names = .arrived ⟨names⟩) ∨
    ∃ (directory : Path) (name : String) (rest : List String),
      names = directory.parts ++ name :: rest ∧ fs.Open directory ∧
      ((∃ content, fs.nodeAt? (directory.child name) = some (.file content) ∧
          fs.walk true .root names =
            if rest.isEmpty then .arrived (directory.child name) else .blocked) ∨
        ∃ target, fs.nodeAt? (directory.child name) = some (.link target) ∧
          fs.walk true .root names = .link directory target rest) := by
  rcases fs.open_or_exists names with hopen | ⟨directory, name, rest, node, rfl, hopen, hnode, hdir⟩
  · have hwalk := walk_of_open hopen []
    rw [List.append_nil] at hwalk
    exact .inl ⟨hopen, hwalk⟩
  · refine .inr ⟨directory, name, rest, rfl, hopen, ?_⟩
    cases node with
    | file content => exact .inl ⟨content, hnode, walk_of_file hopen hnode rest⟩
    | directory => exact absurd rfl hdir
    | link target => exact .inr ⟨target, hnode, walk_of_link hopen hnode rest⟩

/-! ## Ways over links -/

/-- **Names lead to a place** over some links, in the order in which they are met. Each of them is
resolved in its directory, and the names after it are followed from where it leads. -/
inductive Leads (fs : FileSystem) : List String → List Path → Path → Prop
  | arrived {place : Path} (hopen : fs.Open place.parent)
      (hlink : place ≠ .root → ∀ target, fs.nodeAt? place ≠ some (.link target)) :
      Leads fs place.parts [] place
  | link {directory place : Path} {name target : String} {rest : List String} {links : List Path}
      (hopen : fs.Open directory)
      (hlink : fs.nodeAt? (directory.child name) = some (.link target))
      (h : Leads fs ((directory.resolve target).parts ++ rest) links place) :
      Leads fs (directory.parts ++ name :: rest) (directory.child name :: links) place

/-- **Following links along a way** with a bound gives its end, or too many links were met. -/
theorem Leads.followNames {names : List String} {links : List Path} {place : Path}
    (h : fs.Leads names links place) (path : Path) (bound : Nat) :
    fs.followNames true path bound names =
      if links.length ≤ bound then .ok place else .error ⟨.tooManyLinks, path.render⟩ := by
  induction h generalizing bound with
  | arrived hopen hlink =>
    rw [FileSystem.followNames, walk_parts hopen hlink]
    rfl
  | @link directory place name target rest links hopen hlink h ih =>
    rw [FileSystem.followNames, walk_of_link hopen hlink]
    cases bound with
    | zero => simp
    | succ bound => simp [ih bound]

theorem leads_of_arrived {names : List String} {place : Path}
    (h : fs.walk true .root names = .arrived place) : fs.Leads names [] place := by
  rcases fs.walk_cases names with ⟨hopen, hwalk⟩ | ⟨directory, name, rest, rfl, hopen, hturn⟩
  · obtain rfl : (⟨names⟩ : Path) = place := Way.arrived.inj (hwalk.symm.trans h)
    refine .arrived (hopen.of_prefix (List.dropLast_prefix _)) fun hroot target hlink => ?_
    rcases hopen _ (List.prefix_refl _) hroot with hnode | hnode <;> simp [hnode] at hlink
  · rcases hturn with ⟨content, hfile, hwalk⟩ | ⟨target, -, hwalk⟩
    · cases rest with
      | nil =>
        obtain rfl : directory.child name = place := Way.arrived.inj (hwalk.symm.trans h)
        have hparent : fs.Open (directory.child name).parent := by rwa [Path.parent_child]
        have hlink (target : String) : fs.nodeAt? (directory.child name) ≠ some (.link target) := by
          simp [hfile]
        exact Leads.arrived hparent fun _ => hlink
      | cons next rest => simp [hwalk] at h
    · simp [hwalk] at h

theorem leads_of_link {names rest : List String} {directory place : Path} {target : String}
    {links : List Path} (h : fs.walk true .root names = .link directory target rest)
    (hleads : fs.Leads ((directory.resolve target).parts ++ rest) links place) :
    ∃ name, fs.Leads names (directory.child name :: links) place := by
  rcases fs.walk_cases names with ⟨-, hwalk⟩ | ⟨directory', name, rest', rfl, hopen, hturn⟩
  · simp [hwalk] at h
  · rcases hturn with ⟨content, -, hwalk⟩ | ⟨target', hlink, hwalk⟩
    · cases rest' <;> simp [hwalk] at h
    · rw [hwalk] at h
      cases h
      exact ⟨name, .link hopen hlink hleads⟩

/-- Where following links leads, there is a way. -/
theorem exists_leads {path place : Path} {bound : Nat} {names : List String}
    (h : fs.followNames true path bound names = .ok place) : ∃ links, fs.Leads names links place := by
  induction bound generalizing names with
  | zero =>
    rw [followNames] at h
    split at h
    · next harrived =>
      cases h
      exact ⟨[], leads_of_arrived harrived⟩
    · cases h
    · cases h
  | succ bound ih =>
    rw [followNames] at h
    split at h
    · next harrived =>
      cases h
      exact ⟨[], leads_of_arrived harrived⟩
    · cases h
    · next directory target rest hlink =>
      obtain ⟨links, hleads⟩ := ih h
      obtain ⟨name, hleads⟩ := leads_of_link hlink hleads
      exact ⟨_, hleads⟩

/-- **A directory and a name in it** may be resolved one after the other: the way to the place where
the directory is goes on from there. -/
theorem Leads.child {names : List String} {links links' : List Path} {directory place : Path}
    {name : String} (h : fs.Leads names links directory)
    (h' : fs.Leads (directory.child name).parts links' place) :
    fs.Leads (names ++ [name]) (links ++ links') place := by
  induction h with
  | arrived => exact h'
  | @link directory' _ name' target rest links hopen hlink h ih =>
    rw [List.append_assoc] at ih
    rw [List.append_assoc, List.cons_append]
    exact .link hopen hlink (ih h')

/-- Nothing stops or diverts a walk to the end of a way. -/
theorem Leads.open_parent {names : List String} {links : List Path} {place : Path}
    (h : fs.Leads names links place) : fs.Open place.parent := by
  induction h with
  | arrived hopen _ => exact hopen
  | link _ _ _ ih => exact ih

/-- No link stands at the end of a way. -/
theorem Leads.not_link {names : List String} {links : List Path} {place : Path}
    (h : fs.Leads names links place) (hroot : place ≠ .root) (target : String) :
    fs.nodeAt? place ≠ some (.link target) := by
  induction h with
  | arrived _ hlink => exact hlink hroot target
  | link _ _ _ ih => exact ih hroot

/-- The links on a way are there. -/
theorem Leads.exists_of_mem {names : List String} {links : List Path} {place link : Path}
    (h : fs.Leads names links place) (hlink : link ∈ links) :
    ∃ (directory : Path) (name target : String),
      link = directory.child name ∧ fs.nodeAt? (directory.child name) = some (.link target) := by
  induction h with
  | arrived => cases hlink
  | @link directory _ name target _ _ _ hnode _ ih =>
    rcases List.mem_cons.1 hlink with rfl | hlink
    · exact ⟨directory, name, target, rfl, hnode⟩
    · exact ih hlink

end VirtualShell.FileSystem
