import VirtualShell.Proofs.FileSystem.Question

/-!
# New file systems

A new file system is made of directories and of files, one after another, and different texts can
mean one path or a path on the way to another. Directories are made with care: a file where one of
them is to be is a failure. A file is put where it belongs whatever stands there, so it can take the
place of a directory, and what lies in that directory is left without one.

* `FileSystem.nodeGiven?`, `FileSystem.nodeAt?_seeded` — what is made of the lists at each path.
* `FileSystem.hasNormalPaths_seeded` — the paths of a new file system are normal.
* `FileSystem.IsTree.ensureNames_eq_ok_iff` — when a directory can be made in a tree.
* `FileSystem.SparesDirectories` — no file is put where a directory has to stand.
* **`FileSystem.seeded_fulfils_iff`** — a new file system is the tree that was asked for exactly when
  no file was put in the place of a directory.
-/

namespace VirtualShell.FileSystem

variable {fs next : FileSystem} {clock : Clock} {directories : List String}
  {files : List (String × Content)} {name content : String} {given : Content}
  {names : List String} {p q : Path}

/-! ## Making directories -/

/-- Where something stands no directory is added. -/
theorem or_directory_eq_self {o : Option Node} {added : Prop} [Decidable added]
    (h : added → o ≠ none) : o.or (if added then some .directory else none) = o := by
  by_cases hadded : added
  · obtain ⟨node, rfl⟩ := Option.ne_none_iff_exists'.1 (h hadded)
    rw [Option.some_or]
  · rw [if_neg hadded, Option.or_none]

/-- **What making a directory adds**, when everything has all that is above it: the directories that
are missing on the way. -/
theorem nodeAt?_ensureNames (hroot : fs.nodeAt? .root ≠ none)
    (habove : ∀ p q : Path, q.parts <+: p.parts → fs.nodeAt? q = none → fs.nodeAt? p = none)
    (h : ensureNames names fs = (.ok (), next)) (q : Path) :
    next.nodeAt? q = (fs.nodeAt? q).or
      (if q.parts <+: names.reverse then some .directory else none) := by
  induction names generalizing next with
  | nil =>
    cases h
    refine (or_directory_eq_self fun hbegins => ?_).symm
    rwa [Path.eq_root_of_prefix_root hbegins]
  | cons name above ih =>
    rcases ensureNames_cases name above fs with ⟨hthere, hrun⟩ | ⟨node, e, -, -, -, hrun⟩ |
      ⟨hfree, ⟨e, middle, hmiddle, hrun⟩ | ⟨middle, hmiddle, hrun⟩⟩
    · cases hrun.symm.trans h
      refine (or_directory_eq_self fun hbegins hfree => ?_).symm
      have hnone := habove ⟨(name :: above).reverse⟩ q hbegins hfree
      rw [hnone] at hthere
      cases hthere
    · cases hrun.symm.trans h
    · cases hrun.symm.trans h
    · cases hrun.symm.trans h
      rw [place, nodeAt?_insert]
      by_cases hq : (⟨(name :: above).reverse⟩ : Path) = q
      · subst hq
        rw [if_pos rfl, hfree, if_pos (List.prefix_refl _), Option.none_or]
      · have hbegins : q.parts <+: (name :: above).reverse ↔ q.parts <+: above.reverse := by
          rw [List.reverse_cons, List.prefix_concat_iff]
          refine or_iff_right fun heq => hq ?_
          rw [List.reverse_cons, ← heq]
        simp only [hbegins]
        rw [if_neg hq]
        exact ih hmiddle

/-- **A directory can be made in a tree** exactly when the way to it is open. -/
theorem IsTree.ensureNames_eq_ok_iff (h : fs.IsTree) :
    (∃ next, ensureNames names fs = (.ok (), next)) ↔ fs.Open ⟨names.reverse⟩ := by
  induction names with
  | nil => exact ⟨fun _ => open_root, fun _ => ⟨fs, rfl⟩⟩
  | cons name above ih =>
    have hchild : (⟨(name :: above).reverse⟩ : Path) = Path.child ⟨above.reverse⟩ name := by
      simp [Path.child]
    have hcases := ensureNames_cases name above fs
    rw [hchild] at hcases ⊢
    rw [open_child_iff]
    rcases hcases with ⟨hthere, hrun⟩ | ⟨node, e, hnode, hne, -, hrun⟩ |
      ⟨hfree, ⟨e, middle, hmiddle, hrun⟩ | ⟨middle, hmiddle, hrun⟩⟩
    · have hopen : fs.Open ⟨above.reverse⟩ := (open_child_iff.1 (h.open_of_directory hthere)).1
      exact ⟨fun _ => ⟨hopen, .inr hthere⟩, fun _ => ⟨fs, hrun⟩⟩
    · constructor
      · rintro ⟨_, hok⟩
        cases hrun.symm.trans hok
      · rintro ⟨-, hbars⟩
        simp [hnode, hne] at hbars
    · constructor
      · rintro ⟨_, hok⟩
        cases hrun.symm.trans hok
      · rintro ⟨hopen, -⟩
        obtain ⟨_, hok⟩ := ih.2 hopen
        cases hmiddle.symm.trans hok
    · exact ⟨fun _ => ⟨ih.1 ⟨middle, hmiddle⟩, .inl hfree⟩, fun _ => ⟨_, hrun⟩⟩

theorem IsTree.ensureDirectory_eq_ok_iff (h : fs.IsTree) :
    (∃ next, ensureDirectory p fs = (.ok (), next)) ↔ fs.Open p := by
  rw [ensureDirectory, h.ensureNames_eq_ok_iff, List.reverse_reverse]

/-- **A directory that is made in a tree** stands there then, in a tree. -/
theorem IsTree.of_ensureDirectory (h : fs.IsTree) (hp : p.IsNormal)
    (hrun : ensureDirectory p fs = (.ok (), next)) :
    next.IsTree ∧ next.nodeAt? p = some .directory := by
  have hnames : ∀ name ∈ p.parts.reverse, Path.IsName name :=
    fun name hname => hp name (List.mem_reverse.1 hname)
  have hspec := ensureNames_spec h hnames
  rw [show ensureNames p.parts.reverse fs = _ from hrun, List.reverse_reverse] at hspec
  exact ⟨hspec.1, hspec.2 rfl⟩

/-! ## What is given -/

/-- The content that is given last for a path. -/
def contentFor (files : List (String × Content)) (p : Path) : Option String :=
  ((files.filter fun f => Path.ofString f.1 = p).getLast?).map (·.2.asText)

theorem contentFor_concat (files : List (String × Content)) (name : String) (given : Content)
    (p : Path) : contentFor (files ++ [(name, given)]) p =
      if Path.ofString name = p then some given.asText else contentFor files p := by
  rw [contentFor, List.filter_append]
  by_cases hp : Path.ofString name = p
  · simp [hp]
  · simp [hp, contentFor]

theorem contentFor_eq_none_iff : contentFor files p = none ↔ ∀ f ∈ files, Path.ofString f.1 ≠ p := by
  simp [contentFor]

theorem exists_contentFor_iff : (∃ content, contentFor files p = some content) ↔
    ∃ f ∈ files, Path.ofString f.1 = p := by
  rw [← Option.ne_none_iff_exists', ne_eq, contentFor_eq_none_iff]
  push Not
  rfl

/-- **A path is needed** for something that is given: it leads there, or is on the way. The root is
always given. -/
def Needed (directories : List String) (files : List (String × Content)) (p : Path) : Prop :=
  (∃ d ∈ "/" :: directories, p.parts <+: (Path.ofString d).parts) ∨
    ∃ f ∈ files, p.parts <+: (Path.ofString f.1).parts

instance (directories : List String) (files : List (String × Content)) (p : Path) :
    Decidable (Needed directories files p) :=
  inferInstanceAs (Decidable (_ ∨ _))

/-- **What is made of the lists at a path**: the file that is given last, or else a directory if the
path is needed. -/
def nodeGiven? (directories : List String) (files : List (String × Content)) (p : Path) :
    Option Node :=
  match contentFor files p with
  | some content => some (.file content)
  | none => if Needed directories files p then some .directory else none

theorem nodeGiven?_eq_none_iff :
    nodeGiven? directories files p = none ↔ ¬ Needed directories files p := by
  rw [nodeGiven?]
  cases hcontent : contentFor files p with
  | none => simp
  | some content =>
    obtain ⟨f, hf, rfl⟩ := exists_contentFor_iff.1 ⟨content, hcontent⟩
    have hneeded : Needed directories files (Path.ofString f.1) :=
      .inr ⟨f, hf, List.prefix_refl _⟩
    simp [hneeded]

theorem nodeGiven?_ne_link (target : String) :
    nodeGiven? directories files p ≠ some (.link target) := by
  rw [nodeGiven?]
  split
  · simp
  · split <;> simp

theorem needed_root : Needed directories files .root :=
  .inl ⟨"/", List.mem_cons_self, List.nil_prefix⟩

theorem Needed.of_prefix (h : Needed directories files p) (hq : q.parts <+: p.parts) :
    Needed directories files q := by
  rcases h with ⟨d, hd, hbegins⟩ | ⟨f, hf, hbegins⟩
  · exact .inl ⟨d, hd, hq.trans hbegins⟩
  · exact .inr ⟨f, hf, hq.trans hbegins⟩

/-- One more directory adds what is missing on the way to it. -/
theorem nodeGiven?_concat_directory (directories : List String) (d : String) (q : Path) :
    nodeGiven? (directories ++ [d]) [] q = (nodeGiven? directories [] q).or
      (if q.parts <+: (Path.ofString d).parts then some .directory else none) := by
  have hneeded : Needed (directories ++ [d]) [] q ↔
      Needed directories [] q ∨ q.parts <+: (Path.ofString d).parts := by
    simp [Needed, or_and_right, exists_or, or_assoc]
  have hcontent : contentFor [] q = none := rfl
  simp only [nodeGiven?, hcontent, hneeded]
  by_cases h : Needed directories [] q
  · simp [h]
  · simp [h]

/-- One more file takes its path, and adds what is missing on the way to it. -/
theorem nodeGiven?_concat (directories : List String) (files : List (String × Content))
    (name : String) (given : Content) (q : Path) :
    nodeGiven? directories (files ++ [(name, given)]) q =
      if Path.ofString name = q then some (.file given.asText)
      else (nodeGiven? directories files q).or
        (if q.parts <+: (Path.ofString name).parent.parts then some .directory else none) := by
  rw [nodeGiven?, contentFor_concat]
  by_cases hq : Path.ofString name = q
  · simp [hq]
  · have hbegins : q.parts <+: (Path.ofString name).parts ↔
        q.parts <+: (Path.ofString name).parent.parts := by
      constructor
      · intro h
        exact Path.prefix_parent_of_isBelow (Path.isBelow_iff.2 ⟨h, hq⟩)
      · intro h
        exact h.trans (List.dropLast_prefix _)
    have hneeded : Needed directories (files ++ [(name, given)]) q ↔
        Needed directories files q ∨ q.parts <+: (Path.ofString name).parent.parts := by
      simp [Needed, or_and_right, exists_or, or_assoc, hbegins]
    rw [if_neg hq, if_neg hq, nodeGiven?]
    cases contentFor files q with
    | some content => rfl
    | none =>
      simp only [hneeded]
      by_cases h : Needed directories files q
      · simp [h]
      · simp [h]

/-! ## What is made -/

theorem seeded_eq_ok_iff : seeded clock directories files = .ok fs ↔
    ∃ next, (directories.forM fun d => ensureDirectory (.ofString d)) (ofClock clock) =
        (.ok (), next) ∧
      (files.forM fun f => seedFile f.1 f.2.asText) next = (.ok (), fs) := by
  have hrun : seeded clock directories files = .ok fs ↔
      ((directories.forM fun d => ensureDirectory (.ofString d)) >>= fun _ =>
        files.forM fun f => seedFile f.1 f.2.asText) (ofClock clock) = (.ok (), fs) := by
    rw [seeded]
    dsimp only [ExceptT.run]
    rcases ((directories.forM fun d => ensureDirectory (.ofString d)) >>= fun _ =>
        files.forM fun f => seedFile f.1 f.2.asText) (ofClock clock) with ⟨e | ⟨⟨⟩⟩, later⟩
    · constructor <;> nofun
    · constructor
      · intro h
        cases h
        rfl
      · intro h
        cases h
        rfl
  rw [hrun, bind_apply_eq_ok_iff]
  exact ⟨fun ⟨_, next, h⟩ => ⟨next, h⟩, fun ⟨next, h⟩ => ⟨(), next, h⟩⟩

/-- The directories are made first, -/
theorem seeded_nil_eq_ok_iff : seeded clock directories [] = .ok fs ↔
    (directories.forM fun d => ensureDirectory (.ofString d)) (ofClock clock) = (.ok (), fs) := by
  rw [seeded_eq_ok_iff]
  constructor
  · rintro ⟨next, hdirectories, hnext⟩
    cases hnext
    exact hdirectories
  · intro hdirectories
    exact ⟨fs, hdirectories, rfl⟩

/-- and then the files, one after another. -/
theorem seeded_concat_eq_ok_iff :
    seeded clock directories (files ++ [(name, given)]) = .ok fs ↔
      ∃ before, seeded clock directories files = .ok before ∧
        seedFile name given.asText before = (.ok (), fs) := by
  simp only [seeded_eq_ok_iff, forM_concat_eq_ok_iff]
  constructor
  · rintro ⟨next, hdirectories, before, hfiles, hfile⟩
    exact ⟨before, ⟨next, hdirectories, hfiles⟩, hfile⟩
  · rintro ⟨before, ⟨next, hdirectories, hfiles⟩, hfile⟩
    exact ⟨next, hdirectories, before, hfiles, hfile⟩

theorem seedFile_eq_ok_iff : seedFile name content fs = (.ok (), next) ↔
    ∃ middle, ensureDirectory (Path.ofString name).parent fs = (.ok (), middle) ∧
      next = middle.place (.ofString name) (.file content) := by
  rw [seedFile]
  simp only [bind_apply_eq_ok_iff, make_apply]
  constructor
  · rintro ⟨_, middle, hmiddle, hnext⟩
    cases hnext
    exact ⟨middle, hmiddle, rfl⟩
  · rintro ⟨middle, hmiddle, rfl⟩
    exact ⟨(), middle, hmiddle, rfl⟩

/-- Where all that was given so far stands, a directory adds what is missing on the way to it. -/
theorem nodeAt?_ensureDirectory (htable : ∀ q, fs.nodeAt? q = nodeGiven? directories files q)
    (h : ensureDirectory p fs = (.ok (), next)) (q : Path) :
    next.nodeAt? q = (nodeGiven? directories files q).or
      (if q.parts <+: p.parts then some .directory else none) := by
  have hroot : fs.nodeAt? .root ≠ none := by
    rw [htable, ne_eq, nodeGiven?_eq_none_iff, not_not]
    exact needed_root
  have habove (p q : Path) (hq : q.parts <+: p.parts) (hfree : fs.nodeAt? q = none) :
      fs.nodeAt? p = none := by
    rw [htable, nodeGiven?_eq_none_iff] at hfree ⊢
    exact fun hp => hfree (hp.of_prefix hq)
  have hadded := nodeAt?_ensureNames hroot habove h q
  rwa [List.reverse_reverse, htable] at hadded

/-- **Directories alone** can always be made, and they are a tree. -/
theorem exists_seeded_nil (clock : Clock) (directories : List String) :
    ∃ fs, seeded clock directories [] = .ok fs ∧ fs.IsTree ∧
      ∀ p, fs.nodeAt? p = nodeGiven? directories [] p := by
  simp only [seeded_nil_eq_ok_iff]
  have hnil (directories : List String) (p : Path) : nodeGiven? directories [] p =
      if Needed directories [] p then some .directory else none := rfl
  induction directories using List.reverseRecOn with
  | nil =>
    refine ⟨ofClock clock, rfl, isTree_ofClock clock, fun p => ?_⟩
    have hneeded : Needed [] [] p ↔ Path.root = p := by
      constructor
      · rintro (⟨d, hd, hbegins⟩ | ⟨f, hf, -⟩)
        · rw [List.mem_singleton.1 hd, Path.ofString_slash] at hbegins
          exact (Path.eq_root_of_prefix_root hbegins).symm
        · cases hf
      · rintro rfl
        exact needed_root
    rw [ofClock, place, nodeAt?_insert, hnil]
    simp only [hneeded]
    rfl
  | append_singleton directories d ih =>
    obtain ⟨before, hbefore, htree, htable⟩ := ih
    have hopen : before.Open (.ofString d) := by
      intro q _ _
      rw [htable, hnil]
      split
      · exact .inr rfl
      · exact .inl rfl
    obtain ⟨next, hnext⟩ := htree.ensureDirectory_eq_ok_iff.2 hopen
    refine ⟨next, forM_concat_eq_ok_iff.2 ⟨before, hbefore, hnext⟩, ?_, fun p => ?_⟩
    · exact (htree.of_ensureDirectory (Path.isNormal_ofString d) hnext).1
    · rw [nodeAt?_ensureDirectory htable hnext, nodeGiven?_concat_directory]

/-- **What stands at each path** of a new file system. -/
theorem nodeAt?_seeded (h : seeded clock directories files = .ok fs) (p : Path) :
    fs.nodeAt? p = nodeGiven? directories files p := by
  induction files using List.reverseRecOn generalizing fs p with
  | nil =>
    obtain ⟨made, hmade, -, htable⟩ := exists_seeded_nil clock directories
    obtain rfl : made = fs := by simpa [hmade] using h
    exact htable p
  | append_singleton files f ih =>
    obtain ⟨before, hbefore, hfile⟩ := seeded_concat_eq_ok_iff.1 h
    obtain ⟨middle, hmiddle, rfl⟩ := seedFile_eq_ok_iff.1 hfile
    rw [nodeGiven?_concat, place, nodeAt?_insert, nodeAt?_ensureDirectory (ih hbefore) hmiddle]

/-- **A new file system has normal paths**, however the texts that it is made of are written. -/
theorem hasNormalPaths_seeded (h : seeded clock directories files = .ok fs) :
    fs.HasNormalPaths := by
  induction files using List.reverseRecOn generalizing fs with
  | nil =>
    obtain ⟨made, hmade, htree, -⟩ := exists_seeded_nil clock directories
    obtain rfl : made = fs := by simpa [hmade] using h
    exact htree.normal
  | append_singleton files f ih =>
    obtain ⟨before, hbefore, hfile⟩ := seeded_concat_eq_ok_iff.1 h
    obtain ⟨middle, hmiddle, rfl⟩ := seedFile_eq_ok_iff.1 hfile
    have habove := hasNormalPaths_ensureDirectory (ih hbefore) (Path.isNormal_ofString f.1).parent
    rw [hmiddle] at habove
    exact habove.insert _ _ (Path.isNormal_ofString f.1)

/-! ## Files in the place of directories -/

/-- **No file is put where a directory has to stand**: neither the root nor a directory that is given
is a file or lies below one, and no file lies below one that is given after it. -/
structure SparesDirectories (directories : List String) (files : List (String × Content)) :
    Prop where
  directory : ∀ f ∈ files, ∀ d ∈ "/" :: directories,
    ¬ (Path.ofString f.1).parts <+: (Path.ofString d).parts
  earlier : files.Pairwise fun earlier later =>
    ¬ (Path.ofString earlier.1).isBelow (.ofString later.1)

instance (directories : List String) (files : List (String × Content)) :
    Decidable (SparesDirectories directories files) :=
  decidable_of_iff
    ((∀ f ∈ files, ∀ d ∈ "/" :: directories,
        ¬ (Path.ofString f.1).parts <+: (Path.ofString d).parts) ∧
      files.Pairwise fun (earlier later : String × Content) =>
        ¬ (Path.ofString earlier.1).isBelow (.ofString later.1))
    ⟨fun ⟨hdirectory, hearlier⟩ => ⟨hdirectory, hearlier⟩, fun h => ⟨h.directory, h.earlier⟩⟩

namespace SparesDirectories

theorem ne_root (h : SparesDirectories directories files) {f : String × Content} (hf : f ∈ files) :
    Path.ofString f.1 ≠ .root := by
  intro hroot
  refine h.directory f hf "/" List.mem_cons_self ?_
  rw [hroot]
  exact List.nil_prefix

theorem of_concat {f : String × Content} (h : SparesDirectories directories (files ++ [f])) :
    SparesDirectories directories files where
  directory g hg := h.directory g (List.mem_append_left _ hg)
  earlier := (List.pairwise_append.1 h.earlier).1

/-- The last file comes where no directory stands. -/
theorem nodeGiven?_ne_directory (h : SparesDirectories directories (files ++ [(name, given)])) :
    nodeGiven? directories files (.ofString name) ≠ some .directory := by
  rw [nodeGiven?]
  cases hcontent : contentFor files (.ofString name) with
  | some old => simp
  | none =>
    have hneeded : ¬ Needed directories files (.ofString name) := by
      rintro (⟨d, hd, hbegins⟩ | ⟨f, hf, hbegins⟩)
      · exact h.directory (name, given) (by simp) d hd hbegins
      · refine (List.pairwise_append.1 h.earlier).2.2 f hf _ (List.mem_singleton_self _) ?_
        exact Path.isBelow_iff.2 ⟨hbegins, contentFor_eq_none_iff.1 hcontent f hf⟩
    simp [hneeded]

/-- **A tree is made** when no file takes the place of a directory. -/
theorem isTree (h : SparesDirectories directories files)
    (hfs : seeded clock directories files = .ok fs) : fs.IsTree := by
  induction files using List.reverseRecOn generalizing fs with
  | nil =>
    obtain ⟨made, hmade, htree, -⟩ := exists_seeded_nil clock directories
    obtain rfl : made = fs := by simpa [hmade] using hfs
    exact htree
  | append_singleton files f ih =>
    obtain ⟨name, given⟩ := f
    obtain ⟨before, hbefore, hfile⟩ := seeded_concat_eq_ok_iff.1 hfs
    obtain ⟨middle, hmiddle, rfl⟩ := seedFile_eq_ok_iff.1 hfile
    have hnormal := Path.isNormal_ofString name
    have hroot : Path.ofString name ≠ .root :=
      h.ne_root (List.mem_append_right _ (List.mem_singleton_self (name, given)))
    obtain ⟨htree, hparent⟩ := (ih h.of_concat hbefore).of_ensureDirectory hnormal.parent hmiddle
    -- no directory was made at the path of the file on the way to it
    have hfree : middle.nodeAt? (.ofString name) ≠ some .directory := by
      rw [nodeAt?_ensureDirectory (nodeAt?_seeded hbefore) hmiddle, or_directory_eq_self]
      · exact h.nodeGiven?_ne_directory
      · intro hbegins
        have hbelow := Path.isBelow_of_prefix_parent hroot hbegins
        simp [Path.isBelow] at hbelow
    exact htree.insert _ _ hnormal (fun _ => hparent) fun hdirectory => absurd hdirectory hfree

/-- The way to the directory of a file is open when the file lies below none. -/
theorem open_parent_iff (h : SparesDirectories directories files)
    (hfs : seeded clock directories files = .ok fs) :
    fs.Open p.parent ↔ ∀ f ∈ files, ¬ p.isBelow (.ofString f.1) := by
  constructor
  · intro hopen f hf hbelow
    obtain ⟨content, hcontent⟩ := exists_contentFor_iff.2 ⟨f, hf, rfl⟩
    have hnode := hopen _ (Path.prefix_parent_of_isBelow hbelow) (h.ne_root hf)
    rw [nodeAt?_seeded hfs, nodeGiven?, hcontent] at hnode
    simp at hnode
  · intro hfiles q hq hroot
    rw [nodeAt?_seeded hfs, nodeGiven?]
    cases hcontent : contentFor files q with
    | none =>
      dsimp only
      split
      · exact .inr rfl
      · exact .inl rfl
    | some content =>
      obtain ⟨f, hf, rfl⟩ := exists_contentFor_iff.1 ⟨content, hcontent⟩
      have hp : p ≠ .root := by
        rintro rfl
        exact hroot (Path.eq_root_of_prefix_root hq)
      exact absurd (Path.isBelow_of_prefix_parent hp hq) (hfiles f hf)

/-- **Making fails** exactly when a file is to lie below one that is there. -/
theorem exists_seeded_iff (h : SparesDirectories directories files) :
    (∃ fs, seeded clock directories files = .ok fs) ↔
      files.Pairwise fun earlier later =>
        ¬ (Path.ofString later.1).isBelow (.ofString earlier.1) := by
  induction files using List.reverseRecOn with
  | nil =>
    obtain ⟨fs, hfs, -⟩ := exists_seeded_nil clock directories
    exact ⟨fun _ => .nil, fun _ => ⟨fs, hfs⟩⟩
  | append_singleton files f ih =>
    obtain ⟨name, given⟩ := f
    have hih := ih h.of_concat
    rw [List.pairwise_append, ← hih]
    constructor
    · rintro ⟨fs, hfs⟩
      obtain ⟨before, hbefore, hfile⟩ := seeded_concat_eq_ok_iff.1 hfs
      obtain ⟨middle, hmiddle, -⟩ := seedFile_eq_ok_iff.1 hfile
      have hopen := (h.of_concat.isTree hbefore).ensureDirectory_eq_ok_iff.1 ⟨middle, hmiddle⟩
      refine ⟨⟨before, hbefore⟩, List.pairwise_singleton _ _, fun e he f hf => ?_⟩
      rw [List.mem_singleton.1 hf]
      exact (h.of_concat.open_parent_iff hbefore).1 hopen e he
    · rintro ⟨⟨before, hbefore⟩, -, hfiles⟩
      have hopen : before.Open (Path.ofString name).parent :=
        (h.of_concat.open_parent_iff hbefore).2 fun e he =>
          hfiles e he (name, given) (List.mem_singleton_self _)
      obtain ⟨middle, hmiddle⟩ := (h.of_concat.isTree hbefore).ensureDirectory_eq_ok_iff.2 hopen
      have hfile : seedFile name given.asText before =
          (.ok (), middle.place (.ofString name) (.file given.asText)) :=
        seedFile_eq_ok_iff.2 ⟨middle, hmiddle, rfl⟩
      exact ⟨_, seeded_concat_eq_ok_iff.2 ⟨before, hbefore, hfile⟩⟩

end SparesDirectories

/-! ## What was asked for -/

/-- **Files are what was asked for**: a tree in which the given directories are directories and the
given files are read with the content that was given last for them. -/
structure Fulfils (fs : FileSystem) (directories : List String) (files : List (String × Content)) :
    Prop where
  tree : fs.IsTree
  directory : ∀ d ∈ directories, fs.isDirectory d = true
  read : ∀ f ∈ files, ∃ content, contentFor files (.ofString f.1) = some content ∧
    fs.read f.1 = .ok content

/-- What stands in a tree and is no link is where its path leads. -/
theorem IsTree.follow_eq (h : fs.IsTree) {node : Node} (hp : fs.nodeAt? p = some node)
    (hlink : ∀ target, node ≠ .link target) : fs.follow p true = .ok p := by
  have hwalk : fs.walk true .root p.parts = .arrived p := by
    refine walk_parts (h.open_parent (by simp [hp])) fun _ target htarget => ?_
    rw [hp] at htarget
    exact hlink target (Option.some.inj htarget)
  rw [follow, maxLinks, followNames, hwalk]

/-- A given file stands at its path, with the content that is given last for it. -/
theorem exists_file_of_seeded (hfs : seeded clock directories files = .ok fs)
    {f : String × Content} (hf : f ∈ files) :
    ∃ content, contentFor files (.ofString f.1) = some content ∧
      fs.nodeAt? (.ofString f.1) = some (.file content) := by
  obtain ⟨content, hcontent⟩ := exists_contentFor_iff.2 ⟨f, hf, rfl⟩
  exact ⟨content, hcontent, by rw [nodeAt?_seeded hfs, nodeGiven?, hcontent]⟩

/-- **In a tree a given directory is a directory** when one stands at its path. -/
theorem isDirectory_seeded_iff (hfs : seeded clock directories files = .ok fs) (htree : fs.IsTree)
    {d : String} (hd : d ∈ directories) :
    fs.isDirectory d = true ↔ fs.nodeAt? (.ofString d) = some .directory := by
  have hneeded : Needed directories files (.ofString d) :=
    .inl ⟨d, List.mem_cons_of_mem _ hd, List.prefix_refl _⟩
  have hthere : fs.nodeAt? (.ofString d) ≠ none := by
    rwa [nodeAt?_seeded hfs, ne_eq, nodeGiven?_eq_none_iff, not_not]
  obtain ⟨node, hnode⟩ := Option.ne_none_iff_exists'.1 hthere
  have hfollow : fs.follow (.ofString d) true = .ok (.ofString d) := by
    refine htree.follow_eq hnode fun target htarget => ?_
    rw [nodeAt?_seeded hfs, htarget] at hnode
    exact nodeGiven?_ne_link target hnode
  rw [isDirectory_eq_true_iff]
  constructor
  · rintro ⟨place, hplace, hdirectory⟩
    obtain rfl : Path.ofString d = place := by simpa [hfollow] using hplace
    exact hdirectory
  · intro hdirectory
    exact ⟨_, hfollow, hdirectory⟩

/-- A tree with the given directories holds no file in the place of one. -/
theorem Fulfils.sparesDirectories (h : fs.Fulfils directories files)
    (hfs : seeded clock directories files = .ok fs) : SparesDirectories directories files := by
  have hfile (f : String × Content) (hf : f ∈ files) :
      fs.nodeAt? (.ofString f.1) ≠ some .directory := by
    obtain ⟨content, -, hnode⟩ := exists_file_of_seeded hfs hf
    simp [hnode]
  refine ⟨fun f hf d hd hbegins => hfile f hf ?_, ?_⟩
  · have hdirectory : fs.nodeAt? (.ofString d) = some .directory := by
      rcases List.mem_cons.1 hd with rfl | hd
      · rw [Path.ofString_slash]
        exact h.tree.root
      · exact (isDirectory_seeded_iff hfs h.tree hd).1 (h.directory d hd)
    obtain ⟨below, hbelow⟩ := hbegins
    have hbelow : fs.nodeAt? ⟨(Path.ofString f.1).parts ++ below⟩ = some .directory := by
      rwa [hbelow]
    exact h.tree.directory_of_append hbelow
  · refine List.pairwise_of_forall_mem_list fun earlier hearlier later hlater hbelow => ?_
    obtain ⟨content, -, hnode⟩ := exists_file_of_seeded hfs hearlier
    have hmem : Path.ofString earlier.1 ∈ fs.entries.keys := by simp [mem_keys_iff_nodeAt?, hnode]
    exact hfile later hlater (h.tree.directory_of_isBelow hmem hbelow)

/-- When no file takes the place of a directory, everything is there that was given. -/
theorem SparesDirectories.fulfils (h : SparesDirectories directories files)
    (hfs : seeded clock directories files = .ok fs) : fs.Fulfils directories files := by
  have htree := h.isTree hfs
  refine ⟨htree, fun d hd => (isDirectory_seeded_iff hfs htree hd).2 ?_, fun f hf => ?_⟩
  · have hcontent : contentFor files (.ofString d) = none := by
      rw [contentFor_eq_none_iff]
      intro f hf hsame
      refine h.directory f hf d (List.mem_cons_of_mem _ hd) ?_
      rw [hsame]
    have hneeded : Needed directories files (.ofString d) :=
      .inl ⟨d, List.mem_cons_of_mem _ hd, List.prefix_refl _⟩
    rw [nodeAt?_seeded hfs, nodeGiven?, hcontent]
    exact if_pos hneeded
  · obtain ⟨content, hcontent, hnode⟩ := exists_file_of_seeded hfs hf
    obtain ⟨mode, modified, he⟩ := nodeAt?_eq_some_iff.1 hnode
    refine ⟨content, hcontent, ?_⟩
    rw [read, lookup_eq_ok_iff.2 ⟨htree.follow_eq hnode (by simp), he⟩]
    rfl

/-- **What a new file system comes to**, for any directories and files. When it is made, it is what
was asked for exactly if no file was put where a directory has to stand; and as long as that is
spared, making it fails only for a file that is to lie below one that was given before. -/
theorem seeded_fulfils_iff (clock : Clock) (directories : List String)
    (files : List (String × Content)) :
    (∀ fs, seeded clock directories files = .ok fs →
      (fs.Fulfils directories files ↔ SparesDirectories directories files)) ∧
    (SparesDirectories directories files →
      ((∃ fs, seeded clock directories files = .ok fs) ↔
        files.Pairwise fun earlier later =>
          ¬ (Path.ofString later.1).isBelow (.ofString earlier.1))) :=
  ⟨fun _ hfs => ⟨fun h => h.sparesDirectories hfs, fun h => h.fulfils hfs⟩,
    fun h => h.exists_seeded_iff⟩

/-- Two texts mean one path beside a directory that is given: what is given last is read from both. -/
theorem seeded_fulfils_iff_spelled :
    ∃ fs, seeded ⟨0, 0⟩ ["/d/e"] [("/a/../b/f", .text "x"), ("b//f", .bytes [0x79])] = .ok fs ∧
      fs.Fulfils ["/d/e"] [("/a/../b/f", .text "x"), ("b//f", .bytes [0x79])] ∧
      contentFor [("/a/../b/f", .text "x"), ("b//f", .bytes [0x79])] (.ofString "/a/../b/f") =
        some "y" := by
  have hspares : SparesDirectories ["/d/e"] [("/a/../b/f", .text "x"), ("b//f", .bytes [0x79])] :=
    by decide +kernel
  obtain ⟨hfulfils, hmade⟩ :=
    seeded_fulfils_iff ⟨0, 0⟩ ["/d/e"] [("/a/../b/f", .text "x"), ("b//f", .bytes [0x79])]
  obtain ⟨fs, hfs⟩ := (hmade hspares).2 (by decide +kernel)
  exact ⟨fs, hfs, (hfulfils fs hfs).2 hspares, by cbv⟩

/-- A file takes the place of the directory that was given, or of the one that holds a file that was
given earlier. -/
theorem seeded_unfulfilled :
    (∃ fs, seeded ⟨0, 0⟩ ["/a"] [("/a", .text "x")] = .ok fs ∧ fs.isDirectory "/a" = false ∧
      ¬ fs.Fulfils ["/a"] [("/a", .text "x")]) ∧
    ∃ fs, seeded ⟨0, 0⟩ [] [("/./a/b", .text "x"), ("/a", .text "y")] = .ok fs ∧
      fs.read "/./a/b" = .error ⟨.notDirectory, "/a/b"⟩ ∧
      ¬ fs.Fulfils [] [("/./a/b", .text "x"), ("/a", .text "y")] := by
  constructor
  · have hmade : (seeded ⟨0, 0⟩ ["/a"] [("/a", .text "x")]).map (·.isDirectory "/a") =
        .ok false := by
      cbv
    rcases hfs : seeded ⟨0, 0⟩ ["/a"] [("/a", .text "x")] with e | fs
    · simp [hfs, Except.map] at hmade
    · have hfile : fs.isDirectory "/a" = false := by simpa [hfs, Except.map] using hmade
      refine ⟨fs, rfl, hfile, fun h => ?_⟩
      simp [h.directory "/a" (by simp)] at hfile
  · have hmade : (seeded ⟨0, 0⟩ [] [("/./a/b", .text "x"), ("/a", .text "y")]).map
        (·.read "/./a/b") = .ok (.error ⟨.notDirectory, "/a/b"⟩) := by
      cbv
    rcases hfs : seeded ⟨0, 0⟩ [] [("/./a/b", .text "x"), ("/a", .text "y")] with e | fs
    · simp [hfs, Except.map] at hmade
    · have hread : fs.read "/./a/b" = .error ⟨.notDirectory, "/a/b"⟩ := by
        simpa [hfs, Except.map] using hmade
      refine ⟨fs, rfl, hread, fun h => ?_⟩
      obtain ⟨content, -, hcontent⟩ := h.read ("/./a/b", .text "x") (by simp)
      rw [hread] at hcontent
      cases hcontent

end VirtualShell.FileSystem
