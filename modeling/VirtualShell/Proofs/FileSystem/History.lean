import Mathlib
import VirtualShell.FileSystem.Change
import VirtualShell.Proofs.FileSystem.Tree

/-!
# Histories of files

Files are changed one operation after another, and each of them may fail. A tree of files stays a
tree through all of this, with two exceptions. Removing the root with all that is in it removes the
root as well; and a file that is written through a link is put where the link leads, also when the
directory it would stand in is missing.

* `FileSystem.landing`, `FileSystem.Strands` — where a file is written, and when no directory holds
  that path.
* `FileSystem.Change` — an operation with its arguments; `FileSystem.Change.Uproots` — the two
  exceptions.
* `FileSystem.Change.isTree_apply_iff` — what one operation makes of a tree.
* `FileSystem.Becomes` — some operations, one after another.
* `FileSystem.Becomes.hasNormalPaths` — they leave normal paths normal, the exceptions included.
* **`FileSystem.IsTree.along_iff_careful`** — a history leaves trees, whose paths are all found by
  listing, exactly when none of its operations is one of the exceptions.
-/

namespace VirtualShell.FileSystem

variable {α β : Type} {fs : FileSystem}

/-! ## Acting on files -/

theorem bind_apply (x : FileAction α) (f : α → FileAction β) (fs : FileSystem) :
    (x >>= f) fs =
      match x fs with
      | (.ok a, next) => f a next
      | (.error e, next) => (.error e, next) := by
  simp only [bind, ExceptT.bind, ExceptT.mk, StateT.bind]
  rcases x fs with ⟨_ | _, _⟩ <;> rfl

theorem get_apply (fs : FileSystem) : (get : FileAction FileSystem) fs = (.ok fs, fs) := rfl

theorem modify_apply (f : FileSystem → FileSystem) (fs : FileSystem) :
    (modify f : FileAction Unit) fs = (.ok (), f fs) := rfl

theorem pure_apply (a : α) (fs : FileSystem) : (pure a : FileAction α) fs = (.ok a, fs) := rfl

theorem throw_apply (e : FileError) (fs : FileSystem) :
    (throw e : FileAction α) fs = (.error e, fs) := rfl

theorem ask_apply (question : FileSystem → Except FileError α) (fs : FileSystem) :
    ask question fs = (question fs, fs) := by
  rw [ask, bind_apply, get_apply]
  dsimp only
  cases question fs <;> rfl

theorem make_apply (p : Path) (node : Node) (fs : FileSystem) :
    make p node fs = (.ok (), fs.place p node) := rfl

/-- **One action after another** succeeds when both of them do. -/
theorem bind_apply_eq_ok_iff {x : FileAction α} {f : α → FileAction β} {b : β}
    {later : FileSystem} : (x >>= f) fs = (.ok b, later) ↔
      ∃ a next, x fs = (.ok a, next) ∧ f a next = (.ok b, later) := by
  rw [bind_apply]
  rcases x fs with ⟨e | a, next⟩
  · constructor
    · intro h
      cases h
    · rintro ⟨_, _, h, -⟩
      cases h
  · constructor
    · intro h
      exact ⟨a, next, rfl, h⟩
    · rintro ⟨_, _, h, hrest⟩
      cases h
      exact hrest

/-- **Actions on the items of a list** succeed when each of them does. -/
theorem forM_cons_eq_ok_iff {f : α → FileAction Unit} {a : α} {rest : List α}
    {later : FileSystem} : (a :: rest).forM f fs = (.ok (), later) ↔
      ∃ next, f a fs = (.ok (), next) ∧ rest.forM f next = (.ok (), later) := by
  rw [List.forM_eq_forM, List.forM_cons, bind_apply_eq_ok_iff]
  exact ⟨fun ⟨_, next, h⟩ => ⟨next, h⟩, fun ⟨next, h⟩ => ⟨(), next, h⟩⟩

theorem forM_concat_eq_ok_iff {f : α → FileAction Unit} {a : α} {before : List α}
    {later : FileSystem} : (before ++ [a]).forM f fs = (.ok (), later) ↔
      ∃ next, before.forM f fs = (.ok (), next) ∧ f a next = (.ok (), later) := by
  induction before generalizing fs with
  | nil =>
    rw [List.nil_append, forM_cons_eq_ok_iff]
    constructor
    · rintro ⟨next, ha, hnext⟩
      cases hnext
      exact ⟨fs, rfl, ha⟩
    · rintro ⟨next, hnext, ha⟩
      cases hnext
      exact ⟨later, ha, rfl⟩
  | cons b before ih =>
    rw [List.cons_append, forM_cons_eq_ok_iff]
    simp only [ih, forM_cons_eq_ok_iff]
    constructor
    · rintro ⟨middle, hb, next, hbefore, ha⟩
      exact ⟨next, ⟨middle, hb, hbefore⟩, ha⟩
    · rintro ⟨next, ⟨middle, hb, hbefore⟩, ha⟩
      exact ⟨middle, hb, next, hbefore, ha⟩

/-! ## Where entries are made -/

theorem bind_eq_ok_iff {x : Except FileError α} {f : α → Except FileError β} {b : β} :
    (x >>= f) = .ok b ↔ ∃ a, x = .ok a ∧ f a = .ok b := by
  cases x <;> simp [bind, Except.bind]

/-- **What a path leads to** is the entry at the end of its way. -/
theorem lookup_eq_ok_iff {text : String} {last : Bool} {p : Path} {e : Entry} :
    fs.lookup text last = .ok (p, e) ↔
      fs.follow (.ofString text) last = .ok p ∧ fs.entryAt? p = some e := by
  rw [lookup, bind_eq_ok_iff]
  constructor
  · rintro ⟨q, hfollow, hentry⟩
    split at hentry
    · next he =>
      cases hentry
      exact ⟨hfollow, he⟩
    · cases hentry
  · rintro ⟨hfollow, he⟩
    exact ⟨p, hfollow, by rw [he]; rfl⟩

/-- The path at which an entry is made or removed, once its directory is known. -/
def removedAt (directory : Path) (text : String) : Path :=
  match (Path.ofString text).name? with
  | some name => directory.child name
  | none => .root

theorem removedAt_eq_root_iff {directory : Path} {text : String} :
    removedAt directory text = .root ↔ Path.ofString text = .root := by
  rw [removedAt, ← @Path.name?_eq_none_iff (Path.ofString text)]
  cases (Path.ofString text).name? with
  | none => simp
  | some name => simp [Path.child_ne_root]

/-- **Where a file is written**: the path at which a new entry of the name is made, and where a link
at that path leads. -/
def landing (fs : FileSystem) (text : String) : Except FileError Path := do
  let p ← fs.placeFor text
  fs.follow p true

/-- A new entry is made in a directory that is found. -/
theorem exists_of_placeFor {text : String} {p : Path} (h : fs.placeFor text = .ok p) :
    ∃ directory, fs.follow (Path.ofString text).parent true = .ok directory ∧
      fs.nodeAt? directory = some .directory ∧ p = removedAt directory text := by
  obtain ⟨directory, hfollow, hplace⟩ := bind_eq_ok_iff.1 h
  refine ⟨directory, hfollow, ?_⟩
  split at hplace
  · cases hplace
  · next mode modified hentry =>
    refine ⟨nodeAt?_eq_some_iff.2 ⟨mode, modified, hentry⟩, ?_⟩
    rw [removedAt]
    cases hname : (Path.ofString text).name? with
    | none =>
      rw [hname] at hplace
      cases hplace
      rfl
    | some name =>
      rw [hname] at hplace
      cases hplace
      rfl
  · cases hplace

/-- A new entry is made at a normal path, in a directory that is there. -/
theorem placeFor_spec {text : String} {p : Path} (h : fs.placeFor text = .ok p) :
    p.IsNormal ∧ (p ≠ .root → fs.nodeAt? p.parent = some .directory) := by
  have hnormal : (Path.ofString text).IsNormal := Path.isNormal_ofString text
  obtain ⟨directory, hfollow, hdir, rfl⟩ := exists_of_placeFor h
  rw [removedAt]
  cases hname : (Path.ofString text).name? with
  | none => exact ⟨Path.isNormal_root, fun hroot => absurd rfl hroot⟩
  | some name =>
    refine ⟨(isNormal_of_follow hnormal.parent hfollow).child (hnormal.name? hname), fun _ => ?_⟩
    rwa [Path.parent_child]

theorem isNormal_of_landing {text : String} {p : Path} (h : fs.landing text = .ok p) :
    p.IsNormal := by
  obtain ⟨q, hplace, hfollow⟩ := bind_eq_ok_iff.1 h
  exact isNormal_of_follow (placeFor_spec hplace).1 hfollow

/-! ## Writing -/

/-- **What writing comes to**, with where the file lands. -/
theorem write_apply (fs : FileSystem) (text content : String) :
    write text content fs =
      match fs.landing text with
      | .error e => (.error e, fs)
      | .ok p =>
        match fs.entryAt? p with
        | some ⟨.directory, _, _⟩ => (.error ⟨.isDirectory, text⟩, fs)
        | some ⟨.file _, mode, _⟩ =>
          (.ok (), ⟨fs.entries.insert p ⟨.file content, mode, fs.clock.now⟩, fs.clock.next⟩)
        | _ => (.ok (), fs.place p (.file content)) := by
  rw [write, bind_apply, ask_apply]
  cases hplace : fs.placeFor text with
  | error e =>
    have hlanding : fs.landing text = .error e := by simp [landing, hplace, bind, Except.bind]
    rw [hlanding]
  | ok q =>
    have hlanding : fs.landing text = fs.follow q true := by
      simp [landing, hplace, bind, Except.bind]
    dsimp only
    rw [bind_apply, ask_apply, hlanding]
    cases fs.follow q true with
    | error e => rfl
    | ok p =>
      dsimp only
      rw [bind_apply, get_apply]
      dsimp only
      cases fs.entryAt? p with
      | none => rfl
      | some e =>
        obtain ⟨node, mode, modified⟩ := e
        cases node <;> rfl

/-- **What writing does**: nothing where it fails, and otherwise a file is put where it lands. -/
theorem write_cases (fs : FileSystem) (text content : String) :
    ((∀ p, fs.landing text = .ok p → fs.nodeAt? p = some .directory) ∧
      (write text content fs).2 = fs) ∨
    ∃ p e clock, fs.landing text = .ok p ∧ fs.nodeAt? p ≠ some .directory ∧
      e.node = .file content ∧ (write text content fs).2 = ⟨fs.entries.insert p e, clock⟩ := by
  rw [write_apply]
  cases hlanding : fs.landing text with
  | error e => exact .inl ⟨nofun, rfl⟩
  | ok p =>
    dsimp only
    cases hentry : fs.entryAt? p with
    | none => exact .inr ⟨p, _, _, rfl, by simp [nodeAt?, hentry], rfl, rfl⟩
    | some e =>
      obtain ⟨node, mode, modified⟩ := e
      cases node with
      | directory =>
        refine .inl ⟨?_, rfl⟩
        intro q hq
        cases hq
        exact nodeAt?_eq_some_iff.2 ⟨mode, modified, hentry⟩
      | file old => exact .inr ⟨p, _, _, rfl, by simp [nodeAt?, hentry], rfl, rfl⟩
      | link target => exact .inr ⟨p, _, _, rfl, by simp [nodeAt?, hentry], rfl, rfl⟩

/-- **Writing puts a file in the void**: no directory holds the path at which it lands. -/
def Strands (fs : FileSystem) (text : String) : Prop :=
  ∃ p, fs.landing text = .ok p ∧ p ≠ .root ∧ fs.nodeAt? p.parent ≠ some .directory

instance (fs : FileSystem) (text : String) : Decidable (fs.Strands text) :=
  decidable_of_iff ((fs.landing text).toOption.any fun p =>
      p ≠ .root ∧ fs.nodeAt? p.parent ≠ some .directory) <| by
    cases hlanding : fs.landing text <;> simp [Strands, hlanding, Except.toOption]

/-- A tree stays a tree when a file is written, unless the file lands in the void. -/
theorem isTree_write_iff (h : fs.IsTree) (text content : String) :
    (write text content fs).2.IsTree ↔ ¬ fs.Strands text := by
  rcases write_cases fs text content with ⟨hlanding, hsame⟩ | ⟨p, e, clock, hp, hdir, he, hnext⟩
  · rw [hsame]
    refine ⟨?_, fun _ => h⟩
    rintro - ⟨p, hp, hroot, hparent⟩
    have hmem : p ∈ fs.entries.keys := by simp [mem_keys_iff_nodeAt?, hlanding p hp]
    exact hparent (h.parent p hmem hroot)
  · have hroot : p ≠ .root := fun hroot => hdir (hroot ▸ h.root)
    rw [hnext]
    constructor
    · rintro htree ⟨q, hq, -, hparent⟩
      obtain rfl : p = q := by simpa [hp] using hq
      have hmem : p ∈ (fs.entries.insert p e).keys := by simp [Table.mem_keys_iff]
      have hkept := htree.parent p hmem hroot
      rw [nodeAt?_insert, if_neg (Ne.symm (Path.parent_ne_self hroot))] at hkept
      exact hparent hkept
    · intro hstrands
      refine h.insert e clock (isNormal_of_landing hp) (fun _ => ?_) (fun hp => absurd hp hdir)
      by_contra hparent
      exact hstrands ⟨p, hp, hroot, hparent⟩

theorem hasNormalPaths_write (h : fs.HasNormalPaths) (text content : String) :
    (write text content fs).2.HasNormalPaths := by
  rcases write_cases fs text content with ⟨-, hsame⟩ | ⟨p, e, clock, hp, -, -, hnext⟩
  · rwa [hsame]
  · rw [hnext]
    exact h.insert e clock (isNormal_of_landing hp)

/-- Something stands at the end of a path, or on the way to it, that keeps it from being read. -/
def Unreadable (fs : FileSystem) (text : String) : Prop :=
  ∃ e, fs.read text = .error e ∧ e.kind ≠ .notFound

instance (fs : FileSystem) (text : String) : Decidable (fs.Unreadable text) :=
  decidable_of_iff
    ((match fs.read text with | .ok _ => false | .error e => e.kind != .notFound) = true) <| by
    cases hread : fs.read text <;> simp [Unreadable, hread]

theorem append_of_unreadable {text : String} (h : fs.Unreadable text) (content : String) :
    (append text content fs).2 = fs := by
  obtain ⟨⟨kind, place⟩, hread, hkind⟩ := h
  rw [append, bind_apply, get_apply]
  dsimp only
  rw [hread]
  cases kind <;> first | rfl | exact absurd rfl hkind

/-- What can be read, and what is missing, is written with the content at its end. -/
theorem append_of_not_unreadable {text : String} (h : ¬ fs.Unreadable text) (content : String) :
    ∃ whole, append text content fs = write text whole fs := by
  rw [append, bind_apply, get_apply]
  dsimp only
  cases hread : fs.read text with
  | ok old => exact ⟨_, rfl⟩
  | error e =>
    obtain ⟨kind, place⟩ := e
    have hkind : kind = .notFound := by
      by_contra hkind
      exact h ⟨_, hread, hkind⟩
    subst hkind
    exact ⟨content, rfl⟩

/-- A tree stays a tree when a file is extended, unless it is written in the void. -/
theorem isTree_append_iff (h : fs.IsTree) (text content : String) :
    (append text content fs).2.IsTree ↔ ¬ (fs.Strands text ∧ ¬ fs.Unreadable text) := by
  by_cases hread : fs.Unreadable text
  · simpa [append_of_unreadable hread, hread] using h
  · obtain ⟨whole, hwrite⟩ := append_of_not_unreadable hread content
    simp [hwrite, isTree_write_iff h, hread]

theorem hasNormalPaths_append (h : fs.HasNormalPaths) (text content : String) :
    (append text content fs).2.HasNormalPaths := by
  by_cases hread : fs.Unreadable text
  · rwa [append_of_unreadable hread]
  · obtain ⟨whole, hwrite⟩ := append_of_not_unreadable hread content
    rw [hwrite]
    exact hasNormalPaths_write h text whole

/-! ## Making entries -/

/-- **A new entry leaves a tree.** It is made where nothing stands, in a directory that is there. -/
theorem isTree_place (h : fs.IsTree) {text : String} {p : Path} (hp : fs.placeFor text = .ok p)
    (hfree : fs.entryAt? p = none) (node : Node) : (fs.place p node).IsTree := by
  obtain ⟨hnormal, hparent⟩ := placeFor_spec hp
  refine h.insert _ _ hnormal hparent ?_
  rw [nodeAt?_eq_none_iff.2 hfree]
  nofun

/-- Make an entry at a path where nothing stands. -/
def makeAt (text message : String) (node : Node) : FileAction Unit := do
  let p ← ask (·.placeFor text)
  if ((← get).entryAt? p).isSome then throw ⟨.alreadyExists, message⟩
  make p node

theorem makeLink_eq (target text : String) : makeLink target text = makeAt text text (.link target) :=
  rfl

theorem makeDirectory_eq (text : String) :
    makeDirectory text false = makeAt (Path.ofString text).render text .directory := rfl

/-- **What making an entry does**: nothing where it fails, and otherwise the entry is placed. -/
theorem makeAt_cases (fs : FileSystem) (text message : String) (node : Node) :
    (makeAt text message node fs).2 = fs ∨
    ∃ p, fs.placeFor text = .ok p ∧ fs.entryAt? p = none ∧
      (makeAt text message node fs).2 = fs.place p node := by
  rw [makeAt, bind_apply, ask_apply]
  cases fs.placeFor text with
  | error e => exact .inl rfl
  | ok p =>
    dsimp only
    rw [bind_apply, get_apply]
    cases hentry : fs.entryAt? p with
    | some e => exact .inl (by simp [hentry, throw_apply])
    | none => exact .inr ⟨p, rfl, hentry, by simp [hentry, make_apply]⟩

theorem isTree_makeAt (h : fs.IsTree) (text message : String) (node : Node) :
    (makeAt text message node fs).2.IsTree := by
  rcases makeAt_cases fs text message node with hsame | ⟨p, hplace, hfree, hnext⟩
  · rwa [hsame]
  · rw [hnext]
    exact isTree_place h hplace hfree node

theorem hasNormalPaths_makeAt (h : fs.HasNormalPaths) (text message : String) (node : Node) :
    (makeAt text message node fs).2.HasNormalPaths := by
  rcases makeAt_cases fs text message node with hsame | ⟨p, hplace, -, hnext⟩
  · rwa [hsame]
  · rw [hnext]
    exact h.insert _ _ (placeFor_spec hplace).1

/-- **What making a directory comes to**, by what stands there: it is there, something else is, or it
is made as soon as those above it are. -/
theorem ensureNames_cases (name : String) (above : List String) (fs : FileSystem) :
    (fs.nodeAt? ⟨(name :: above).reverse⟩ = some .directory ∧
      ensureNames (name :: above) fs = (.ok (), fs)) ∨
    (∃ node e, fs.nodeAt? ⟨(name :: above).reverse⟩ = some node ∧ node ≠ .directory ∧
      e.kind = .alreadyExists ∧ ensureNames (name :: above) fs = (.error e, fs)) ∨
    fs.nodeAt? ⟨(name :: above).reverse⟩ = none ∧
      ((∃ e next, ensureNames above fs = (.error e, next) ∧
          ensureNames (name :: above) fs = (.error e, next)) ∨
        ∃ next, ensureNames above fs = (.ok (), next) ∧
          ensureNames (name :: above) fs =
            (.ok (), next.place ⟨(name :: above).reverse⟩ .directory)) := by
  rw [ensureNames, bind_apply, get_apply, nodeAt?]
  dsimp only
  cases fs.entryAt? ⟨(name :: above).reverse⟩ with
  | some e =>
    obtain ⟨node, mode, modified⟩ := e
    cases node with
    | directory => exact .inl ⟨rfl, rfl⟩
    | file content => exact .inr (.inl ⟨_, _, rfl, by simp, rfl, rfl⟩)
    | link target => exact .inr (.inl ⟨_, _, rfl, by simp, rfl, rfl⟩)
  | none =>
    refine .inr (.inr ⟨rfl, ?_⟩)
    dsimp only
    rw [bind_apply]
    rcases ensureNames above fs with ⟨e | ⟨⟨⟩⟩, next⟩
    · exact .inl ⟨e, next, rfl, rfl⟩
    · exact .inr ⟨next, rfl, rfl⟩

/-- **Making a directory with those above it**, the names backwards. Whether it fails or not, a tree
is left, and when it succeeds the directory stands there. -/
theorem ensureNames_spec (h : fs.IsTree) {names : List String}
    (hnames : ∀ name ∈ names, Path.IsName name) :
    (ensureNames names fs).2.IsTree ∧ ((ensureNames names fs).1 = .ok () →
      (ensureNames names fs).2.nodeAt? ⟨names.reverse⟩ = some .directory) := by
  induction names with
  | nil => exact ⟨h, fun _ => h.root⟩
  | cons name above ih =>
    obtain ⟨htree, hdir⟩ := ih fun n hn => hnames n (List.mem_cons_of_mem _ hn)
    rcases ensureNames_cases name above fs with ⟨hthere, hrun⟩ | ⟨node, e, -, -, -, hrun⟩ |
      ⟨-, ⟨e, next, habove, hrun⟩ | ⟨next, habove, hrun⟩⟩
    · rw [hrun]
      exact ⟨h, fun _ => hthere⟩
    · rw [hrun]
      exact ⟨h, nofun⟩
    · rw [habove] at htree
      rw [hrun]
      exact ⟨htree, nofun⟩
    · rw [habove] at htree hdir
      rw [hrun]
      have hchild : (⟨(name :: above).reverse⟩ : Path) = Path.child ⟨above.reverse⟩ name := by
        simp [Path.child]
      have hnormal : Path.IsNormal ⟨(name :: above).reverse⟩ :=
        fun n hn => hnames n (List.mem_reverse.1 hn)
      refine ⟨htree.insert _ _ hnormal (fun _ => ?_) (fun _ => rfl), fun _ => ?_⟩
      · rw [hchild, Path.parent_child]
        exact hdir rfl
      · rw [place, nodeAt?_insert, if_pos rfl]

theorem hasNormalPaths_ensureNames (h : fs.HasNormalPaths) {names : List String}
    (hnames : ∀ name ∈ names, Path.IsName name) : (ensureNames names fs).2.HasNormalPaths := by
  induction names with
  | nil => exact h
  | cons name above ih =>
    have habove := ih fun n hn => hnames n (List.mem_cons_of_mem _ hn)
    rcases ensureNames_cases name above fs with ⟨-, hrun⟩ | ⟨_, _, -, -, -, hrun⟩ |
      ⟨-, ⟨_, next, hnext, hrun⟩ | ⟨next, hnext, hrun⟩⟩
    · rwa [hrun]
    · rwa [hrun]
    · rw [hnext] at habove
      rwa [hrun]
    · rw [hnext] at habove
      rw [hrun]
      exact habove.insert _ _ fun n hn => hnames n (List.mem_reverse.1 hn)

theorem hasNormalPaths_ensureDirectory (h : fs.HasNormalPaths) {p : Path} (hp : p.IsNormal) :
    (ensureDirectory p fs).2.HasNormalPaths :=
  hasNormalPaths_ensureNames h fun name hname => hp name (List.mem_reverse.1 hname)

/-- A tree stays a tree when a directory is made. -/
theorem isTree_makeDirectory (h : fs.IsTree) (text : String) (withParents : Bool) :
    (makeDirectory text withParents fs).2.IsTree := by
  cases withParents with
  | true =>
    simp only [makeDirectory, if_true]
    rw [bind_apply, ask_apply]
    cases hfollow : fs.follow (.ofString text) true with
    | error e => exact h
    | ok p =>
      have hnormal := isNormal_of_follow (Path.isNormal_ofString text) hfollow
      have hnames : ∀ name ∈ p.parts.reverse, Path.IsName name :=
        fun name hname => hnormal name (List.mem_reverse.1 hname)
      exact (ensureNames_spec h hnames).1
  | false =>
    rw [makeDirectory_eq]
    exact isTree_makeAt h _ _ _

theorem hasNormalPaths_makeDirectory (h : fs.HasNormalPaths) (text : String) (withParents : Bool) :
    (makeDirectory text withParents fs).2.HasNormalPaths := by
  cases withParents with
  | true =>
    simp only [makeDirectory, if_true]
    rw [bind_apply, ask_apply]
    cases hfollow : fs.follow (.ofString text) true with
    | error e => exact h
    | ok p =>
      exact hasNormalPaths_ensureDirectory h
        (isNormal_of_follow (Path.isNormal_ofString text) hfollow)
  | false =>
    rw [makeDirectory_eq]
    exact hasNormalPaths_makeAt h _ _ _

/-- A tree stays a tree when a link is made, wherever it leads. -/
theorem isTree_makeLink (h : fs.IsTree) (target text : String) :
    (makeLink target text fs).2.IsTree := by
  rw [makeLink_eq]
  exact isTree_makeAt h _ _ _

/-- A tree stays a tree when permission bits are set. -/
theorem isTree_setMode (h : fs.IsTree) (text : String) (mode : Int) :
    (setMode text mode fs).2.IsTree := by
  rw [setMode, bind_apply, ask_apply]
  cases hlookup : fs.lookup text true with
  | error e => exact h
  | ok found =>
    obtain ⟨p, e⟩ := found
    have hentry : fs.entryAt? p = some e := (lookup_eq_ok_iff.1 hlookup).2
    have hmem : p ∈ fs.entries.keys := by simp [mem_keys_iff_nodeAt?, nodeAt?, hentry]
    refine h.insert _ _ (h.normal p hmem) (h.parent p hmem) ?_
    simp [nodeAt?, hentry]

theorem hasNormalPaths_setMode (h : fs.HasNormalPaths) (text : String) (mode : Int) :
    (setMode text mode fs).2.HasNormalPaths := by
  rw [setMode, bind_apply, ask_apply]
  cases hlookup : fs.lookup text true with
  | error e => exact h
  | ok found =>
    have hfollow := (lookup_eq_ok_iff.1 hlookup).1
    exact h.insert _ _ (isNormal_of_follow (Path.isNormal_ofString text) hfollow)

/-! ## Removing entries -/

theorem not_goesWith_root {p : Path} (hp : p ≠ .root) : goesWith p .root = false := by
  obtain ⟨parts⟩ := p
  cases parts with
  | nil => exact absurd rfl hp
  | cons name rest => simp [goesWith, Path.isBelow, Path.root]

/-- With an entry goes what its path is the beginning of. -/
theorem goesWith_or_eq_iff {p q : Path} :
    (goesWith p q || q == p) = true ↔ p.parts <+: q.parts := by
  rw [goesWith, Bool.or_eq_true, Bool.or_eq_true, Path.isBelow_iff, beq_iff_eq, beq_iff_eq]
  constructor
  · rintro ((⟨habove, -⟩ | rfl) | rfl)
    · exact habove
    · exact List.nil_prefix
    · exact List.prefix_refl _
  · intro habove
    by_cases heq : q = p
    · exact .inr heq
    · exact .inl (.inl ⟨habove, heq⟩)

/-- What lies in an entry that goes with a directory goes with it too. -/
theorem goesWith_of_parent {p q : Path} (h : (goesWith p q.parent || q.parent == p) = true) :
    (goesWith p q || q == p) = true := by
  rw [goesWith_or_eq_iff] at h ⊢
  exact h.trans (List.dropLast_prefix _)

/-- A directory other than the root may go with all that lies in it. -/
theorem isTree_drop_directory (h : fs.IsTree) {p : Path} (hp : p ≠ .root) :
    (fs.drop fun q => goesWith p q || q == p).IsTree := by
  refine h.keep _ _ ?_ fun q _ _ hstays => ?_
  · simp [not_goesWith_root hp, Ne.symm hp]
  · cases hgone : goesWith p q.parent || q.parent == p with
    | false => simp [hgone]
    | true => simp [goesWith_of_parent hgone] at hstays

/-- An entry that is no directory may go alone. -/
theorem isTree_drop_single (h : fs.IsTree) {p : Path} (hp : fs.nodeAt? p ≠ some .directory) :
    (fs.drop (· == p)).IsTree := by
  refine h.keep _ _ ?_ fun q hq hroot _ => ?_
  · have hne : p ≠ .root := fun heq => hp (heq ▸ h.root)
    simp [Ne.symm hne]
  · have hne : q.parent ≠ p := fun heq => hp (heq ▸ h.parent q hq hroot)
    simp [hne]

/-- Without the root there is no tree. -/
theorem not_isTree_drop_root : ¬ (fs.drop fun q => goesWith .root q || q == .root).IsTree := by
  intro htree
  have hroot := htree.root
  rw [drop, nodeAt?_keep] at hroot
  simp at hroot

/-- Remove what stands at a path itself. -/
def removeEntry (text : String) (recursive force : Bool) (p : Path) : FileAction Unit := do
  match (← get).entryAt? p with
  | none => if force then return else throw ⟨.notFound, text⟩
  | some ⟨.directory, _, _⟩ =>
    let inside := (← get).entries.keys.any (goesWith p)
    if inside && !recursive then throw ⟨.notEmpty, text⟩
    modify (drop fun q => goesWith p q || q == p)
  | some _ => if p ≠ .root then modify (drop (· == p))

theorem remove_apply {text : String} {directory : Path}
    (h : fs.follow (Path.ofString text).parent true = .ok directory) (recursive force : Bool) :
    remove text recursive force fs =
      removeEntry text recursive force (removedAt directory text) fs := by
  rw [remove, bind_apply, get_apply]
  dsimp only
  rw [h]
  rfl

theorem isTree_removeEntry_iff (h : fs.IsTree) (text : String) (recursive force : Bool) (p : Path) :
    (removeEntry text recursive force p fs).2.IsTree ↔ ¬ (recursive = true ∧ p = .root) := by
  rw [removeEntry, bind_apply, get_apply]
  dsimp only
  cases hentry : fs.entryAt? p with
  | none =>
    have hroot : p ≠ .root := by
      rintro rfl
      simpa [nodeAt?, hentry] using h.root
    cases force <;> simp [hroot, throw_apply, pure_apply, h]
  | some e =>
    obtain ⟨node, mode, modified⟩ := e
    by_cases hdir : node = .directory
    · subst hdir
      dsimp only
      rw [bind_apply, get_apply]
      dsimp only
      by_cases hroot : p = .root
      · subst hroot
        have hmem : .root ∈ fs.entries.keys := by simp [mem_keys_iff_nodeAt?, h.root]
        have hinside : fs.entries.keys.any (goesWith .root) = true :=
          List.any_eq_true.2 ⟨.root, hmem, rfl⟩
        cases recursive with
        | false => simpa [hinside, bind_apply, throw_apply] using h
        | true => simpa [hinside, modify_apply] using not_isTree_drop_root
      · have hgone := isTree_drop_directory h hroot
        split
        · simpa [hroot, bind_apply, throw_apply] using h
        · simpa [hroot, modify_apply] using hgone
    · have hsingle : fs.nodeAt? p ≠ some .directory := by simpa [nodeAt?, hentry] using hdir
      have hroot : p ≠ .root := fun heq => hsingle (heq ▸ h.root)
      have hgone := isTree_drop_single h hsingle
      cases node with
      | directory => exact absurd rfl hdir
      | file content => simpa [hroot, modify_apply] using hgone
      | link target => simpa [hroot, modify_apply] using hgone

/-- **What removing does**: nothing, or some entries go. -/
theorem remove_cases (fs : FileSystem) (text : String) (recursive force : Bool) :
    (remove text recursive force fs).2 = fs ∨
      ∃ gone, (remove text recursive force fs).2 = fs.drop gone := by
  cases hfollow : fs.follow (Path.ofString text).parent true with
  | error e =>
    rw [remove, bind_apply, get_apply]
    dsimp only
    rw [hfollow]
    cases force <;> exact .inl rfl
  | ok directory =>
    rw [remove_apply hfollow, removeEntry, bind_apply, get_apply]
    dsimp only
    rcases fs.entryAt? (removedAt directory text) with _ | ⟨_ | _ | _, _, _⟩
    case ok.none => cases force <;> exact .inl rfl
    case ok.some.directory =>
      dsimp only
      rw [bind_apply, get_apply]
      dsimp only
      split
      · exact .inl rfl
      · exact .inr ⟨_, rfl⟩
    all_goals
      dsimp only
      split
      · exact .inr ⟨_, rfl⟩
      · exact .inl rfl

theorem hasNormalPaths_remove (h : fs.HasNormalPaths) (text : String) (recursive force : Bool) :
    (remove text recursive force fs).2.HasNormalPaths := by
  rcases remove_cases fs text recursive force with hsame | ⟨gone, hnext⟩
  · rwa [hsame]
  · rw [hnext]
    exact h.keep _ _

/-- A tree stays a tree when an entry is removed, unless it is the root with all that is in it. -/
theorem isTree_remove_iff (h : fs.IsTree) (text : String) (recursive force : Bool) :
    (remove text recursive force fs).2.IsTree ↔
      ¬ (recursive = true ∧ Path.ofString text = .root) := by
  cases hfollow : fs.follow (Path.ofString text).parent true with
  | error e =>
    have hroot : Path.ofString text ≠ .root := by
      intro hroot
      rw [hroot] at hfollow
      cases hfollow
    rw [remove, bind_apply, get_apply]
    dsimp only
    rw [hfollow]
    cases force <;> simp [hroot, throw_apply, pure_apply, h]
  | ok directory =>
    rw [remove_apply hfollow, isTree_removeEntry_iff h, removedAt_eq_root_iff]

/-! ## Histories -/

/-- **An operation that changes files**, with its arguments. -/
inductive Change where
  | write (text content : String)
  | append (text content : String)
  | makeDirectory (text : String) (withParents : Bool)
  | remove (text : String) (recursive force : Bool)
  | makeLink (target text : String)
  | setMode (text : String) (mode : Int)
  deriving DecidableEq, Repr

namespace Change

/-- What an operation does. -/
def action : Change → FileAction Unit
  | write text content => FileSystem.write text content
  | append text content => FileSystem.append text content
  | makeDirectory text withParents => FileSystem.makeDirectory text withParents
  | remove text recursive force => FileSystem.remove text recursive force
  | makeLink target text => FileSystem.makeLink target text
  | setMode text mode => FileSystem.setMode text mode

/-- The files that an operation leaves, whether it succeeds or fails. -/
def apply (c : Change) (fs : FileSystem) : FileSystem := (c.action.run fs).2

/-- **The exceptions.** A file is written where no directory would hold it, or the root is removed
with all that is in it. -/
def Uproots (fs : FileSystem) : Change → Prop
  | write text _ => fs.Strands text
  | append text _ => fs.Strands text ∧ ¬ fs.Unreadable text
  | remove text recursive _ => recursive = true ∧ Path.ofString text = .root
  | makeDirectory _ _ | makeLink _ _ | setMode _ _ => False

instance (fs : FileSystem) : (c : Change) → Decidable (c.Uproots fs)
  | write text _ => inferInstanceAs (Decidable (fs.Strands text))
  | append text _ => inferInstanceAs (Decidable (fs.Strands text ∧ ¬ fs.Unreadable text))
  | remove text recursive _ =>
    inferInstanceAs (Decidable (recursive = true ∧ Path.ofString text = .root))
  | makeDirectory _ _ | makeLink _ _ | setMode _ _ => inferInstanceAs (Decidable False)

/-- **One operation.** It makes a tree of a tree, the exceptions and only they apart. -/
theorem isTree_apply_iff (h : fs.IsTree) (c : Change) : (c.apply fs).IsTree ↔ ¬ c.Uproots fs := by
  cases c with
  | write text content => exact isTree_write_iff h text content
  | append text content => exact isTree_append_iff h text content
  | makeDirectory text withParents =>
    exact ⟨fun _ => id, fun _ => isTree_makeDirectory h text withParents⟩
  | remove text recursive force => exact isTree_remove_iff h text recursive force
  | makeLink target text => exact ⟨fun _ => id, fun _ => isTree_makeLink h target text⟩
  | setMode text mode => exact ⟨fun _ => id, fun _ => isTree_setMode h text mode⟩

end Change

/-- **Operations leave normal paths normal**, also those that make no tree of a tree. -/
theorem HasNormalPaths.of_change (h : fs.HasNormalPaths) (c : Change) :
    (c.apply fs).HasNormalPaths := by
  cases c with
  | write text content => exact hasNormalPaths_write h text content
  | append text content => exact hasNormalPaths_append h text content
  | makeDirectory text withParents => exact hasNormalPaths_makeDirectory h text withParents
  | remove text recursive force => exact hasNormalPaths_remove h text recursive force
  | makeLink target text => exact hasNormalPaths_makeAt h text text (.link target)
  | setMode text mode => exact hasNormalPaths_setMode h text mode

/-- **Files become other ones** by operations, one after another. -/
def Becomes : FileSystem → FileSystem → Prop :=
  Relation.ReflTransGen fun fs later => ∃ c : Change, later = c.apply fs

namespace Becomes

theorem refl (fs : FileSystem) : fs.Becomes fs := Relation.ReflTransGen.refl

theorem of_change (c : Change) (fs : FileSystem) : fs.Becomes (c.apply fs) :=
  Relation.ReflTransGen.single ⟨c, rfl⟩

theorem of_eq {later : FileSystem} (h : later = fs) : fs.Becomes later := h ▸ refl fs

theorem trans {later last : FileSystem} (h : fs.Becomes later) (hlast : later.Becomes last) :
    fs.Becomes last :=
  Relation.ReflTransGen.trans h hlast

/-- **Normal paths stay normal.** -/
theorem hasNormalPaths {later : FileSystem} (h : fs.Becomes later) (hfs : fs.HasNormalPaths) :
    later.HasNormalPaths := by
  induction h with
  | refl => exact hfs
  | tail _ hstep ih =>
    obtain ⟨c, rfl⟩ := hstep
    exact ih.of_change c

end Becomes

/-- The files after each operation of a history. -/
def along (fs : FileSystem) : List Change → List FileSystem
  | [] => [fs]
  | c :: rest => fs :: (c.apply fs).along rest

/-- No operation of a history is an exception where it is run. -/
def Careful (fs : FileSystem) : List Change → Prop
  | [] => True
  | c :: rest => ¬ c.Uproots fs ∧ (c.apply fs).Careful rest

instance : (fs : FileSystem) → (history : List Change) → Decidable (fs.Careful history)
  | _, [] => .isTrue trivial
  | fs, c :: rest =>
    have := instDecidableCareful (c.apply fs) rest
    inferInstanceAs (Decidable (¬ c.Uproots fs ∧ (c.apply fs).Careful rest))

theorem isTree_along_iff (h : fs.IsTree) (history : List Change) :
    (∀ later ∈ fs.along history, later.IsTree) ↔ fs.Careful history := by
  induction history generalizing fs with
  | nil => simpa [along, Careful] using h
  | cons c rest ih =>
    rw [Careful, ← Change.isTree_apply_iff h]
    simp only [along, List.mem_cons, forall_eq_or_imp, h, true_and]
    constructor
    · intro hrest
      have hnext : (c.apply fs).IsTree := hrest _ (by cases rest <;> simp [along])
      exact ⟨hnext, (ih hnext).1 hrest⟩
    · rintro ⟨hnext, hrest⟩
      exact (ih hnext).2 hrest

/-- A path of a tree, as it is written, is that of an entry that is found by listing. -/
theorem IsTree.listed_of_mem_paths (h : fs.IsTree) {text : String} (htext : text ∈ fs.paths) :
    ∃ p, p.render = text ∧ fs.Listed p := by
  rw [paths, List.mem_mergeSort, List.mem_map] at htext
  obtain ⟨p, hp, rfl⟩ := htext
  exact ⟨p, rfl, h.listed hp⟩

/-- **Histories.** All files that a history leaves on its way from a tree are trees, in which every
path is found by listing directories from the root, exactly when none of its operations is one of
the exceptions. -/
theorem IsTree.along_iff_careful (h : fs.IsTree) (history : List Change) :
    (∀ later ∈ fs.along history,
      later.IsTree ∧ ∀ text ∈ later.paths, ∃ p, p.render = text ∧ later.Listed p) ↔
    fs.Careful history := by
  rw [← isTree_along_iff h]
  constructor
  · intro hall later hlater
    exact (hall later hlater).1
  · intro hall later hlater
    have htree := hall later hlater
    exact ⟨htree, fun _ => htree.listed_of_mem_paths⟩

/-- A file is written through a link, a link in a circle cannot be written, and the file goes. -/
theorem along_iff_careful_links :
    (ofClock ⟨0, 0⟩).IsTree ∧
      ∀ later ∈ (ofClock ⟨0, 0⟩).along
        [.makeLink "b/../f" "/l", .append "/l" "x", .makeLink "/c" "/c", .write "/c" "z",
          .remove "/f" true false],
        later.IsTree ∧ ∀ text ∈ later.paths, ∃ p, p.render = text ∧ later.Listed p :=
  ⟨isTree_ofClock ⟨0, 0⟩,
    ((isTree_ofClock ⟨0, 0⟩).along_iff_careful _).2 (of_decide_eq_true (by cbv))⟩

/-- A file that is written through a link to a missing directory stands in no directory, and with
the root everything is gone. -/
theorem not_isTree_along :
    (¬ ∀ later ∈ (ofClock ⟨0, 0⟩).along [.makeLink "/missing/file" "/link", .write "/link" "x"],
      later.IsTree) ∧
    ¬ ∀ later ∈ (ofClock ⟨0, 0⟩).along [.remove "/" true false], later.IsTree := by
  rw [isTree_along_iff (isTree_ofClock _), isTree_along_iff (isTree_ofClock _)]
  exact ⟨of_decide_eq_false (by cbv), of_decide_eq_false (by cbv)⟩

end VirtualShell.FileSystem
