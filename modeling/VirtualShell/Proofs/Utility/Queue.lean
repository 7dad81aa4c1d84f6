import Mathlib.Data.List.Count
import VirtualShell.Proofs.FileSystem.Following
import VirtualShell.Proofs.Utility.Listing

/-!
# The directories that wait to be listed

`ls` keeps the directories that are still to be listed in a queue. At each turn it takes the first
one out and lists it, and when it goes down, the directories in this one wait in front of all
others. A link to a directory counts as one, so where a link leads back to a directory above it the
same directory comes into the queue again and again, under longer and longer names.

Still the queue gets empty. The path of a directory in the queue is resolved over some links to a
place. A directory that stands in this place is resolved over the same links, and stands further
down; any other is reached over a link, so one link more is resolved on its path. The number of
links is bounded, and how far down a place can be is bounded by the number of entries. `room` puts
both together. What `listDirectory` may go down is more than that, so it gives what the queue gives.

* `FileSystem.Resolves.append`, `FileSystem.Resolves.descend` — the path of a directory, with the name
  of one in it after it.
* `Utility.Listing.within_of_room` — how deep directories can be below another one.
* `Utility.Listing.turns` — turns of the queue.
* `Utility.Listing.exists_turns_listDirectory` — a directory and all in it are listed in some turns,
  and leave the rest of the queue as it was.
* **`Utility.Listing.queue_cases`** — the queue gets empty, unless an empty operand misleads it.
-/

namespace VirtualShell

namespace FileSystem

variable {fs : FileSystem} {path place inner : Path} {name : String} {n m : Nat}

/-! ## Paths of directories in others -/

/-- **The way to a place goes on** from there with the names after it, unless a file stands there. -/
theorem Resolves.append {stage stage' : Stage} (h : fs.Resolves true stage n stage')
    (hnames : stage'.names = []) (hplace : ∀ content, fs.nodeAt? stage'.place ≠ some (.file content))
    {rest : List String} (hrest : rest ≠ []) (last : Bool) :
    fs.Resolves last ⟨stage.place, stage.names ++ rest⟩ n ⟨stage'.place, rest⟩ := by
  induction h with
  | refl stage =>
    rw [hnames, List.nil_append]
    exact .refl _
  | @enter place name before n stage' henters h ih =>
    refine .enter ⟨fun target hlink => ?_, fun content hfile => ?_⟩ (ih hnames hplace)
    · obtain ⟨hlast, -⟩ := henters.link target hlink
      cases hlast
    · -- a file is entered at the end only, and then it is the place
      obtain rfl := henters.file content hfile
      obtain ⟨-, rfl⟩ := h.eq_of_isOver (.inl rfl)
      exact absurd hfile (hplace content)
  | link hlink _ _ ih =>
    have hstage := ih hnames hplace
    rw [List.append_assoc] at hstage
    exact .link hlink (.inr (by simp [hrest])) hstage

/-- **A directory in another one** is resolved over the same links and stands in it, or more links
are resolved on the way. -/
theorem Resolves.descend (h : fs.Resolves true ⟨.root, path.parts⟩ n ⟨place, []⟩)
    (hplace : fs.nodeAt? place = some .directory)
    (h' : fs.Resolves true ⟨.root, (path.child name).parts⟩ m ⟨inner, []⟩) :
    (n ≤ m ∧ inner = place.child name) ∨ n < m := by
  have hfile (content : String) : fs.nodeAt? place ≠ some (.file content) := by simp [hplace]
  have happend : fs.Resolves true ⟨.root, (path.child name).parts⟩ n ⟨place, [name]⟩ :=
    h.append rfl hfile (List.cons_ne_nil _ _) true
  rcases fs.enters_or true place name [] with henters | ⟨target, hlink, hlast⟩ | ⟨_, -, hrest⟩
  · have hend := happend.trans (.enter henters (.refl _))
    have hsame : (⟨inner, []⟩ : Stage) = ⟨place.child name, []⟩ :=
      h'.unique (.inl rfl) hend (.inl rfl)
    exact .inl ⟨h'.le_of_isOver (.inl rfl) hend, congrArg Stage.place hsame⟩
  · exact .inr (h'.le_of_isOver (.inl rfl) (happend.trans (.link hlink hlast (.refl _))))
  · exact absurd rfl hrest

/-! ## How far down -/

/-- How many entries there are below a path. -/
def below (fs : FileSystem) (p : Path) : Nat := fs.entries.keys.countP (·.isBelow p)

/-- **Further down there are fewer entries** below. -/
theorem below_child_lt (hchild : place.child name ∈ fs.entries.keys) :
    fs.below (place.child name) < fs.below place := by
  have hdown (p : Path) (h : p.isBelow (place.child name) = true) : p.isBelow place = true := by
    rw [Path.isBelow_iff] at h ⊢
    refine ⟨(List.prefix_append _ _).trans h.1, ?_⟩
    rintro rfl
    have hlength := h.1.length_le
    simp [Path.child] at hlength
  have hkept : fs.below (place.child name) =
      (fs.entries.keys.filter (·.isBelow place)).countP (·.isBelow (place.child name)) := by
    rw [List.countP_filter, below]
    refine List.countP_congr fun p _ => ?_
    rw [Bool.and_eq_true, iff_self_and]
    exact hdown p
  have hall : fs.below place = (fs.entries.keys.filter (·.isBelow place)).length :=
    List.countP_eq_length_filter
  rw [hkept, hall, List.countP_lt_length_iff]
  refine ⟨place.child name, List.mem_filter.2 ⟨hchild, ?_⟩, ?_⟩
  · exact Path.isBelow_child_iff.2 (List.prefix_refl _)
  · simp [Path.isBelow]

/-- Nothing is below itself. -/
theorem below_lt (hplace : place ∈ fs.entries.keys) : fs.below place < fs.entries.keys.length :=
  List.countP_lt_length_iff.2 ⟨place, hplace, by simp [Path.isBelow]⟩

/-- **How far a listing can go down** from a place that is reached over some links: for each link
that may still be resolved, past all entries once. -/
def room (fs : FileSystem) (links : Nat) (place : Path) : Nat :=
  (maxLinks - links) * (fs.entries.keys.length + 1) + fs.below place

theorem room_inner_lt (hlinks : m ≤ maxLinks) (hkey : inner ∈ fs.entries.keys)
    (h : (n ≤ m ∧ inner = place.child name) ∨ n < m) : fs.room m inner < fs.room n place := by
  rw [room, room]
  rcases h with ⟨hle, rfl⟩ | hlt
  · have hbelow := below_child_lt hkey
    have hmono : (maxLinks - m) * (fs.entries.keys.length + 1) ≤
        (maxLinks - n) * (fs.entries.keys.length + 1) := Nat.mul_le_mul_right _ (by omega)
    omega
  · have hbelow := below_lt hkey
    have hmore : (maxLinks - n) * (fs.entries.keys.length + 1) =
        (maxLinks - n - 1) * (fs.entries.keys.length + 1) + (fs.entries.keys.length + 1) := by
      rw [← Nat.succ_mul, Nat.succ_eq_add_one, Nat.sub_add_cancel (by omega)]
    have hmono : (maxLinks - m) * (fs.entries.keys.length + 1) ≤
        (maxLinks - n - 1) * (fs.entries.keys.length + 1) := Nat.mul_le_mul_right _ (by omega)
    omega

theorem room_lt (hkey : place ∈ fs.entries.keys) (links : Nat) :
    fs.room links place < Utility.Listing.maxDepth fs - 1 := by
  have hbelow := below_lt hkey
  have hmono : (maxLinks - links) * (fs.entries.keys.length + 1) ≤
      maxLinks * (fs.entries.keys.length + 1) := Nat.mul_le_mul_right _ (by omega)
  rw [room, Utility.Listing.maxDepth, Nat.succ_mul]
  omega

end FileSystem

namespace Utility.Listing

variable {call : Call} {files : FileSystem} {s : Settings} {withHeaders : Bool} {shown : String}

/-! ## Directories in a listing -/

/-- **A directory is shown** under a name whose path is resolved over some links to a place. -/
structure Shows (call : Call) (files : FileSystem) (shown : String) (links : Nat) (place : Path) :
    Prop where
  bound : links ≤ maxLinks
  resolves : files.Resolves true ⟨.root, (Path.ofString (pathOf call shown)).parts⟩ links ⟨place, []⟩
  directory : files.nodeAt? place = some .directory

theorem isDirectory_iff_shows : files.isDirectory (pathOf call shown) = true ↔
    ∃ links place, Shows call files shown links place := by
  rw [FileSystem.isDirectory_eq_true_iff]
  simp only [FileSystem.follow_eq_ok_iff]
  constructor
  · rintro ⟨place, ⟨links, hbound, hresolves⟩, hdirectory⟩
    exact ⟨links, place, hbound, hresolves, hdirectory⟩
  · rintro ⟨links, place, hbound, hresolves, hdirectory⟩
    exact ⟨place, ⟨links, hbound, hresolves⟩, hdirectory⟩

theorem Shows.mem_keys {links : Nat} {place : Path} (h : Shows call files shown links place) :
    place ∈ files.entries.keys := by
  rw [FileSystem.mem_keys_iff_nodeAt?, h.directory]
  simp

/-- The name under which a directory in another one is shown. -/
def innerName (shown name : String) : String := Text.dropSlashes shown ++ "/" ++ name

theorem innerName_ne_empty (shown name : String) : innerName shown name ≠ "" :=
  slash_ne_empty _ _

/-- **The name of a directory in another one** means it, unless the other one has no name. -/
theorem ofString_innerName {name : String} (hname : Path.IsName name) (hshown : shown ≠ "") :
    Path.ofString (pathOf call (innerName shown name)) =
      (Path.ofString (pathOf call shown)).child name := by
  rw [ofString_pathOf, ofString_pathOf, innerName, Path.resolve_inner hname hshown]

theorem pathAt_eq {name : String} (hname : Path.IsName name) (hshown : shown ≠ "") :
    pathAt (pathOf call shown) name = pathOf call (innerName shown name) := by
  rw [pathAt, Path.resolve_name hname, ← ofString_innerName hname hshown, ofString_pathOf, pathOf]

/-- **From a directory with a name**, every directory in it has less room to go down. -/
theorem Shows.inner {links : Nat} {place : Path} (h : Shows call files shown links place)
    (hfiles : ∀ p ∈ files.entries.keys, p.IsNormal) (hshown : shown ≠ "") {name : String}
    (hinner : Inner call s files shown name) :
    ∃ links' place', Shows call files (innerName shown name) links' place' ∧
      files.room links' place' < files.room links place := by
  have hname := hinner.isName hfiles
  obtain ⟨-, -, -, -, hdirectory⟩ := hinner
  rw [pathAt_eq hname hshown] at hdirectory
  obtain ⟨links', place', hshows⟩ := isDirectory_iff_shows.1 hdirectory
  have hresolves := hshows.resolves
  rw [ofString_innerName hname hshown] at hresolves
  exact ⟨links', place', hshows, FileSystem.room_inner_lt hshows.bound hshows.mem_keys
    (h.resolves.descend h.directory hresolves)⟩

/-! ## How deep directories are -/

/-- **Directories are shown in one another** less than so many levels deep. -/
def Within (call : Call) (s : Settings) (files : FileSystem) : (depth : Nat) → String → Prop
  | 0, _ => False
  | depth + 1, shown =>
    ∀ name, Inner call s files shown name → Within call s files depth (innerName shown name)

/-- What is no directory has none in it. -/
theorem Inner.isDirectory {name : String} (h : Inner call s files shown name) :
    files.isDirectory (pathOf call shown) = true := by
  obtain ⟨names, hlist, -⟩ := h
  by_contra hdirectory
  obtain ⟨e, he⟩ := exists_list_error hdirectory
  rw [hlist] at he
  cases he

/-- **The room there is** bounds how deep directories are. -/
theorem within_of_room (hfiles : ∀ p ∈ files.entries.keys, p.IsNormal) (hshown : shown ≠ "")
    {links : Nat} {place : Path} (h : Shows call files shown links place) {depth : Nat}
    (hroom : files.room links place < depth) : Within call s files depth shown := by
  induction depth generalizing shown links place with
  | zero => exact absurd hroom (Nat.not_lt_zero _)
  | succ depth ih =>
    intro name hinner
    obtain ⟨links', place', hshows, hless⟩ := h.inner hfiles hshown hinner
    exact ih (innerName_ne_empty _ _) hshows (by omega)

/-- **No directory is too deep** to be listed: neither those in one with a name nor those to which
the names in one without a name lead. -/
theorem within_maxDepth (hfiles : ∀ p ∈ files.entries.keys, p.IsNormal) (call : Call) (s : Settings)
    (shown : String) : Within call s files (maxDepth files) shown := by
  obtain ⟨depth, hdepth⟩ : ∃ depth, maxDepth files = depth + 2 := ⟨maxDepth files - 2, by
    rw [maxDepth, maxLinks]
    omega⟩
  have hnamed (shown : String) (hshown : shown ≠ "") : Within call s files (depth + 1) shown := by
    by_cases hdirectory : files.isDirectory (pathOf call shown) = true
    · obtain ⟨links, place, hshows⟩ := isDirectory_iff_shows.1 hdirectory
      have hroom := FileSystem.room_lt hshows.mem_keys links
      exact within_of_room hfiles hshown hshows (by omega)
    · exact fun name hinner => absurd hinner.isDirectory hdirectory
  rw [hdepth]
  exact fun name _ => hnamed _ (innerName_ne_empty _ _)

/-! ## The queue -/

/-- What was written, and the directories that wait, under the names under which they are shown. -/
structure Queue where
  page : Page
  waiting : List String

/-- **A directory is listed**: what is written then, and the directories that are to be listed
next. -/
def visit (call : Call) (s : Settings) (withHeaders : Bool) (page : Page) (shown : String) :
    UtilityAction (Page × List String) := do
  let full := pathOf call shown
  let names ← ask (·.list full)
  let names := if s.hidden then names else names.filter fun name => !name.startsWith "."
  let header := (if page.2 then "" else "\n") ++ shown ++ ":\n"
  let lines ← names.mapM fun name => line call.host s name (pathAt full name)
  let written := page.1 ++ (if withHeaders then header else "") ++ String.join lines
  if s.recursive then
    let files ← get
    let inner := names.filter fun name => files.isDirectory (pathAt full name)
    return ((written, false), inner.map (innerName shown))
  else return ((written, false), [])

/-- **One turn**: the first directory that waits is listed, and those in it wait before all others. -/
def turn (call : Call) (s : Settings) (withHeaders : Bool) (q : Queue) : UtilityAction Queue :=
  match q.waiting with
  | [] => return q
  | shown :: rest => do
    let (page, inner) ← visit call s withHeaders q.page shown
    return ⟨page, inner ++ rest⟩

/-- Some turns. -/
def turns (call : Call) (s : Settings) (withHeaders : Bool) : Nat → Queue → UtilityAction Queue
  | 0, q => return q
  | n + 1, q => do turns call s withHeaders n (← turn call s withHeaders q)

/-- The queue in the beginning: the operands that are files are written, and those that are
directories wait. -/
def queued (call : Call) (s : Settings) (names : List String) : UtilityAction Queue := do
  let operands := sortOperands call s (← get) names
  let lines ← operands.files.mapM fun name => line call.host s name (pathOf call name)
  return ⟨(String.join lines, operands.files.isEmpty), operands.directories⟩

theorem turn_cons (page : Page) (rest : List String) :
    turn call s withHeaders ⟨page, shown :: rest⟩ = (do
      let (page, inner) ← visit call s withHeaders page shown
      return ⟨page, inner ++ rest⟩) := rfl

theorem listDirectory_succ (depth : Nat) (page : Page) :
    listDirectory call s withHeaders (depth + 1) page shown = (do
      let (page, inner) ← visit call s withHeaders page shown
      inner.foldlM (listDirectory call s withHeaders depth) page) := by
  have hinner : (fun name => Text.dropSlashes shown ++ "/" ++ name) = innerName shown := rfl
  rw [listDirectory, visit, hinner]
  cases s.recursive <;> simp

theorem quiet_visit (call : Call) (s : Settings) (withHeaders : Bool) (page : Page)
    (shown : String) : Quiet (visit call s withHeaders page shown) := by
  refine (quiet_ask _).bind fun names => ?_
  refine (quiet_mapM (fun name => quiet_line _ _ _ _) _).bind fun lines => ?_
  dsimp only
  split
  · exact quiet_get.bind fun _ => quiet_pure _
  · exact quiet_pure _

theorem turns_add (n m : Nat) (q : Queue) : turns call s withHeaders (n + m) q =
    turns call s withHeaders n q >>= turns call s withHeaders m := by
  induction n generalizing q with
  | zero => simp [turns]
  | succ n ih => simp [Nat.succ_add, turns, ih]

/-- **The directories that are listed next** are those that are gone down into. -/
theorem exists_inner_of_visit {page page' : Page} {inner : List String}
    (h : (visit call s withHeaders page shown files).1 = .ok (page', inner)) {other : String}
    (hmem : other ∈ inner) :
    s.recursive = true ∧ ∃ name, Inner call s files shown name ∧ innerName shown name = other := by
  rw [visit, bind_apply, ask_apply] at h
  rcases hlist : files.list (pathOf call shown) with e | names <;> rw [hlist] at h
  · cases h
  simp only [Except.mapError] at h
  generalize hvisible : (if s.hidden then names else names.filter fun name => !name.startsWith ".") =
    visible at h
  have hsome (name : String) (hname : name ∈ visible) :
      name ∈ names ∧ (s.hidden ∨ ¬ name.startsWith ".") := by
    subst hvisible
    cases hhidden : s.hidden <;> simp_all
  have hquiet := quiet_mapM
    (fun name => quiet_line call.host s name (pathAt (pathOf call shown) name)) visible
  rcases hquiet.cases files with ⟨lines, hlines⟩ | ⟨f, hlines⟩
  swap
  · rw [bind_apply_of_error hlines] at h
    cases h
  rw [bind_apply_of_ok hlines] at h
  split at h
  · next hrecursive =>
    rw [bind_apply_of_ok (get_apply files)] at h
    cases h
    obtain ⟨name, hname, rfl⟩ := List.mem_map.1 hmem
    obtain ⟨hvisible, hdirectory⟩ := List.mem_filter.1 hname
    obtain ⟨hname, hhidden⟩ := hsome name hvisible
    exact ⟨hrecursive, name, ⟨names, hlist, hname, hhidden, hdirectory⟩, rfl⟩
  · cases h
    cases hmem

/-! ## Runs of the queue -/

/-- **Some turns list** what stands in front of the queue: they write what an action writes, or break
as it does, and the rest of the queue waits as it did. -/
def Lists (call : Call) (s : Settings) (withHeaders : Bool) (files : FileSystem) (page : Page)
    (front : List String) (x : UtilityAction Page) : Prop :=
  ∃ n, ∀ rest, turns call s withHeaders n ⟨page, front ++ rest⟩ files =
    (x >>= fun page => pure ⟨page, rest⟩) files

/-- Directories are listed one after the other. -/
theorem lists_foldlM {f : Page → String → UtilityAction Page} {front : List String}
    (hquiet : ∀ page shown, Quiet (f page shown))
    (h : ∀ shown ∈ front, ∀ page, Lists call s withHeaders files page [shown] (f page shown))
    (page : Page) : Lists call s withHeaders files page front (front.foldlM f page) := by
  induction front generalizing page with
  | nil => exact ⟨0, fun rest => rfl⟩
  | cons shown front ih =>
    obtain ⟨n, hfirst⟩ := h shown List.mem_cons_self page
    rcases (hquiet page shown).cases files with ⟨page', hrun⟩ | ⟨e, hrun⟩
    · obtain ⟨m, hothers⟩ := ih (fun other hother => h other (List.mem_cons_of_mem _ hother)) page'
      refine ⟨n + m, fun rest => ?_⟩
      have hgoes := hfirst (front ++ rest)
      rw [bind_apply_of_ok hrun] at hgoes
      rw [List.foldlM_cons, bind_assoc, bind_apply_of_ok hrun, turns_add, ← hothers rest]
      exact bind_apply_of_ok hgoes _
    · refine ⟨n, fun rest => ?_⟩
      have hbreaks := hfirst (front ++ rest)
      rw [bind_apply_of_error hrun] at hbreaks
      rw [List.foldlM_cons, bind_assoc, bind_apply_of_error hrun]
      exact hbreaks

/-- **A directory and all in it** are listed by some turns of the queue, unless they are too deep. -/
theorem lists_listDirectory {depth : Nat} (h : Within call s files depth shown) (page : Page) :
    Lists call s withHeaders files page [shown]
      (listDirectory call s withHeaders depth page shown) := by
  induction depth generalizing shown page with
  | zero => exact h.elim
  | succ depth ih =>
    have hturn (rest : List String) (n : Nat) :
        turns call s withHeaders (n + 1) ⟨page, [shown] ++ rest⟩ = (do
          let (page, inner) ← visit call s withHeaders page shown
          turns call s withHeaders n ⟨page, inner ++ rest⟩) := by
      simp [turns, turn_cons]
    rw [listDirectory_succ]
    rcases (quiet_visit call s withHeaders page shown).cases files with
      ⟨⟨page', inner⟩, hvisit⟩ | ⟨e, hvisit⟩
    · obtain ⟨n, hinner⟩ := lists_foldlM (quiet_listDirectory call s withHeaders depth)
        (fun other hother page => by
          obtain ⟨-, name, hname, rfl⟩ :=
            exists_inner_of_visit (congrArg Prod.fst hvisit) hother
          exact ih (h name hname) page) page'
      refine ⟨n + 1, fun rest => ?_⟩
      rw [hturn, bind_assoc, bind_apply_of_ok hvisit, bind_apply_of_ok hvisit]
      exact hinner rest
    · refine ⟨1, fun rest => ?_⟩
      rw [hturn, bind_assoc, bind_apply_of_error hvisit, bind_apply_of_error hvisit]

theorem quiet_turn (call : Call) (s : Settings) (withHeaders : Bool) (q : Queue) :
    Quiet (turn call s withHeaders q) := by
  rw [turn]
  split
  · exact quiet_pure q
  · exact (quiet_visit _ _ _ _ _).bind fun _ => quiet_pure _

/-- **One turn**: what waits then keeps a property that directories hand on to those in them. -/
theorem waiting_of_turn {p : String → Prop}
    (hinner : ∀ shown, p shown → s.recursive = true →
      ∀ name, Inner call s files shown name → p (innerName shown name))
    {q q' : Queue} (hq : ∀ shown ∈ q.waiting, p shown)
    (h : (turn call s withHeaders q files).1 = .ok q') : ∀ shown ∈ q'.waiting, p shown := by
  rcases q with ⟨page, _ | ⟨shown, rest⟩⟩
  · cases h
    exact hq
  rw [turn_cons] at h
  have hshown : p shown := hq shown List.mem_cons_self
  rcases hvisit : visit call s withHeaders page shown files with ⟨e | ⟨page', inner⟩, next⟩
  · rw [bind_apply_of_error hvisit] at h
    cases h
  · rw [bind_apply_of_ok hvisit] at h
    cases h
    intro other hother
    rcases List.mem_append.1 hother with hother | hother
    · obtain ⟨hrecursive, name, hname, rfl⟩ :=
        exists_inner_of_visit (congrArg Prod.fst hvisit) hother
      exact hinner shown hshown hrecursive name hname
    · exact hq other (List.mem_cons_of_mem _ hother)

/-- **Any number of turns.** -/
theorem waiting_of_turns {p : String → Prop}
    (hinner : ∀ shown, p shown → s.recursive = true →
      ∀ name, Inner call s files shown name → p (innerName shown name))
    {n : Nat} {q q' : Queue} (hq : ∀ shown ∈ q.waiting, p shown)
    (h : (turns call s withHeaders n q files).1 = .ok q') : ∀ shown ∈ q'.waiting, p shown := by
  induction n generalizing q with
  | zero =>
    cases h
    exact hq
  | succ n ih =>
    rw [turns] at h
    rcases (quiet_turn call s withHeaders q).cases files with ⟨middle, hturn⟩ | ⟨e, hturn⟩
    · rw [bind_apply_of_ok hturn] at h
      exact ih (waiting_of_turn hinner hq (congrArg Prod.fst hturn)) h
    · rw [bind_apply_of_error hturn] at h
      cases h

/-- An empty queue stays as it is. -/
theorem turns_of_empty (n : Nat) (page : Page) :
    turns call s withHeaders n ⟨page, []⟩ = pure ⟨page, []⟩ := by
  induction n with
  | zero => rfl
  | succ n ih => rw [turns, turn, pure_bind, ih]

/-! ## The utility -/

/-- What is said of the operands that are missing. -/
def Operands.complaints (operands : Operands) : Outcome :=
  operands.missing.foldl (fun o name =>
    complain o ("ls: cannot access '" ++ name ++ "': " ++ FileErrorKind.notFound.message) 2)
    Outcome.success

theorem run_apply (files : FileSystem) {names : List String}
    (hread : readArguments ⟨false, false, false, false⟩ call.arguments = .ok (s, names)) :
    let operands := if names.isEmpty then ["."] else names
    run call files = (queued call s operands >>= fun q =>
      q.waiting.foldlM (listDirectory call s (operands.length > 1 || s.recursive) (maxDepth files))
        q.page >>= fun page =>
          pure (write (sortOperands call s files operands).complaints page.1)) files := by
  intro operands
  rw [run, hread, queued]
  dsimp only
  rw [bind_assoc, bind_apply_of_ok (get_apply files), bind_apply_of_ok (get_apply files)]
  simp only [bind_assoc, pure_bind]
  rfl

/-- **An empty operand leads the queue astray**: directories are gone down into from it, and one of
their names leads nowhere. -/
structure Strays (call : Call) (s : Settings) (files : FileSystem) (names : List String) : Prop where
  mem : "" ∈ names
  recursive : s.recursive = true
  listed : s.directoriesThemselves = false
  misleads : Misleads call s files

/-- A listing breaks when it is led astray, and only then. -/
theorem breaksAt_run_iff_strays (hfiles : ∀ p ∈ files.entries.keys, p.IsNormal)
    {names : List String}
    (hread : readArguments ⟨false, false, false, false⟩ call.arguments = .ok (s, names)) :
    BreaksAt files (run call) ↔ Strays call s files names := by
  rw [breaksAt_run hfiles]
  constructor
  · rintro ⟨s', names', hread', hmem, hrecursive, hlisted, hmisleads⟩
    rw [hread] at hread'
    cases hread'
    exact ⟨hmem, hrecursive, hlisted, hmisleads⟩
  · rintro ⟨hmem, hrecursive, hlisted, hmisleads⟩
    exact ⟨s, names, hread, hmem, hrecursive, hlisted, hmisleads⟩

/-- The operands that are directories wait in the beginning. -/
theorem exists_queued (call : Call) (s : Settings) (files : FileSystem) (names : List String) :
    ∃ page, queued call s names files =
      (.ok ⟨page, (sortOperands call s files names).directories⟩, files) := by
  have hlines : ¬ BreaksAt files ((sortOperands call s files names).files.mapM fun name =>
      line call.host s name (pathOf call name)) := by
    rw [breaksAt_mapM fun name => quiet_line _ _ _ _]
    rintro ⟨name, hname, hbreaks⟩
    simp only [sortOperands, List.mem_filter, Bool.not_not, Bool.and_eq_true] at hname
    exact not_breaksAt_line (FileSystem.exists_statLink hname.2.1) hbreaks
  obtain ⟨lines, hlines⟩ := not_breaksAt_iff.1 hlines
  have hsame := quiet_mapM (fun name => quiet_line call.host s name (pathOf call name))
    (sortOperands call s files names).files files
  refine ⟨(String.join lines, (sortOperands call s files names).files.isEmpty), ?_⟩
  rw [queued, bind_apply_of_ok (get_apply files), bind_apply_of_ok (Prod.ext hlines hsame)]
  rfl

/-- **The turns come to an end**: from some turn on nothing waits, or that turn has broken. -/
theorem turns_end (hfiles : ∀ p ∈ files.entries.keys, p.IsNormal) (call : Call) (s : Settings)
    (withHeaders : Bool) (page : Page) (directories : List String) :
    ∃ n, ∀ m ≥ n, turns call s withHeaders m ⟨page, directories⟩ files =
      (directories.foldlM (listDirectory call s withHeaders (maxDepth files)) page >>=
        fun page => pure ⟨page, []⟩) files := by
  have hquiet (page : Page) (shown : String) :
      Quiet (listDirectory call s withHeaders (maxDepth files) page shown) :=
    quiet_listDirectory _ _ _ _ _ _
  have hall : Lists call s withHeaders files page directories _ := lists_foldlM hquiet
    (fun shown _ page => lists_listDirectory (within_maxDepth hfiles call s shown) page) page
  obtain ⟨n, hlists⟩ := hall
  have hend := hlists []
  rw [List.append_nil] at hend
  refine ⟨n, fun m hm => ?_⟩
  rw [← Nat.add_sub_cancel' hm, turns_add, ← hend]
  rcases (quiet_foldlM hquiet page directories).cases files with ⟨last, hfold⟩ | ⟨f, hfold⟩
  · rw [bind_apply_of_ok hfold] at hend
    rw [bind_apply_of_ok hend, turns_of_empty, hend]
  · rw [bind_apply_of_error hfold] at hend
    rw [bind_apply_of_error hend, hend]

/-- **The queue comes to what the listing comes to**: it is empty after some turns and what was
written then is what is listed, or a turn breaks as the listing does. -/
theorem queue_ends (hfiles : ∀ p ∈ files.entries.keys, p.IsNormal) {names : List String}
    (hread : readArguments ⟨false, false, false, false⟩ call.arguments = .ok (s, names)) :
    let operands := if names.isEmpty then ["."] else names
    let queue (n : Nat) :=
      (queued call s operands >>= turns call s (operands.length > 1 || s.recursive) n) files
    (∃ n page, (∀ m ≥ n, queue m = (.ok ⟨page, []⟩, files)) ∧ run call files =
      (.ok (write (sortOperands call s files operands).complaints page.1), files)) ∨
    ∃ n f, (∀ m ≥ n, queue m = (.error f, files)) ∧ run call files = (.error f, files) := by
  intro operands queue
  obtain ⟨page, hqueued⟩ := exists_queued call s files operands
  have hqueue (n : Nat) : queue n = turns call s (operands.length > 1 || s.recursive) n
      ⟨page, (sortOperands call s files operands).directories⟩ files := bind_apply_of_ok hqueued _
  have hrun := run_apply files hread
  dsimp only at hrun
  rw [bind_apply_of_ok hqueued] at hrun
  obtain ⟨n, hend⟩ := turns_end hfiles call s (operands.length > 1 || s.recursive) page
    (sortOperands call s files operands).directories
  have hquiet := quiet_foldlM (quiet_listDirectory call s (operands.length > 1 || s.recursive)
    (maxDepth files)) page (sortOperands call s files operands).directories
  simp only [hqueue]
  rcases hquiet.cases files with ⟨last, hfold⟩ | ⟨f, hfold⟩
  · rw [bind_apply_of_ok hfold] at hrun
    exact .inl ⟨n, last, fun m hm => (hend m hm).trans (bind_apply_of_ok hfold _), hrun⟩
  · rw [bind_apply_of_error hfold] at hrun
    exact .inr ⟨n, f, fun m hm => (hend m hm).trans (bind_apply_of_error hfold _), hrun⟩

/-- **What waits are directories**, unless an empty operand leads the queue astray. -/
theorem isDirectory_of_turns (hfiles : ∀ p ∈ files.entries.keys, p.IsNormal) {names : List String}
    (hstrays : ¬ Strays call s files names) {n : Nat} {page : Page} {q : Queue}
    (h : (turns call s withHeaders n ⟨page, (sortOperands call s files
      (if names.isEmpty then ["."] else names)).directories⟩ files).1 = .ok q) :
    ∀ shown ∈ q.waiting, files.isDirectory (pathOf call shown) = true := by
  intro shown hshown
  refine (waiting_of_turns (p := fun shown => files.isDirectory (pathOf call shown) = true ∧
    (shown = "" → s.recursive = true → ¬ Misleads call s files)) ?_ ?_ h shown hshown).1
  · rintro shown ⟨hdirectory, hempty⟩ hrecursive name hinner
    refine ⟨?_, fun h => absurd h (innerName_ne_empty shown name)⟩
    by_cases hshown : shown = ""
    · subst hshown
      by_contra hmissing
      exact hempty rfl hrecursive ⟨name, hinner, by simpa [innerName, Text.dropSlashes] using hmissing⟩
    · have hname := hinner.isName hfiles
      obtain ⟨-, -, -, -, hdirectory⟩ := hinner
      rwa [← pathAt_eq hname hshown]
  · intro shown hshown
    simp only [sortOperands, List.mem_filter, Bool.and_eq_true, Bool.not_eq_true'] at hshown
    obtain ⟨hmem, -, hdirectory, hlisted⟩ := hshown
    refine ⟨hdirectory, ?_⟩
    rintro rfl hrecursive hmisleads
    refine hstrays ⟨?_, hrecursive, hlisted, hmisleads⟩
    cases names with
    | nil => simp at hmem
    | cons => simpa using hmem

/-- **The queue of `ls` gets empty** after some turns, on every table of files, whatever links lead
where, and what was written then is what is listed. Every directory that comes into the queue is
resolved over forty links at most. Only an empty operand can lead astray: where directories are gone
down into from it, and one of their names leads nowhere at the root, a turn breaks, and so does
the listing. -/
theorem queue_cases (hfiles : ∀ p ∈ files.entries.keys, p.IsNormal) (call : Call)
    {names : List String}
    (hread : readArguments ⟨false, false, false, false⟩ call.arguments = .ok (s, names)) :
    let operands := if names.isEmpty then ["."] else names
    let queue (n : Nat) :=
      (queued call s operands >>= turns call s (operands.length > 1 || s.recursive) n) files
    (¬ Strays call s files names →
      (∃ n page, (∀ m ≥ n, queue m = (.ok ⟨page, []⟩, files)) ∧ run call files =
        (.ok (write (sortOperands call s files operands).complaints page.1), files)) ∧
      ∀ n q, queue n = (.ok q, files) → ∀ shown ∈ q.waiting,
        ∃ links ≤ 40, ∃ place, files.nodeAt? place = some .directory ∧
          files.Resolves true ⟨.root, (Path.ofString (pathOf call shown)).parts⟩ links
            ⟨place, []⟩) ∧
    (Strays call s files names →
      ∃ n f, (∀ m ≥ n, queue m = (.error f, files)) ∧ run call files = (.error f, files)) := by
  intro operands queue
  have hbreaks := breaksAt_run_iff_strays hfiles hread
  constructor
  · intro hstrays
    constructor
    · rcases queue_ends hfiles hread with hend | ⟨n, f, -, hrun⟩
      · exact hend
      · exact absurd (hbreaks.1 ⟨f, congrArg Prod.fst hrun⟩) hstrays
    · intro n q hq shown hshown
      obtain ⟨page, hqueued⟩ := exists_queued call s files operands
      have hturns := (bind_apply_of_ok hqueued _).symm.trans hq
      have hdirectory := isDirectory_of_turns hfiles hstrays (congrArg Prod.fst hturns) shown hshown
      obtain ⟨links, place, hshows⟩ := isDirectory_iff_shows.1 hdirectory
      exact ⟨links, hshows.bound, place, hshows.directory, hshows.resolves⟩
  · intro hstrays
    rcases queue_ends hfiles hread with ⟨n, page, -, hrun⟩ | hend
    · obtain ⟨f, hf⟩ := hbreaks.2 hstrays
      rw [hrun] at hf
      cases hf
    · exact hend

/-- A directory with a link to itself. -/
def looped : FileSystem :=
  (FileSystem.Change.makeLink "/d" "/d/l").apply
    ((FileSystem.Change.makeDirectory "/d" false).apply (.ofClock ⟨0, 0⟩))

/-- The link is gone down into as long as its path can be resolved. -/
theorem queue_cases_looped :
    let call : Call := ⟨["-R"], "", "/d", .empty, .bare⟩
    let s : Settings := ⟨false, false, false, true⟩
    (∀ p ∈ looped.entries.keys, p.IsNormal) ∧
    readArguments ⟨false, false, false, false⟩ call.arguments = .ok (s, []) ∧
    ∃ n page, ∀ m ≥ n,
      (queued call s ["."] >>= turns call s true m) looped = (.ok ⟨page, []⟩, looped) := by
  intro call s
  have hkeys : ∀ p ∈ looped.entries.keys, p.IsNormal := by decide +kernel
  have hread : readArguments ⟨false, false, false, false⟩ call.arguments = .ok (s, []) := by cbv
  have hstrays : ¬ Strays call s looped [] := fun h => by cases h.mem
  obtain ⟨⟨n, page, hempty, -⟩, -⟩ := (queue_cases hkeys call hread).1 hstrays
  exact ⟨hkeys, hread, n, page, hempty⟩

/-- **An empty operand leads the queue astray.** The link is shown as if it stood at the root, where
there is none. -/
theorem queue_strays :
    let call : Call := ⟨["-R", ""], "", "/d", .empty, .bare⟩
    let s : Settings := ⟨false, false, false, true⟩
    readArguments ⟨false, false, false, false⟩ call.arguments = .ok (s, [""]) ∧
    ¬ ∃ n page, (queued call s [""] >>= turns call s true n) looped = (.ok ⟨page, []⟩, looped) := by
  intro call s
  have hread : readArguments ⟨false, false, false, false⟩ call.arguments = .ok (s, [""]) := by cbv
  refine ⟨hread, ?_⟩
  rintro ⟨n, page, h⟩
  have hqueued : queued call s [""] looped = (.ok ⟨("", true), [""]⟩, looped) := by cbv
  have hfirst : turn call s true ⟨("", true), [""]⟩ looped =
      (.ok ⟨(":\nl\n", false), ["/l"]⟩, looped) := by cbv
  have hbreaks : turn call s true ⟨(":\nl\n", false), ["/l"]⟩ looped =
      (.error (.files ⟨.notFound, "/l"⟩), looped) := by cbv
  have hempty := congrArg Prod.fst ((bind_apply_of_ok hqueued _).symm.trans h)
  rcases n with _ | _ | n
  · cases hempty
  · rw [turns, bind_apply_of_ok hfirst] at hempty
    cases hempty
  · rw [turns, bind_apply_of_ok hfirst, turns, bind_apply_of_error hbreaks] at hempty
    cases hempty

end Utility.Listing

end VirtualShell
