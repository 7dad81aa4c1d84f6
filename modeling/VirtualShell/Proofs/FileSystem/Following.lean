import VirtualShell.FileSystem.Change
import VirtualShell.Proofs.FileSystem.Resolution

/-!
# Resolution step by step

Resolution enters the names of a path one by one; at a link it goes back to the root, with the names
of the target in the place of those up to the link. There is no bound on these steps, and links in a
circle keep it going for ever. What is done at a stage is determined by the table of files, so
resolution comes to one end at most: no name is left, or a file stands before names that are left.
Following links with a bound decides whether this end is reached over few enough links.

* `Stage` — how far resolution has come.
* `FileSystem.Resolves` — resolution leads from one stage to another over a number of links.
* `FileSystem.Resolves.linear` — of two stages one leads to the other.
* `FileSystem.Stands`, `FileSystem.Stands.resolves` — what is known of the place at every stage.
* **`FileSystem.follow_iff_resolves`** — what following links gives, on all tables of files.
-/

namespace VirtualShell

/-- **How far resolution has come**: the place that was reached, and the names that are still to be
followed from there. -/
structure Stage where
  place : Path
  names : List String
  deriving DecidableEq, Repr

namespace FileSystem

variable {fs : FileSystem} {last : Bool} {place : Path} {name : String} {rest : List String}
  {stage stage' : Stage} {n : Nat}

/-! ## Stages -/

/-- **A name is entered**: no link stands there that is to be resolved, and no file that has names
after it. A link at the very end is to be resolved only when `last` is set. -/
structure Enters (fs : FileSystem) (last : Bool) (place : Path) (name : String)
    (rest : List String) : Prop where
  link : ∀ target, fs.nodeAt? (place.child name) = some (.link target) → last = false ∧ rest = []
  file : ∀ content, fs.nodeAt? (place.child name) = some (.file content) → rest = []

/-- **Resolution** leads from one stage to another over a number of links. -/
inductive Resolves (fs : FileSystem) (last : Bool) : Stage → Nat → Stage → Prop
  | refl (stage : Stage) : Resolves fs last stage 0 stage
  | enter {place : Path} {name : String} {rest : List String} {n : Nat} {stage : Stage}
      (henters : fs.Enters last place name rest)
      (h : Resolves fs last ⟨place.child name, rest⟩ n stage) :
      Resolves fs last ⟨place, name :: rest⟩ n stage
  | link {place : Path} {name target : String} {rest : List String} {n : Nat} {stage : Stage}
      (hlink : fs.nodeAt? (place.child name) = some (.link target))
      (hlast : last = true ∨ rest ≠ [])
      (h : Resolves fs last ⟨.root, (place.resolve target).parts ++ rest⟩ n stage) :
      Resolves fs last ⟨place, name :: rest⟩ (n + 1) stage

/-- A file stands at the next name, and names follow it. -/
def Blocked (fs : FileSystem) (stage : Stage) : Prop :=
  ∃ name rest content, stage.names = name :: rest ∧ rest ≠ [] ∧
    fs.nodeAt? (stage.place.child name) = some (.file content)

/-- **Resolution is over**: no name is left, or a file blocks the way. -/
def IsOver (fs : FileSystem) (stage : Stage) : Prop := stage.names = [] ∨ fs.Blocked stage

/-- A name is entered, leads over a link, or is blocked. -/
theorem enters_or (fs : FileSystem) (last : Bool) (place : Path) (name : String)
    (rest : List String) : fs.Enters last place name rest ∨
      (∃ target, fs.nodeAt? (place.child name) = some (.link target) ∧
        (last = true ∨ rest ≠ [])) ∨
      ∃ content, fs.nodeAt? (place.child name) = some (.file content) ∧ rest ≠ [] := by
  cases hnode : fs.nodeAt? (place.child name) with
  | none => exact .inl ⟨by simp [hnode], by simp [hnode]⟩
  | some node =>
    cases node with
    | directory => exact .inl ⟨by simp [hnode], by simp [hnode]⟩
    | file content =>
      by_cases hrest : rest = []
      · exact .inl ⟨by simp [hnode], fun _ _ => hrest⟩
      · exact .inr (.inr ⟨content, rfl, hrest⟩)
    | link target =>
      by_cases hend : last = false ∧ rest = []
      · exact .inl ⟨fun _ _ => hend, by simp [hnode]⟩
      · refine .inr (.inl ⟨target, rfl, ?_⟩)
        cases last with
        | true => exact .inl rfl
        | false => exact .inr fun hrest => hend ⟨rfl, hrest⟩

namespace Resolves

theorem trans {middle : Stage} {m : Nat} (h : fs.Resolves last stage m middle)
    (h' : fs.Resolves last middle n stage') : fs.Resolves last stage (m + n) stage' := by
  induction h with
  | refl => simpa using h'
  | enter henters _ ih => exact .enter henters (ih h')
  | @link _ _ _ _ m _ hlink hlast _ ih =>
    rw [show m + 1 + n = m + n + 1 by omega]
    exact .link hlink hlast (ih h')

/-- **What is done at a stage is determined**, so of two stages that resolution comes to from a third
one, one leads to the other. -/
theorem linear {start : Stage} {m : Nat} (h : fs.Resolves last start n stage)
    (h' : fs.Resolves last start m stage') :
    (∃ k, m = n + k ∧ fs.Resolves last stage k stage') ∨
      ∃ k, n = m + k ∧ fs.Resolves last stage' k stage := by
  induction h generalizing m with
  | refl => exact .inl ⟨m, by omega, h'⟩
  | enter henters h ih =>
    cases h' with
    | refl => exact .inr ⟨_, by omega, .enter henters h⟩
    | enter _ h' => exact ih h'
    | link hlink hlast =>
      obtain ⟨rfl, rfl⟩ := henters.link _ hlink
      simp at hlast
  | @link place name target rest n stage hlink hlast h ih =>
    cases h' with
    | refl => exact .inr ⟨n + 1, by omega, .link hlink hlast h⟩
    | enter henters =>
      obtain ⟨rfl, rfl⟩ := henters.link _ hlink
      simp at hlast
    | @link _ _ target' _ m _ hlink' _ h' =>
      obtain rfl : target' = target := by simpa [hlink] using hlink'.symm
      rcases ih h' with ⟨k, rfl, hk⟩ | ⟨k, rfl, hk⟩
      · exact .inl ⟨k, by omega, hk⟩
      · exact .inr ⟨k, by omega, hk⟩

/-- When resolution is over nothing follows. -/
theorem eq_of_isOver (h : fs.Resolves last stage n stage') (hover : fs.IsOver stage) :
    n = 0 ∧ stage' = stage := by
  cases h with
  | refl => exact ⟨rfl, rfl⟩
  | enter henters =>
    rcases hover with hnil | ⟨_, _, content, hnames, hrest, hfile⟩
    · cases hnil
    · cases hnames
      exact absurd (henters.file content hfile) hrest
  | link hlink =>
    rcases hover with hnil | ⟨_, _, content, hnames, -, hfile⟩
    · cases hnil
    · cases hnames
      simp [hlink] at hfile

/-- **All stages come before the end.** -/
theorem le_of_isOver {start : Stage} {m : Nat} (h : fs.Resolves last start n stage)
    (hover : fs.IsOver stage) (h' : fs.Resolves last start m stage') : m ≤ n := by
  rcases h.linear h' with ⟨k, rfl, hk⟩ | ⟨k, rfl, -⟩
  · obtain ⟨rfl, -⟩ := hk.eq_of_isOver hover
    omega
  · omega

/-- **There is one end at most.** -/
theorem unique {start : Stage} {m : Nat} (h : fs.Resolves last start n stage)
    (hover : fs.IsOver stage) (h' : fs.Resolves last start m stage') (hover' : fs.IsOver stage') :
    stage = stage' := by
  rcases h.linear h' with ⟨k, -, hk⟩ | ⟨k, -, hk⟩
  · exact (hk.eq_of_isOver hover).2.symm
  · exact (hk.eq_of_isOver hover').2

/-- On an open way the names are entered. -/
theorem of_open {before : List String} (h : fs.Open ⟨place.parts ++ before⟩) :
    fs.Resolves last ⟨place, before ++ rest⟩ 0 ⟨⟨place.parts ++ before⟩, rest⟩ := by
  induction before generalizing place with
  | nil => simpa using Resolves.refl _
  | cons name before ih =>
    have hparts : place.parts ++ name :: before = (place.child name).parts ++ before := by
      simp [Path.child]
    rw [hparts] at h ⊢
    have hnode := h (place.child name) (List.prefix_append _ _) (place.child_ne_root name)
    refine .enter ⟨fun target hlink => ?_, fun content hfile => ?_⟩ (ih h)
    · simp [hlink] at hnode
    · simp [hfile] at hnode

end Resolves

/-! ## The place that was reached -/

/-- **What is known of the place at a stage.** Nothing but directories stands on the way to it, where
anything does, and if names are left, none but a directory stands at the place. No link stands there
when the last one is to be resolved. The root is not looked at. -/
structure Stands (fs : FileSystem) (last : Bool) (stage : Stage) : Prop where
  above : fs.Open stage.place.parent
  onward : stage.names ≠ [] → fs.Open stage.place
  link : last = true → stage.place ≠ .root → ∀ target, fs.nodeAt? stage.place ≠ some (.link target)

theorem stands_root (fs : FileSystem) (last : Bool) (names : List String) :
    fs.Stands last ⟨.root, names⟩ where
  above := open_root
  onward _ := open_root
  link _ hroot := absurd rfl hroot

/-- **Every step** keeps what is known of the place. -/
theorem Stands.resolves (hstands : fs.Stands last stage) (h : fs.Resolves last stage n stage') :
    fs.Stands last stage' := by
  induction h with
  | refl => exact hstands
  | @enter place name rest n stage henters h ih =>
    have hopen : fs.Open place := hstands.onward (by simp)
    refine ih ⟨by rwa [Path.parent_child], fun hrest => ?_, fun hlast _ target hlink => ?_⟩
    · refine open_child_iff.2 ⟨hopen, ?_⟩
      cases hnode : fs.nodeAt? (place.child name) with
      | none => exact .inl rfl
      | some node =>
        cases node with
        | directory => exact .inr rfl
        | file content => exact absurd (henters.file content hnode) hrest
        | link target => exact absurd (henters.link target hnode).2 hrest
    · obtain ⟨hfalse, -⟩ := henters.link target hlink
      simp [hlast] at hfalse
  | link _ _ _ ih => exact ih (stands_root fs last _)

/-- A place that can be reached is where its own path leads. -/
theorem Stands.resolves_parts (h : fs.Stands last ⟨place, []⟩) :
    fs.Resolves last ⟨.root, place.parts⟩ 0 ⟨place, []⟩ := by
  by_cases hroot : place = .root
  · subst hroot
    exact .refl _
  · obtain ⟨name, -, hchild⟩ := Path.exists_eq_child hroot
    have henters : fs.Enters last place.parent name [] := by
      refine ⟨fun target hlink => ⟨?_, rfl⟩, fun _ _ => rfl⟩
      rw [← hchild] at hlink
      cases last with
      | false => rfl
      | true => exact absurd hlink (h.link rfl hroot target)
    have hparts : place.parts = place.parent.parts ++ [name] := congrArg Path.parts hchild
    have hparent : fs.Resolves last ⟨.root, place.parts⟩ 0 ⟨place.parent, [name]⟩ := by
      rw [hparts]
      exact @Resolves.of_open fs last .root [name] place.parent.parts h.above
    have hend : fs.Resolves last ⟨place.parent, [name]⟩ 0 ⟨place, []⟩ := by
      refine .enter henters ?_
      rw [← hchild]
      exact .refl _
    exact hparent.trans hend

/-! ## Following links with a bound -/

theorem walk_of_enters (h : fs.Enters last place name rest) :
    fs.walk last place (name :: rest) = fs.walk last (place.child name) rest := by
  rw [walk]
  rcases hentry : fs.entryAt? (place.child name) with - | ⟨node, mode, modified⟩
  · rfl
  · cases node with
    | directory => rfl
    | file content =>
      have hrest : rest = [] := h.file content (by simp [nodeAt?, hentry])
      subst hrest
      rfl
    | link target =>
      obtain ⟨hlast, hrest⟩ := h.link target (by simp [nodeAt?, hentry])
      subst hlast hrest
      rfl

theorem walk_eq_link {target : String}
    (hlink : fs.nodeAt? (place.child name) = some (.link target))
    (hlast : last = true ∨ rest ≠ []) :
    fs.walk last place (name :: rest) = .link place target rest := by
  obtain ⟨mode, modified, hentry⟩ := nodeAt?_eq_some_iff.1 hlink
  have hresolved : (last || !rest.isEmpty) = true := by simpa using hlast
  rw [walk, hentry]
  simp only [hresolved, if_true]

theorem walk_eq_blocked {content : String}
    (hfile : fs.nodeAt? (place.child name) = some (.file content)) (hrest : rest ≠ []) :
    fs.walk last place (name :: rest) = .blocked := by
  obtain ⟨mode, modified, hentry⟩ := nodeAt?_eq_some_iff.1 hfile
  rw [walk, hentry]
  simp [hrest]

/-- **A walk** is resolution up to the first link. -/
theorem resolves_walk (fs : FileSystem) (last : Bool) (place : Path) (names : List String) :
    match fs.walk last place names with
    | .arrived r => fs.Resolves last ⟨place, names⟩ 0 ⟨r, []⟩
    | .link directory target rest => ∀ n stage,
      fs.Resolves last ⟨.root, (directory.resolve target).parts ++ rest⟩ n stage →
        fs.Resolves last ⟨place, names⟩ (n + 1) stage
    | .blocked => ∃ stage, fs.Resolves last ⟨place, names⟩ 0 stage ∧ fs.Blocked stage := by
  induction names generalizing place with
  | nil => exact .refl _
  | cons name rest ih =>
    rcases fs.enters_or last place name rest with
      henters | ⟨target, hlink, hlast⟩ | ⟨content, hfile, hrest⟩
    · have hwalk := ih (place.child name)
      rw [walk_of_enters henters]
      split at hwalk
      · exact .enter henters hwalk
      · exact fun n stage h => .enter henters (hwalk n stage h)
      · obtain ⟨stage, h, hblocked⟩ := hwalk
        exact ⟨stage, .enter henters h, hblocked⟩
    · rw [walk_eq_link hlink hlast]
      exact fun n stage h => .link hlink hlast h
    · rw [walk_eq_blocked hfile hrest]
      exact ⟨_, .refl _, name, rest, content, rfl, hrest, hfile⟩

/-- **Following links with a bound** comes to the end of resolution, or to one link more than the
bound. -/
theorem resolves_followNames (fs : FileSystem) (last : Bool) (path : Path) (bound : Nat)
    (names : List String) :
    match fs.followNames last path bound names with
    | .ok r => ∃ n ≤ bound, fs.Resolves last ⟨.root, names⟩ n ⟨r, []⟩
    | .error e =>
      e = ⟨.tooManyLinks, path.render⟩ ∧
          (∃ stage, fs.Resolves last ⟨.root, names⟩ (bound + 1) stage) ∨
        e = ⟨.notDirectory, path.render⟩ ∧
          ∃ n ≤ bound, ∃ stage, fs.Resolves last ⟨.root, names⟩ n stage ∧ fs.Blocked stage := by
  induction bound generalizing names with
  | zero =>
    have hwalk := fs.resolves_walk last .root names
    rw [followNames]
    cases hway : fs.walk last .root names with
    | arrived r =>
      rw [hway] at hwalk
      exact ⟨0, Nat.le_refl _, hwalk⟩
    | link directory target rest =>
      rw [hway] at hwalk
      exact .inl ⟨rfl, _, hwalk 0 _ (.refl _)⟩
    | blocked =>
      rw [hway] at hwalk
      exact .inr ⟨rfl, 0, Nat.le_refl _, hwalk⟩
  | succ bound ih =>
    have hwalk := fs.resolves_walk last .root names
    rw [followNames]
    cases hway : fs.walk last .root names with
    | arrived r =>
      rw [hway] at hwalk
      exact ⟨0, by omega, hwalk⟩
    | blocked =>
      rw [hway] at hwalk
      exact .inr ⟨rfl, 0, by omega, hwalk⟩
    | link directory target rest =>
      rw [hway] at hwalk
      have hrest := ih ((directory.resolve target).parts ++ rest)
      dsimp only
      split at hrest
      · obtain ⟨n, hn, h⟩ := hrest
        exact ⟨n + 1, by omega, hwalk n _ h⟩
      · rcases hrest with ⟨rfl, stage, h⟩ | ⟨rfl, n, hn, stage, h, hblocked⟩
        · exact .inl ⟨rfl, stage, hwalk _ stage h⟩
        · exact .inr ⟨rfl, n + 1, by omega, stage, hwalk n stage h, hblocked⟩

/-- Links are followed to an end that is reached over few enough of them. -/
theorem follow_eq_ok_iff {path r : Path} : fs.follow path last = .ok r ↔
    ∃ n ≤ maxLinks, fs.Resolves last ⟨.root, path.parts⟩ n ⟨r, []⟩ := by
  have hspec := fs.resolves_followNames last path maxLinks path.parts
  rw [follow]
  constructor
  · intro hfollow
    rw [hfollow] at hspec
    exact hspec
  · rintro ⟨n, hn, h⟩
    have hover : fs.IsOver ⟨r, []⟩ := .inl rfl
    split at hspec
    · next r' hfollow =>
      obtain ⟨m, -, h'⟩ := hspec
      have hsame : (⟨r, []⟩ : Stage) = ⟨r', []⟩ := h.unique hover h' (.inl rfl)
      obtain rfl : r = r' := congrArg Stage.place hsame
      exact hfollow
    · rcases hspec with ⟨-, stage, h'⟩ | ⟨-, m, -, stage, h', hblocked⟩
      · have hle := h.le_of_isOver hover h'
        omega
      · obtain rfl := h.unique hover h' (.inr hblocked)
        obtain ⟨_, _, _, hnil, -⟩ := hblocked
        cases hnil

/-- **Following links fails** at the first link past the bound, or at a file that blocks the way. -/
theorem follow_eq_error_iff {path : Path} {e : FileError} : fs.follow path last = .error e ↔
    e = ⟨.tooManyLinks, path.render⟩ ∧
        (∃ stage, fs.Resolves last ⟨.root, path.parts⟩ (maxLinks + 1) stage) ∨
      e = ⟨.notDirectory, path.render⟩ ∧ ∃ n ≤ maxLinks, ∃ stage,
        fs.Resolves last ⟨.root, path.parts⟩ n stage ∧ fs.Blocked stage := by
  have hspec := fs.resolves_followNames last path maxLinks path.parts
  constructor
  · intro hfollow
    rw [follow] at hfollow
    rw [hfollow] at hspec
    exact hspec
  · intro hend
    rw [follow]
    split at hspec
    · next r hfollow =>
      exfalso
      obtain ⟨m, hm, h'⟩ := hspec
      have hover : fs.IsOver ⟨r, []⟩ := .inl rfl
      rcases hend with ⟨-, stage, h⟩ | ⟨-, n, -, stage, h, hblocked⟩
      · have hle := h'.le_of_isOver hover h
        omega
      · obtain rfl := h'.unique hover h (.inr hblocked)
        obtain ⟨_, _, _, hnil, -⟩ := hblocked
        cases hnil
    · next e' hfollow =>
      rw [hfollow]
      rcases hend with ⟨rfl, stage, h⟩ | ⟨rfl, n, hn, stage, h, hblocked⟩
      · rcases hspec with ⟨rfl, -⟩ | ⟨-, m, hm, stage', h', hblocked⟩
        · rfl
        · have hle := h'.le_of_isOver (.inr hblocked) h
          omega
      · rcases hspec with ⟨-, stage', h'⟩ | ⟨rfl, -⟩
        · have hle := h.le_of_isOver (.inr hblocked) h'
          omega
        · rfl

/-- **Following links**, on all tables of files. A normal path is followed to the end of resolution
if that is reached over at most forty links. It fails exactly when resolution goes over a forty-first
link, or is blocked by a file before. The end is a normal path; above it, the root apart, nothing but
directories stands where anything does; no link stands there, unless it is the root, when the last
link is to be resolved; and following the end leads to the end. -/
theorem follow_iff_resolves {path : Path} (hpath : path.IsNormal) (last : Bool) :
    (∀ r, fs.follow path last = .ok r ↔
      ∃ n ≤ 40, fs.Resolves last ⟨.root, path.parts⟩ n ⟨r, []⟩) ∧
    (∀ e, fs.follow path last = .error e ↔
      e = ⟨.tooManyLinks, path.render⟩ ∧
          (∃ stage, fs.Resolves last ⟨.root, path.parts⟩ 41 stage) ∨
        e = ⟨.notDirectory, path.render⟩ ∧ ∃ n ≤ 40, ∃ stage,
          fs.Resolves last ⟨.root, path.parts⟩ n stage ∧ fs.Blocked stage) ∧
    ∀ r, fs.follow path last = .ok r →
      r.IsNormal ∧
      (∀ above, r.isBelow above = true → above ≠ .root →
        fs.nodeAt? above = none ∨ fs.nodeAt? above = some .directory) ∧
      (last = true → r ≠ .root → ∀ target, fs.nodeAt? r ≠ some (.link target)) ∧
      fs.follow r last = .ok r := by
  refine ⟨fun r => follow_eq_ok_iff, fun e => follow_eq_error_iff, fun r hfollow => ?_⟩
  obtain ⟨n, -, hresolves⟩ := follow_eq_ok_iff.1 hfollow
  have hstands : fs.Stands last ⟨r, []⟩ := (fs.stands_root last path.parts).resolves hresolves
  refine ⟨isNormal_of_follow hpath hfollow, fun above habove => ?_, hstands.link, ?_⟩
  · exact hstands.above above (Path.prefix_parent_of_isBelow habove)
  · exact follow_eq_ok_iff.2 ⟨0, Nat.zero_le _, hstands.resolves_parts⟩

/-- Two links that lead to each other. -/
def circle : FileSystem :=
  ((ofClock ⟨0, 0⟩).place ⟨["a"]⟩ (.link "./b")).place ⟨["b"]⟩ (.link "../a")

/-- A name after two links that lead to each other is followed over forty-one links, without an end;
a link at the end is its own end when it is not to be resolved. -/
theorem follow_iff_resolves_circle :
    (∃ stage, circle.Resolves true ⟨.root, ["a", "x"]⟩ 41 stage) ∧
      ∃ n ≤ 40, circle.Resolves false ⟨.root, ["b"]⟩ n ⟨⟨["b"]⟩, []⟩ := by
  have hcircle : circle.follow ⟨["a", "x"]⟩ true = .error ⟨.tooManyLinks, "/a/x"⟩ := by
    decide +kernel
  have hend : circle.follow ⟨["b"]⟩ false = .ok ⟨["b"]⟩ := by decide +kernel
  constructor
  · obtain ⟨-, herror, -⟩ := @follow_iff_resolves circle ⟨["a", "x"]⟩ (by decide) true
    rcases (herror _).1 hcircle with ⟨-, hlinks⟩ | ⟨hkind, -⟩
    · exact hlinks
    · cases hkind
  · obtain ⟨hok, -⟩ := @follow_iff_resolves circle ⟨["b"]⟩ (by decide) false
    exact (hok _).1 hend

/-- A file at the root does not stop resolution, nor does a link there lead anywhere. -/
theorem follow_overlooks_root :
    ((seeded ⟨0, 0⟩ [] [("/", .text "x"), ("/a", .text "y")]).map fun fs =>
      (fs.nodeAt? .root, fs.follow ⟨["a"]⟩ true)) = .ok (some (.file "x"), .ok ⟨["a"]⟩) ∧
    Path.isBelow ⟨["a"]⟩ .root = true ∧
    (let fs := (ofClock ⟨0, 0⟩).place .root (.link "/a")
    fs.nodeAt? .root = some (.link "/a") ∧ fs.follow .root true = .ok .root) := by
  decide +kernel

end FileSystem

end VirtualShell
