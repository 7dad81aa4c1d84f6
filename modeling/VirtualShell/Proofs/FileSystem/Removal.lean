import VirtualShell.Proofs.FileSystem.Following
import VirtualShell.Proofs.FileSystem.History

/-!
# Removing all that is below a path

What is removed is found by resolving the directory of a path and leaving its last name as it is, and
what a path is itself is found by resolving it with the last name left as it is: both come to the
same place. With the entry at that place go the entries below it, which are those whose written path
goes on with a slash. Where they are gone nothing stops resolution any more, so the path leads to
nothing, even if its own way went through what was removed.

* `FileSystem.Resolves.exists_directory` — the last name is left as it is.
* `FileSystem.IsTree.entryAt?_removeEntry` — what goes with an entry of a tree.
* `FileSystem.Resolves.drop`, `FileSystem.Resolves.of_gone` — resolution after entries were removed.
* `FileSystem.IsTree.exists_remove` — removing what a path is itself.
* **`FileSystem.IsTree.remove_recursive`** — exactly one subtree is removed.
-/

namespace VirtualShell.FileSystem

variable {fs : FileSystem} {last : Bool} {p q place : Path} {name : String} {n : Nat}

/-! ## The last name of a path -/

/-- **Resolution that leaves the last name as it is** resolves the names before it to a directory,
and ends with the name in it. -/
theorem Resolves.exists_directory {names : List String}
    (h : fs.Resolves false ⟨p, names ++ [name]⟩ n ⟨place, []⟩) :
    ∃ directory, fs.Resolves true ⟨p, names⟩ n ⟨directory, []⟩ ∧ place = directory.child name := by
  generalize hstart : (⟨p, names ++ [name]⟩ : Stage) = start at h
  generalize hend : (⟨place, []⟩ : Stage) = stage at h
  induction h generalizing p names with
  | refl =>
    rw [← hend] at hstart
    simp at hstart
  | @enter p' first rest n stage henters h ih =>
    cases names with
    | nil =>
      cases hstart
      subst hend
      obtain ⟨rfl, hplace⟩ := h.eq_of_isOver (.inl rfl)
      exact ⟨p', .refl _, congrArg Stage.place hplace⟩
    | cons _ names =>
      cases hstart
      obtain ⟨directory, hdirectory, hplace⟩ := ih rfl hend
      -- a link here is resolved in any case, since the last name is still to come
      have henters' : fs.Enters true p' first names :=
        ⟨fun target hlink => absurd (henters.link target hlink).2 (by simp),
          fun content hfile => absurd (henters.file content hfile) (by simp)⟩
      exact ⟨directory, .enter henters' hdirectory, hplace⟩
  | @link p' first target rest n stage hlink hlast h ih =>
    cases names with
    | nil =>
      cases hstart
      simp at hlast
    | cons _ names =>
      cases hstart
      obtain ⟨directory, hdirectory, hplace⟩ :=
        @ih .root ((p'.resolve target).parts ++ names) (by simp) hend
      exact ⟨directory, .link hlink (.inl rfl) hdirectory, hplace⟩

/-- **What a path is itself** stands in the directory that its directory leads to. -/
theorem exists_directory_of_follow (h : fs.follow (p.child name) false = .ok place) :
    ∃ directory, fs.follow p true = .ok directory ∧ place = directory.child name := by
  obtain ⟨n, hn, hresolves⟩ := follow_eq_ok_iff.1 h
  obtain ⟨directory, hdirectory, hplace⟩ := Resolves.exists_directory hresolves
  exact ⟨directory, follow_eq_ok_iff.2 ⟨n, hn, hdirectory⟩, hplace⟩

/-! ## What goes -/

theorem entryAt?_drop (gone : Path → Bool) :
    (fs.drop gone).entryAt? q = if gone q then none else fs.entryAt? q := by
  rw [drop, entryAt?, Table.get?_keep]
  cases gone q <;> rfl

/-- **What is removed with an entry of a tree**: the entry and all that lies below it. -/
theorem IsTree.entryAt?_removeEntry (h : fs.IsTree) (hroot : p ≠ .root) {e : Entry}
    (he : fs.entryAt? p = some e) (text : String) (force : Bool) :
    (removeEntry text true force p fs).1 = .ok () ∧
      ∀ q, (removeEntry text true force p fs).2.entryAt? q =
        if p.parts <+: q.parts then none else fs.entryAt? q := by
  have hdrop (node : Node) (mode modified : Int) (hnode : node ≠ .directory)
      (he : fs.entryAt? p = some ⟨node, mode, modified⟩) (q : Path) :
      (fs.drop (· == p)).entryAt? q = if p.parts <+: q.parts then none else fs.entryAt? q := by
    rw [entryAt?_drop]
    by_cases heq : q = p
    · subst heq
      simp
    · by_cases hbelow : p.parts <+: q.parts
      · -- nothing stands below what is no directory
        have hfree : fs.entryAt? q = none := by
          by_contra hentry
          have hq : q ∈ fs.entries.keys := by simpa [mem_keys_iff_nodeAt?, nodeAt?] using hentry
          have hdir := h.directory_of_isBelow hq (Path.isBelow_iff.2 ⟨hbelow, heq⟩)
          simp [nodeAt?, he] at hdir
          exact hnode hdir
        simp [hbelow, hfree]
      · simp [heq, hbelow]
  obtain ⟨node, mode, modified⟩ := e
  rw [removeEntry, bind_apply, get_apply]
  dsimp only
  rw [he]
  cases node with
  | directory =>
    dsimp only
    rw [bind_apply, get_apply]
    refine ⟨by simp [modify_apply], fun q => ?_⟩
    simp only [Bool.not_true, Bool.and_false, Bool.false_eq_true, if_false, modify_apply,
      entryAt?_drop, goesWith_or_eq_iff]
  | file content =>
    simp only [ne_eq, hroot, not_false_eq_true, if_true, modify_apply]
    exact ⟨trivial, hdrop _ _ _ (by simp) he⟩
  | link target =>
    simp only [ne_eq, hroot, not_false_eq_true, if_true, modify_apply]
    exact ⟨trivial, hdrop _ _ _ (by simp) he⟩

/-! ## Resolution where entries are gone -/

/-- Where nothing stands the names are entered. -/
theorem Resolves.of_free (hfree : ∀ q, p.parts <+: q.parts → fs.nodeAt? q = none)
    (names : List String) : fs.Resolves last ⟨p, names⟩ 0 ⟨⟨p.parts ++ names⟩, []⟩ := by
  induction names generalizing p with
  | nil => simpa using Resolves.refl _
  | cons first rest ih =>
    have hbelow : p.parts <+: (p.child first).parts := List.prefix_append _ _
    have hnode : fs.nodeAt? (p.child first) = none := hfree _ hbelow
    have hparts : p.parts ++ first :: rest = (p.child first).parts ++ rest := by simp [Path.child]
    rw [hparts]
    exact .enter ⟨by simp [hnode], by simp [hnode]⟩ (ih fun q hq => hfree q (hbelow.trans hq))

section Gone

variable {later : FileSystem}

/-- **After all that lies at a place and below it was removed**, a stage that led to the place leads
to it, or below it, over no more links. -/
theorem Resolves.drop {start : Stage} (h : fs.Resolves last start n ⟨place, []⟩)
    (hlater : ∀ q, later.nodeAt? q = if place.parts <+: q.parts then none else fs.nodeAt? q) :
    ∃ m ≤ n, ∃ q, later.Resolves last start m ⟨q, []⟩ ∧ place.parts <+: q.parts := by
  -- whatever is met below the place is gone, with all that is below it
  have hgone (p : Path) (first : String) (rest : List String)
      (hbelow : place.parts <+: (p.child first).parts) :
      ∃ q, later.Resolves last ⟨p, first :: rest⟩ 0 ⟨q, []⟩ ∧ place.parts <+: q.parts := by
    have hnode : later.nodeAt? (p.child first) = none := by rw [hlater, if_pos hbelow]
    refine ⟨⟨(p.child first).parts ++ rest⟩, .enter ⟨by simp [hnode], by simp [hnode]⟩ ?_,
      hbelow.trans (List.prefix_append _ _)⟩
    exact .of_free (fun q hq => by rw [hlater, if_pos (hbelow.trans hq)]) rest
  generalize hend : (⟨place, []⟩ : Stage) = stage at h
  induction h with
  | refl =>
    subst hend
    exact ⟨0, Nat.le_refl _, place, .refl _, List.prefix_refl _⟩
  | @enter p first rest n stage henters h ih =>
    by_cases hbelow : place.parts <+: (p.child first).parts
    · obtain ⟨q, hq⟩ := hgone p first rest hbelow
      exact ⟨0, Nat.zero_le _, q, hq⟩
    · have hnode : later.nodeAt? (p.child first) = fs.nodeAt? (p.child first) := by
        rw [hlater, if_neg hbelow]
      have henters' : later.Enters last p first rest :=
        ⟨fun target hlink => henters.link target (hnode ▸ hlink),
          fun content hfile => henters.file content (hnode ▸ hfile)⟩
      obtain ⟨m, hm, q, hq, hplace⟩ := ih hend
      exact ⟨m, hm, q, .enter henters' hq, hplace⟩
  | @link p first target rest n stage hlink hlast h ih =>
    by_cases hbelow : place.parts <+: (p.child first).parts
    · obtain ⟨q, hq⟩ := hgone p first rest hbelow
      exact ⟨0, Nat.zero_le _, q, hq⟩
    · have hlink' : later.nodeAt? (p.child first) = some (.link target) := by
        rw [hlater, if_neg hbelow, hlink]
      obtain ⟨m, hm, q, hq, hplace⟩ := ih hend
      exact ⟨m + 1, by omega, q, .link hlink' hlast hq, hplace⟩

/-- **Nothing new is found after a removal**: what a stage leads to, and still stands, it led to
before. -/
theorem Resolves.of_gone {start : Stage} {q : Path} (h : later.Resolves last start n ⟨q, []⟩)
    (hlater : ∀ q, later.nodeAt? q = if place.parts <+: q.parts then none else fs.nodeAt? q)
    (hq : later.nodeAt? q ≠ none) : fs.Resolves last start n ⟨q, []⟩ := by
  generalize hend : (⟨q, []⟩ : Stage) = stage at h ⊢
  induction h with
  | refl => exact .refl _
  | @enter p first rest n stage henters h ih =>
    by_cases hbelow : place.parts <+: (p.child first).parts
    · -- whatever comes after a removed entry is below it
      have hfree : later.Resolves last ⟨p.child first, rest⟩ 0 ⟨⟨(p.child first).parts ++ rest⟩, []⟩ :=
        .of_free (fun r hr => by rw [hlater, if_pos (hbelow.trans hr)]) rest
      subst hend
      have hsame := congrArg Stage.place (h.unique (.inl rfl) hfree (.inl rfl))
      dsimp only at hsame
      rw [hlater, hsame, if_pos (hbelow.trans (List.prefix_append _ _))] at hq
      exact absurd rfl hq
    · have hnode : later.nodeAt? (p.child first) = fs.nodeAt? (p.child first) := by
        rw [hlater, if_neg hbelow]
      exact .enter ⟨fun target hlink => henters.link target (hnode ▸ hlink),
        fun content hfile => henters.file content (hnode ▸ hfile)⟩ (ih hend)
  | @link p first target rest n stage hlink hlast h ih =>
    have hlink' : fs.nodeAt? (p.child first) = some (.link target) := by
      rw [hlater] at hlink
      split at hlink
      · cases hlink
      · exact hlink
    exact .link hlink' hlast (ih hend)

/-- What is found after a removal was found before. -/
theorem lookup_of_gone {text : String} {e : Entry}
    (hlater : ∀ q, later.entryAt? q = if place.parts <+: q.parts then none else fs.entryAt? q)
    (h : later.lookup text last = .ok (p, e)) : fs.lookup text last = .ok (p, e) := by
  obtain ⟨hfollow, hentry⟩ := lookup_eq_ok_iff.1 h
  obtain ⟨n, hn, hresolves⟩ := follow_eq_ok_iff.1 hfollow
  have hnodes (q : Path) :
      later.nodeAt? q = if place.parts <+: q.parts then none else fs.nodeAt? q := by
    rw [nodeAt?, hlater, nodeAt?]
    split <;> rfl
  have hthere : later.nodeAt? p ≠ none := by simp [nodeAt?, hentry]
  refine lookup_eq_ok_iff.2 ⟨follow_eq_ok_iff.2 ⟨n, hn, hresolves.of_gone hnodes hthere⟩, ?_⟩
  rw [hlater] at hentry
  split at hentry
  · cases hentry
  · exact hentry

end Gone

/-! ## Removing -/

/-- Only a directory asks whether what is below it may go too. -/
theorem removeEntry_of_ne_directory {e : Entry} (he : fs.entryAt? p = some e)
    (hnode : e.node ≠ .directory) (text : String) (recursive force : Bool) :
    removeEntry text recursive force p fs = removeEntry text true force p fs := by
  obtain ⟨node, mode, modified⟩ := e
  rw [removeEntry, removeEntry, bind_apply, bind_apply, get_apply]
  dsimp only
  rw [he]
  cases node with
  | directory => exact absurd rfl hnode
  | file content => rfl
  | link target => rfl

/-- **Removing what a path of a tree is itself**, a directory only with all that is below it: this
never fails, and then the path leads to nothing. -/
theorem IsTree.exists_remove (h : fs.IsTree) {text : String} {e : Entry}
    (hroot : Path.ofString text ≠ .root) (he : fs.statLink text = .ok e) {recursive : Bool}
    (hkind : recursive = true ∨ e.node ≠ .directory) (force : Bool) :
    ∃ place later, fs.lookup text false = .ok (place, e) ∧ place ≠ .root ∧
      remove text recursive force fs = (.ok (), later) ∧
      (∀ q, later.entryAt? q = if place.parts <+: q.parts then none else fs.entryAt? q) ∧
      later.statLink text = .error ⟨.notFound, text⟩ ∧ later.IsTree := by
  obtain ⟨⟨place, e'⟩, hlookup, he'⟩ := bind_eq_ok_iff.1 he
  cases he'
  obtain ⟨hfollow, hentry⟩ := lookup_eq_ok_iff.1 hlookup
  -- the place is found by its directory
  obtain ⟨name, hname, hchild⟩ := Path.exists_eq_child hroot
  rw [hchild] at hfollow
  obtain ⟨directory, hdirectory, hplace⟩ := exists_directory_of_follow hfollow
  have hremoved : removedAt directory text = place := by rw [removedAt, hname, hplace]
  have hne : place ≠ .root := by
    rw [hplace]
    exact directory.child_ne_root name
  obtain ⟨hok, hlater⟩ := h.entryAt?_removeEntry hne hentry text force
  have hremove : remove text recursive force fs = removeEntry text true force place fs := by
    rw [remove_apply hdirectory, hremoved]
    rcases hkind with rfl | hnode
    · rfl
    · exact removeEntry_of_ne_directory hentry hnode text recursive force
  have htree : (remove text recursive force fs).2.IsTree :=
    (isTree_remove_iff h text recursive force).2 fun hboth => hroot hboth.2
  refine ⟨place, (removeEntry text true force place fs).2, hlookup, hne, ?_, hlater, ?_, ?_⟩
  · rw [hremove]
    exact Prod.ext hok rfl
  · generalize (removeEntry text true force place fs).2 = later at hlater
    have hnodes (q : Path) :
        later.nodeAt? q = if place.parts <+: q.parts then none else fs.nodeAt? q := by
      rw [nodeAt?, hlater, nodeAt?]
      split <;> rfl
    obtain ⟨n, hn, hresolves⟩ := follow_eq_ok_iff.1 hfollow
    obtain ⟨m, hm, q, hq, hbelow⟩ := hresolves.drop hnodes
    have hgone : later.follow (Path.ofString text) false = .ok q := by
      rw [hchild]
      exact follow_eq_ok_iff.2 ⟨m, by omega, hq⟩
    have hfree : later.entryAt? q = none := by rw [hlater, if_pos hbelow]
    rw [statLink, lookup, hgone]
    simp only [bind, Except.bind, hfree]
    rfl
  · rwa [hremove] at htree

/-- **Removing all that is below a path** of a tree, the root apart, never fails where something
stands at the path itself. What goes are that entry and the entries whose path it is the beginning
of, which are written with its path and a slash before the rest; every other entry stays as it is.
Then nothing stands at the path any more, and a tree is left. -/
theorem IsTree.remove_recursive (h : fs.IsTree) {text : String} {e : Entry}
    (hroot : Path.ofString text ≠ .root) (he : fs.statLink text = .ok e) (force : Bool) :
    ∃ place later, fs.lookup text false = .ok (place, e) ∧
      remove text true force fs = (.ok (), later) ∧
      (∀ q, later.entryAt? q = if place.parts <+: q.parts then none else fs.entryAt? q) ∧
      (∀ q ∈ fs.entries.keys, place.parts <+: q.parts ↔
        q = place ∨ q.render.startsWith (place.render ++ "/") = true) ∧
      later.statLink text = .error ⟨.notFound, text⟩ ∧ later.IsTree := by
  obtain ⟨place, later, hlookup, hne, hremove, hlater, hgone, htree⟩ :=
    h.exists_remove hroot he (.inl rfl) force
  refine ⟨place, later, hlookup, hremove, hlater, fun q hq => ?_, hgone, htree⟩
  have hnormal : place.IsNormal := by
    refine h.normal place ?_
    simp [mem_keys_iff_nodeAt?, nodeAt?, (lookup_eq_ok_iff.1 hlookup).2]
  rw [Path.startsWith_render_iff hnormal hne (h.normal q hq), Path.isBelow_iff]
  constructor
  · intro habove
    by_cases heq : q = place
    · exact .inl heq
    · exact .inr ⟨habove, heq⟩
  · rintro (rfl | ⟨habove, -⟩)
    · exact List.prefix_refl _
    · exact habove

/-- A directory with a file and a link to a file beside it, whose name begins like its own, and a
link to the root. -/
def cupboard : FileSystem :=
  (Change.makeLink "/" "/a").apply ((Change.makeLink "../dx" "/d/l").apply
    ((Change.write "/dx" "y").apply ((Change.write "/d/f" "x").apply
      ((Change.makeDirectory "/d" false).apply (ofClock ⟨0, 0⟩)))))

/-- Over the link to the root the directory is removed with what is in it; the file beside it, to
which a link in it led, stays. -/
theorem IsTree.remove_recursive_cupboard :
    cupboard.IsTree ∧ ∃ later, remove "/a/d" true false cupboard = (.ok (), later) ∧
      later.nodeAt? ⟨["d", "f"]⟩ = none ∧ later.nodeAt? ⟨["dx"]⟩ = some (.file "y") ∧
      later.statLink "/a/d" = .error ⟨.notFound, "/a/d"⟩ := by
  have htree : cupboard.IsTree := by
    refine (isTree_along_iff (isTree_ofClock ⟨0, 0⟩)
      [.makeDirectory "/d" false, .write "/d/f" "x", .write "/dx" "y", .makeLink "../dx" "/d/l",
        .makeLink "/" "/a"]).2 (of_decide_eq_true (by cbv)) cupboard ?_
    simp [along, cupboard]
  have hstat : cupboard.statLink "/a/d" = .ok ⟨.directory, 0o755, 0⟩ := by cbv
  have hlookup : cupboard.lookup "/a/d" false = .ok (⟨["d"]⟩, ⟨.directory, 0o755, 0⟩) := by cbv
  have hbeside : cupboard.entryAt? ⟨["dx"]⟩ = some ⟨.file "y", 0o644, 0⟩ := by cbv
  have hroot : Path.ofString "/a/d" ≠ .root := of_decide_eq_true (by cbv)
  obtain ⟨place, later, hplace, hremove, hlater, -, hgone, -⟩ :=
    htree.remove_recursive hroot hstat false
  rw [hlookup] at hplace
  cases hplace
  refine ⟨htree, later, hremove, ?_, ?_, hgone⟩
  · rw [nodeAt?, hlater, if_pos (by decide)]
    rfl
  · rw [nodeAt?, hlater, if_neg (by decide), hbeside]
    rfl

end VirtualShell.FileSystem
