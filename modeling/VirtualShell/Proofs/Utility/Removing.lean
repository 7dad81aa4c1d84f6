import VirtualShell.Proofs.FileSystem.Question
import VirtualShell.Proofs.FileSystem.Removal
import VirtualShell.Proofs.Utility.Basic
import VirtualShell.Utility.File

/-!
# What `rm` leaves behind

`rm` decides by what an operand leads to, and removes what the operand is itself. The two differ for
a link. One that leads to a directory is taken for that directory, and one that leads to nothing is
taken to be missing, so it stays even where `rm` does not complain. Apart from such links, no operand
is anything after `rm` succeeded: later operands remove more, and where entries are gone no path leads
to one that it did not lead to before.

* `Utility.File.removeFile_cases` — all that can happen to one operand.
* `Utility.File.exists_removeFile` — what one operand comes to, as far as the others are concerned.
* `Utility.File.foldlM_removeFile` — what has become of each operand at the end.
* **`Utility.File.remove_operands`** — what a success of `rm` says of its operands, and when a link is
  removed.
-/

namespace VirtualShell

namespace FileSystem

variable {fs : FileSystem} {place : Path} {e : Entry} {text : String} {n : Nat}

/-- Where no link stands at the end it does not matter whether one would be resolved. -/
theorem Resolves.of_not_link {start : Stage} (h : fs.Resolves false start n ⟨place, []⟩)
    (hlink : ∀ target, fs.nodeAt? place ≠ some (.link target)) :
    fs.Resolves true start n ⟨place, []⟩ := by
  generalize hend : (⟨place, []⟩ : Stage) = stage at h ⊢
  induction h with
  | refl => exact .refl _
  | @enter p first rest n stage henters h ih =>
    refine .enter ⟨fun target hthere => ?_, henters.file⟩ (ih hend)
    obtain ⟨-, rfl⟩ := henters.link target hthere
    subst hend
    obtain ⟨-, hplace⟩ := h.eq_of_isOver (.inl rfl)
    obtain rfl : place = p.child first := congrArg Stage.place hplace
    exact absurd hthere (hlink target)
  | link hthere _ _ ih => exact .link hthere (.inl rfl) (ih hend)

/-- What is no link itself is what its path leads to. -/
theorem lookup_of_not_link (h : fs.lookup text false = .ok (place, e))
    (hlink : ∀ target, e.node ≠ .link target) : fs.lookup text true = .ok (place, e) := by
  obtain ⟨hfollow, hentry⟩ := lookup_eq_ok_iff.1 h
  obtain ⟨n, hn, hresolves⟩ := follow_eq_ok_iff.1 hfollow
  have hnode (target : String) : fs.nodeAt? place ≠ some (.link target) := by
    simpa [nodeAt?, hentry] using hlink target
  exact lookup_eq_ok_iff.2 ⟨follow_eq_ok_iff.2 ⟨n, hn, hresolves.of_not_link hnode⟩, hentry⟩

/-- What a path names is found by following it, unless it is a link. -/
theorem exists_lookup_of_statLink (h : fs.statLink text = .ok e)
    (hlink : ∀ target, e.node ≠ .link target) : ∃ place, fs.lookup text true = .ok (place, e) := by
  obtain ⟨⟨place, e'⟩, hlookup, he⟩ := bind_eq_ok_iff.1 h
  cases he
  exact ⟨place, lookup_of_not_link hlookup hlink⟩

theorem has_of_lookup (h : fs.lookup text true = .ok (place, e)) : fs.has text = true := by
  rw [has, h]
  rfl

theorem isDirectory_of_lookup (h : fs.lookup text true = .ok (place, e)) (he : e.node = .directory) :
    fs.isDirectory text = true := by
  obtain ⟨hfollow, hentry⟩ := lookup_eq_ok_iff.1 h
  exact isDirectory_eq_true_iff.2 ⟨place, hfollow, by simp [nodeAt?, hentry, he]⟩

/-- **Nothing new is found** in a later file system. -/
def FindsNothingNew (files later : FileSystem) : Prop :=
  ∀ text last found, later.lookup text last = .ok found → files.lookup text last = .ok found

theorem FindsNothingNew.refl (files : FileSystem) : files.FindsNothingNew files :=
  fun _ _ _ hfound => hfound

theorem FindsNothingNew.trans {files next later : FileSystem} (h : files.FindsNothingNew next)
    (hlater : next.FindsNothingNew later) : files.FindsNothingNew later :=
  fun text last found hfound => h text last found (hlater text last found hfound)

/-- Nothing in a tree lies below what is no directory. -/
theorem IsTree.entryAt?_below (h : fs.IsTree) (he : fs.entryAt? place = some e)
    (hnode : e.node ≠ .directory) {q : Path} (hq : q ≠ place) (hbelow : place.parts <+: q.parts) :
    fs.entryAt? q = none := by
  by_contra hentry
  have hmem : q ∈ fs.entries.keys := by simpa [mem_keys_iff_nodeAt?, nodeAt?] using hentry
  have hdirectory := h.directory_of_isBelow hmem (Path.isBelow_iff.2 ⟨hbelow, hq⟩)
  simp [nodeAt?, he, hnode] at hdirectory

end FileSystem

namespace Utility.File

variable {call : Call} {files : FileSystem}

/-- The path of an operand is the root only when it is written so. -/
theorem ofString_pathOf_ne_root {operand : String} (h : pathOf call operand ≠ "/") :
    Path.ofString (pathOf call operand) ≠ .root := by
  have hnormal : ((Path.ofString call.directory).resolve operand).IsNormal :=
    Path.isNormal_resolve (Path.isNormal_ofString _) operand
  rw [pathOf, Path.ofString_render hnormal]
  exact fun hroot => h ((Path.render_eq_slash_iff hnormal).2 hroot)

/-! ## One operand -/

/-- **What can happen to an operand**: it leads to nothing, and stays; it leads to a directory that
was not to be removed, and stays; or what it is itself goes, with all that is below it. -/
theorem removeFile_cases (h : files.IsTree) (s : Removal) (o : Outcome) {operand : String}
    (hroot : pathOf call operand ≠ "/") :
    (files.has (pathOf call operand) = false ∧ removeFile call s o operand files =
      (.ok (if s.force then o else
        complain o (notRemoved operand FileErrorKind.notFound.message) 1), files)) ∨
    (files.isDirectory (pathOf call operand) = true ∧ s.recursive = false ∧
      removeFile call s o operand files =
        (.ok (complain o (notRemoved operand FileErrorKind.isDirectory.message) 1), files)) ∨
    files.has (pathOf call operand) = true ∧
      (s.recursive = true ∨ files.isDirectory (pathOf call operand) = false) ∧
      ∃ place e later, files.lookup (pathOf call operand) false = .ok (place, e) ∧
        removeFile call s o operand files =
          (.ok (if s.verbose then write o ("removed '" ++ operand ++ "'\n") else o), later) ∧
        (∀ q, later.entryAt? q = if place.parts <+: q.parts then none else files.entryAt? q) ∧
        (∃ reason, later.statLink (pathOf call operand) = .error reason) ∧ later.IsTree := by
  rw [removeFile, bind_apply, get_apply]
  dsimp only
  rw [if_neg hroot]
  cases hhas : files.has (pathOf call operand) with
  | false =>
    refine .inl ⟨rfl, ?_⟩
    cases hforce : s.force <;> rfl
  | true =>
    refine .inr ?_
    simp only [Bool.not_true, Bool.false_eq_true, if_false, true_and]
    by_cases hrefused : (files.isDirectory (pathOf call operand) && !s.recursive) = true
    · rw [if_pos hrefused]
      simp only [Bool.and_eq_true, Bool.not_eq_true'] at hrefused
      exact .inl ⟨hrefused.1, hrefused.2, rfl⟩
    · rw [if_neg hrefused]
      refine .inr ?_
      have hallowed : s.recursive = true ∨ files.isDirectory (pathOf call operand) = false := by
        cases hrecursive : s.recursive <;> simp_all
      obtain ⟨e, hstat⟩ := FileSystem.exists_statLink hhas
      -- a directory itself is what its path leads to
      have hkind : s.recursive = true ∨ e.node ≠ .directory := by
        refine hallowed.imp_right fun hother hdirectory => ?_
        obtain ⟨place, hlookup⟩ :=
          FileSystem.exists_lookup_of_statLink hstat (by simp [hdirectory])
        rw [FileSystem.isDirectory_of_lookup hlookup hdirectory] at hother
        cases hother
      obtain ⟨place, later, hlookup, -, hremove, hlater, hgone, htree⟩ :=
        h.exists_remove (ofString_pathOf_ne_root hroot) hstat hkind s.force
      refine ⟨hallowed, place, e, later, hlookup, ?_, hlater, ⟨_, hgone⟩, htree⟩
      rw [bind_apply, change_apply, hremove]
      cases s.verbose <;> rfl

/-- **A link** without `-r`: it is removed, and nothing else, when it leads to something that is no
directory. -/
theorem removeFile_link (h : files.IsTree) {s : Removal} {o o' : Outcome} {operand target : String}
    {place : Path} {e : Entry} {later : FileSystem} (hroot : pathOf call operand ≠ "/")
    (hrecursive : s.recursive = false)
    (hlookup : files.lookup (pathOf call operand) false = .ok (place, e))
    (hlink : e.node = .link target) (ho : o.status = 0)
    (hrun : removeFile call s o operand files = (.ok o', later)) :
    (files.has (pathOf call operand) = true ∧ files.isDirectory (pathOf call operand) = false →
      o'.status = 0 ∧ ∀ q, later.entryAt? q = if q = place then none else files.entryAt? q) ∧
    (¬ (files.has (pathOf call operand) = true ∧
        files.isDirectory (pathOf call operand) = false) →
      later = files ∧
        (o'.status = 0 ↔ files.has (pathOf call operand) = false ∧ s.force = true)) := by
  rcases removeFile_cases h s o hroot with
    ⟨hhas, hcase⟩ | ⟨hdirectory, -, hcase⟩ |
    ⟨hhas, hallowed, place', e', next, hlookup', hcase, hnext, -, -⟩
  · rw [hrun] at hcase
    cases hcase
    refine ⟨fun hleads => by simp [hhas] at hleads, fun _ => ⟨rfl, ?_⟩⟩
    cases hforce : s.force <;> simp [hhas, complain, ho]
  · rw [hrun] at hcase
    cases hcase
    refine ⟨fun hleads => by simp [hdirectory] at hleads, fun _ => ⟨rfl, ?_⟩⟩
    simp [FileSystem.has_of_isDirectory hdirectory, complain]
  · rw [hrun] at hcase
    cases hcase
    rw [hlookup] at hlookup'
    cases hlookup'
    have hother : files.isDirectory (pathOf call operand) = false :=
      hallowed.resolve_left (by simp [hrecursive])
    refine ⟨fun _ => ⟨by cases s.verbose <;> simpa [write] using ho, fun q => ?_⟩,
      fun hrefused => absurd ⟨hhas, hother⟩ hrefused⟩
    rw [hnext]
    by_cases hq : q = place
    · simp [hq]
    · rw [if_neg hq]
      split
      · next hbelow =>
        have hentry := (FileSystem.lookup_eq_ok_iff.1 hlookup).2
        exact (h.entryAt?_below hentry (by simp [hlink]) hq hbelow).symm
      · rfl

/-! ## All operands -/

/-- **What has become of an operand**: it leads to nothing, and if it is something itself it is a link
that was not to be complained about. -/
def Done (call : Call) (s : Removal) (files : FileSystem) (operand : String) : Prop :=
  files.has (pathOf call operand) = false ∧
    ∀ e, files.statLink (pathOf call operand) = .ok e →
      s.force = true ∧ ∃ target, e.node = .link target

/-- What is done stays done as long as nothing new is found. -/
theorem Done.mono {s : Removal} {later : FileSystem} {operand : String} (h : Done call s files operand)
    (hfound : files.FindsNothingNew later) : Done call s later operand := by
  refine ⟨?_, fun e hstat => ?_⟩
  · by_contra hhas
    obtain ⟨⟨place, e⟩, hlookup⟩ := Option.isSome_iff_exists.1 (Bool.not_eq_false _ ▸ hhas)
    cases hlater : later.lookup (pathOf call operand) true with
    | error => simp [hlater, Except.toOption] at hlookup
    | ok found =>
      have hbefore := FileSystem.has_of_lookup (hfound _ _ _ hlater)
      rw [h.1] at hbefore
      cases hbefore
  · obtain ⟨found, hlookup, hentry⟩ := FileSystem.bind_eq_ok_iff.1 hstat
    refine h.2 e ?_
    rw [FileSystem.statLink, hfound _ _ _ hlookup]
    exact hentry

/-- **What one operand comes to**, as far as the others are concerned: a tree is left, nothing new is
found in it, and unless something was complained about the operand is done. -/
theorem exists_removeFile (h : files.IsTree) (s : Removal) (o : Outcome) {operand : String}
    (hroot : pathOf call operand ≠ "/") :
    ∃ o' later, removeFile call s o operand files = (.ok o', later) ∧ later.IsTree ∧
      files.FindsNothingNew later ∧ (o'.status = 0 → o.status = 0 ∧ Done call s later operand) := by
  rcases removeFile_cases h s o hroot with
    ⟨hhas, hrun⟩ | ⟨-, -, hrun⟩ | ⟨-, -, place, e, later, -, hrun, hlater, ⟨reason, hgone⟩, htree⟩
  · refine ⟨_, files, hrun, h, .refl files, fun hstatus => ?_⟩
    cases hforce : s.force with
    | false => simp [hforce, complain] at hstatus
    | true =>
      rw [hforce, if_pos rfl] at hstatus
      refine ⟨hstatus, hhas, fun e hstat => ⟨hforce, ?_⟩⟩
      -- what is no link would be found
      by_contra hlink
      obtain ⟨place, hlookup⟩ := FileSystem.exists_lookup_of_statLink hstat
        fun target htarget => hlink ⟨target, htarget⟩
      simp [FileSystem.has_of_lookup hlookup] at hhas
  · exact ⟨_, files, hrun, h, .refl files, fun hstatus => by simp [complain] at hstatus⟩
  · refine ⟨_, later, hrun, htree, fun _ _ _ hfound => FileSystem.lookup_of_gone hlater hfound,
      fun hstatus => ⟨?_, ?_, ?_⟩⟩
    · cases hverbose : s.verbose <;> simpa [hverbose, write] using hstatus
    · by_contra hthere
      obtain ⟨e, hstat⟩ := FileSystem.exists_statLink (Bool.not_eq_false _ ▸ hthere)
      simp [hgone] at hstat
    · simp [hgone]

/-- **Going through operands**: a tree is left, nothing new is found in it, and unless something was
complained about all of the operands are done. -/
theorem foldlM_removeFile (h : files.IsTree) (s : Removal) (o : Outcome) {operands : List String}
    (hroot : ∀ operand ∈ operands, pathOf call operand ≠ "/") :
    ∃ o' later, operands.foldlM (removeFile call s) o files = (.ok o', later) ∧ later.IsTree ∧
      files.FindsNothingNew later ∧
      (o'.status = 0 → o.status = 0 ∧ ∀ operand ∈ operands, Done call s later operand) := by
  induction operands generalizing o files with
  | nil => exact ⟨o, files, rfl, h, .refl files, fun hstatus => ⟨hstatus, by simp⟩⟩
  | cons operand operands ih =>
    obtain ⟨hfirst, hrest⟩ := List.forall_mem_cons.1 hroot
    obtain ⟨o₁, next, hrun, htree, hfound, hdone⟩ := exists_removeFile h s o hfirst
    obtain ⟨o₂, later, hrun', htree', hfound', hdone'⟩ := ih htree o₁ hrest
    refine ⟨o₂, later, ?_, htree', hfound.trans hfound', fun hstatus => ?_⟩
    · rw [List.foldlM_cons, bind_apply, hrun]
      exact hrun'
    · obtain ⟨hstatus', hothers⟩ := hdone' hstatus
      obtain ⟨hstart, hthis⟩ := hdone hstatus'
      exact ⟨hstart, List.forall_mem_cons.2 ⟨hthis.mono hfound', hothers⟩⟩

/-- Without operands nothing is done, and otherwise they are gone through. -/
theorem remove_of_run {s : Removal} {operand : String} {operands : List String}
    (hread : Removal.rules.read ⟨false, false, false⟩ call.arguments = .ok (s, operand :: operands)) :
    remove call files = (operand :: operands).foldlM (removeFile call s) .success files := by
  rw [remove, hread]

/-- **`rm` and the names it is given**, none of which is the root of a tree. It always ends with an
outcome and leaves a tree. When it succeeds no operand leads to anything any more, and the only
operands that are still something themselves are links that lead to nothing, which `-f` passes over.
A single link is removed without `-r`, and nothing else, exactly when it leads to something that is
no directory; otherwise nothing is removed, and this is a success only for a link that leads to
nothing, with `-f`. -/
theorem remove_operands (h : files.IsTree) {s : Removal} {operands : List String}
    (hread : Removal.rules.read ⟨false, false, false⟩ call.arguments = .ok (s, operands))
    (hroot : ∀ operand ∈ operands, pathOf call operand ≠ "/") :
    ∃ o later, remove call files = (.ok o, later) ∧ later.IsTree ∧
      (o.status = 0 → ∀ operand ∈ operands, later.has (pathOf call operand) = false ∧
        ∀ e, later.statLink (pathOf call operand) = .ok e →
          s.force = true ∧ ∃ target, e.node = .link target) ∧
      ∀ operand place e target, operands = [operand] → s.recursive = false →
        files.lookup (pathOf call operand) false = .ok (place, e) → e.node = .link target →
        (files.has (pathOf call operand) = true ∧
            files.isDirectory (pathOf call operand) = false →
          o.status = 0 ∧ ∀ q, later.entryAt? q = if q = place then none else files.entryAt? q) ∧
        (¬ (files.has (pathOf call operand) = true ∧
            files.isDirectory (pathOf call operand) = false) →
          later = files ∧
            (o.status = 0 ↔ files.has (pathOf call operand) = false ∧ s.force = true)) := by
  cases operands with
  | nil =>
    refine ⟨if s.force then .success else refuse "rm" (.missing "missing operand") 1, files, ?_, h,
      by simp, by simp⟩
    simp only [remove, hread]
    cases s.force <;> rfl
  | cons operand operands =>
    obtain ⟨o, later, hrun, htree, -, hdone⟩ := foldlM_removeFile h s .success hroot
    refine ⟨o, later, (remove_of_run hread).trans hrun, htree, fun hstatus => (hdone hstatus).2, ?_⟩
    rintro _ place e target ⟨⟩ hrecursive hlookup hlink
    have hone : removeFile call s .success operand files = (.ok o, later) := by
      rw [List.foldlM_cons, bind_apply] at hrun
      rcases hfirst : removeFile call s .success operand files with ⟨f | o', next⟩ <;>
        rw [hfirst] at hrun
      · cases hrun
      · exact hrun
    exact removeFile_link h (hroot operand List.mem_cons_self) hrecursive hlookup hlink rfl hone

/-- A file in a directory, with links to the file, to the directory and to nothing. -/
def linked : FileSystem :=
  (FileSystem.Change.makeLink "missing" "/m").apply
    ((FileSystem.Change.makeLink "d" "/p").apply
      ((FileSystem.Change.makeLink "d/x" "/g").apply
        ((FileSystem.Change.write "/d/x" "text").apply
          ((FileSystem.Change.makeDirectory "/d" false).apply (.ofClock ⟨0, 0⟩)))))

theorem isTree_linked : linked.IsTree :=
  FileSystem.isTree_makeLink
    (FileSystem.isTree_makeLink
      (FileSystem.isTree_makeLink
        ((FileSystem.isTree_write_iff
          (FileSystem.isTree_makeDirectory (FileSystem.isTree_ofClock ⟨0, 0⟩) "/d" false)
          "/d/x" "text").2 (of_decide_eq_true (by cbv))) _ _) _ _) _ _

/-- A file is removed over a link to its directory; the link to the file, which leads to nothing from
then on, is passed over. -/
theorem remove_operands_linked :
    linked.IsTree ∧ Removal.rules.read ⟨false, false, false⟩ ["-f", "p/x", "g"] =
      .ok (⟨true, false, false⟩, ["p/x", "g"]) ∧
    ∃ later, remove ⟨["-f", "p/x", "g"], "", "/", .empty, .bare⟩ linked = (.ok .success, later) ∧
      later.IsTree ∧ later.has "/p/x" = false ∧ later.has "/g" = false := by
  have hread : Removal.rules.read ⟨false, false, false⟩ ["-f", "p/x", "g"] =
      .ok (⟨true, false, false⟩, ["p/x", "g"]) := by cbv
  have hfirst : pathOf ⟨["-f", "p/x", "g"], "", "/", .empty, .bare⟩ "p/x" = "/p/x" := by cbv
  have hsecond : pathOf ⟨["-f", "p/x", "g"], "", "/", .empty, .bare⟩ "g" = "/g" := by cbv
  obtain ⟨o, later, hrun, htree, hdone, -⟩ :=
    @remove_operands ⟨["-f", "p/x", "g"], "", "/", .empty, .bare⟩ linked isTree_linked _ _ hread
      (by simp [hfirst, hsecond])
  have hsuccess : (remove ⟨["-f", "p/x", "g"], "", "/", .empty, .bare⟩ linked).1.toOption =
      some .success := by decide +kernel
  rw [hrun] at hsuccess
  cases hsuccess
  have hall := hdone rfl
  refine ⟨isTree_linked, hread, later, hrun, htree, ?_, ?_⟩
  · rw [← hfirst]
    exact (hall "p/x" (by simp)).1
  · rw [← hsecond]
    exact (hall "g" (by simp)).1

/-- With `-f` the link to nothing stays although `rm` succeeds; without, it is said to be missing, and
the link to the directory is said to be one. -/
theorem remove_keeps_links :
    linked.IsTree ∧
      (remove ⟨["-f", "m"], "", "/", .empty, .bare⟩ linked).1.toOption = some .success ∧
      (remove ⟨["-f", "m"], "", "/", .empty, .bare⟩ linked).2.readLink "/m" = .ok "missing" ∧
      (remove ⟨["m"], "", "/", .empty, .bare⟩ linked).1.toOption =
        some ⟨⟨"", "rm: cannot remove 'm': No such file or directory\n"⟩, 1⟩ ∧
      (remove ⟨["p"], "", "/", .empty, .bare⟩ linked).1.toOption =
        some ⟨⟨"", "rm: cannot remove 'p': Is a directory\n"⟩, 1⟩ ∧
      (remove ⟨["p"], "", "/", .empty, .bare⟩ linked).2.readLink "/p" = .ok "d" :=
  ⟨isTree_linked, by decide +kernel, by decide +kernel, by decide +kernel, by decide +kernel,
    by decide +kernel⟩

end Utility.File

end VirtualShell
