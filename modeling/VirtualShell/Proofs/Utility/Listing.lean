import VirtualShell.Proofs.Utility.Basic
import VirtualShell.Utility.Listing

/-!
# Listing that breaks

`ls` shows a directory in another one under the name of the outer one, a slash and its own name. This
name leads to the directory again, unless the name of the outer one is empty: then it leads to a
directory at the root, if there is one. So going down from an empty operand may break, and nothing
else does.

* `Path.resolve_inner` — the name under which a directory in another one is shown.
* `Utility.Listing.Inner` — the directories that are gone down into.
* `Utility.Listing.breaksAt_listDirectory_succ` — one directory of a listing.
* **`Utility.Listing.breaksAt_run`** — when `ls` breaks.
-/

namespace VirtualShell

/-! ## Names of directories in others -/

namespace Path

variable {name shown : String}

/-- A proper name means the entry of this name. -/
theorem resolve_name (hname : IsName name) (p : Path) : p.resolve name = p.child name := by
  obtain ⟨hempty, hdot, hdots, hslash⟩ := hname
  rw [resolve_of_no_slash hslash, step]
  simp [hempty, hdot, hdots, child]

/-- Slashes at the end of a text do not matter, as long as something stands before them. -/
theorem foldl_step_slashes (parts : List String) (text : List Char) (count : Nat) :
    ((Text.cut '/' (text ++ List.replicate count '/')).map String.ofList).foldl step parts =
      ((Text.cut '/' text).map String.ofList).foldl step parts := by
  induction count with
  | zero => simp
  | succ count ih =>
    have hempty (parts : List String) : step parts (String.ofList []) = parts := rfl
    rw [List.replicate_succ', ← List.append_assoc, Text.cut_append_separator]
    simp [ih, Text.cut, hempty]

/-- A text is what is left without the slashes at its end, and these. -/
theorem toList_eq_dropSlashes (text : String) :
    ∃ count, text.toList = (Text.dropSlashes text).toList ++ List.replicate count '/' := by
  have hsplit := List.takeWhile_append_dropWhile (p := (· == '/')) (l := text.toList.reverse)
  have hslashes : text.toList.reverse.takeWhile (· == '/') =
      List.replicate (text.toList.reverse.takeWhile (· == '/')).length '/' :=
    List.eq_replicate_of_mem fun c hc => by simpa using List.mem_takeWhile_imp hc
  refine ⟨(text.toList.reverse.takeWhile (· == '/')).length, ?_⟩
  rw [Text.dropSlashes, String.toList_ofList, ← List.reverse_inj, List.reverse_append,
    List.reverse_reverse, List.reverse_replicate, ← hslashes, hsplit]

/-- **The name under which a directory in another one is shown** means it again, unless the other one
has no name. -/
theorem resolve_inner (hname : IsName name) (hshown : shown ≠ "") (p : Path) :
    p.resolve (Text.dropSlashes shown ++ "/" ++ name) = (p.resolve shown).child name := by
  obtain ⟨count, hlist⟩ := toList_eq_dropSlashes shown
  have hinner : (Text.dropSlashes shown ++ "/" ++ name).toList =
      (Text.dropSlashes shown).toList ++ '/' :: name.toList := by simp
  generalize Text.dropSlashes shown ++ "/" ++ name = inner at hinner
  generalize (Text.dropSlashes shown).toList = kept at hlist hinner
  -- both texts start at the root, or both at the path
  have hstart : inner.startsWith "/" = shown.startsWith "/" := by
    rw [Bool.eq_iff_iff, String.startsWith_string_iff, String.startsWith_string_iff, hinner, hlist]
    cases kept with
    | cons c kept => simp
    | nil =>
      cases count with
      | zero => exact absurd (String.toList_inj.1 hlist) hshown
      | succ => simp [List.replicate_succ]
  have hfold (parts : List String) : (Text.cutAt '/' inner).foldl step parts =
      (Text.cutAt '/' shown).foldl step parts ++ [name] := by
    have hnames : ∀ other ∈ [name], IsName other := by simpa using hname
    rw [Text.cutAt, Text.cutAt, hinner, hlist, foldl_step_slashes, Text.cut_append_separator,
      Text.cut_of_not_mem hname.no_slash]
    simpa using foldl_step hnames _
  simp [resolve, hstart, hfold, child]

end Path

namespace Utility.Listing

variable {call : Call} {files : FileSystem} {s : Settings}

/-! ## Lines -/

theorem quiet_line (host : Host) (s : Settings) (name path : String) :
    Quiet (line host s name path) := by
  rw [line]
  split
  · exact (quiet_ask _).bind fun _ => quiet_pure _
  · exact quiet_pure _

/-- A line can be written of what can be seen. -/
theorem not_breaksAt_line {host : Host} {name path : String}
    (h : ∃ e, files.statLink path = .ok e) : ¬ BreaksAt files (line host s name path) := by
  obtain ⟨e, he⟩ := h
  rw [line]
  split
  · rw [breaksAt_bind_pure, breaksAt_ask, he]
    simp
  · exact not_breaksAt_pure _

/-! ## Directories -/

theorem quiet_listDirectory (call : Call) (s : Settings) (withHeaders : Bool) (depth : Nat)
    (page : Page) (shown : String) : Quiet (listDirectory call s withHeaders depth page shown) := by
  induction depth generalizing page shown with
  | zero => exact quiet_pure page
  | succ depth ih =>
    rw [listDirectory]
    refine (quiet_ask _).bind fun names => ?_
    refine (quiet_mapM (fun name => quiet_line _ _ _ _) _).bind fun lines => ?_
    dsimp only
    split
    · exact quiet_get.bind fun _ => quiet_foldlM (fun page shown => ih page shown) _ _
    · exact quiet_pure _

/-- **The directories that are gone down into** from a directory: those that are shown in it. -/
def Inner (call : Call) (s : Settings) (files : FileSystem) (shown name : String) : Prop :=
  ∃ names, files.list (pathOf call shown) = .ok names ∧ name ∈ names ∧
    (s.hidden ∨ ¬ name.startsWith ".") ∧
    files.isDirectory (pathAt (pathOf call shown) name)

/-- The path of an operand is written as it is read. -/
theorem ofString_pathOf (call : Call) (operand : String) :
    Path.ofString (pathOf call operand) = (Path.ofString call.directory).resolve operand :=
  Path.ofString_render (Path.isNormal_resolve (Path.isNormal_ofString _) _)

/-- **The names in a directory** that an operand leads to: each can be seen, and is proper. -/
theorem list_spec (hfiles : ∀ p ∈ files.entries.keys, p.IsNormal) {operand : String}
    (hdirectory : files.isDirectory (pathOf call operand)) :
    ∃ names, files.list (pathOf call operand) = .ok names ∧ ∀ name ∈ names,
      Path.IsName name ∧ ∃ e, files.statLink (pathAt (pathOf call operand) name) = .ok e := by
  obtain ⟨place, hfollow, hnode⟩ := FileSystem.isDirectory_eq_true_iff.1 hdirectory
  obtain ⟨names, hlist, hnames⟩ := FileSystem.exists_list hfollow hnode
  refine ⟨names, hlist, fun name hname => ?_⟩
  have hmem := (hnames name).1 hname
  have hproper : Path.IsName name := hfiles _ hmem name (by simp [Path.child])
  rw [ofString_pathOf] at hfollow
  have hnormal : ((Path.ofString call.directory).resolve operand).IsNormal :=
    Path.isNormal_resolve (Path.isNormal_ofString _) _
  refine ⟨hproper, ?_⟩
  rw [pathAt, ofString_pathOf, Path.resolve_name hproper]
  exact FileSystem.exists_statLink_child hnormal hproper hfollow hnode hmem

/-- What is no directory is not listed. -/
theorem exists_list_error {text : String} (hdirectory : ¬ files.isDirectory text) :
    ∃ e, files.list text = .error e := by
  rw [FileSystem.list]
  rcases hlookup : files.lookup text true with e | ⟨place, node, mode, modified⟩
  · exact ⟨e, rfl⟩
  · cases node with
    | directory =>
      obtain ⟨hfollow, he⟩ := FileSystem.lookup_eq_ok_iff.1 hlookup
      have hnode := FileSystem.nodeAt?_eq_some_iff.2 ⟨mode, modified, he⟩
      exact absurd (FileSystem.isDirectory_eq_true_iff.2 ⟨place, hfollow, hnode⟩) hdirectory
    | file | link => exact ⟨_, rfl⟩

theorem Inner.isName (hfiles : ∀ p ∈ files.entries.keys, p.IsNormal) {shown name : String}
    (hinner : Inner call s files shown name) : Path.IsName name := by
  obtain ⟨names, hlist, hname, -⟩ := hinner
  by_cases hdirectory : files.isDirectory (pathOf call shown)
  · obtain ⟨names', hlist', hnames⟩ := list_spec hfiles hdirectory
    rw [hlist] at hlist'
    cases hlist'
    exact (hnames name hname).1
  · obtain ⟨e, he⟩ := exists_list_error hdirectory
    rw [hlist] at he
    cases he

/-- **One directory of a listing** breaks it if it is none, or if one of the directories in it does
when the listing goes down. -/
theorem breaksAt_listDirectory_succ (hfiles : ∀ p ∈ files.entries.keys, p.IsNormal)
    {withHeaders : Bool} {depth : Nat} {shown : String} (Breaks : String → Prop)
    (hinner : ∀ name, Inner call s files shown name → ∀ page,
      BreaksAt files (listDirectory call s withHeaders depth page
        (Text.dropSlashes shown ++ "/" ++ name)) ↔ Breaks name) (page : Page) :
    BreaksAt files (listDirectory call s withHeaders (depth + 1) page shown) ↔
      ¬ files.isDirectory (pathOf call shown) ∨
        s.recursive ∧ ∃ name, Inner call s files shown name ∧ Breaks name := by
  rw [listDirectory, (quiet_ask _).breaksAt_bind, breaksAt_ask, ask_apply]
  by_cases hdirectory : files.isDirectory (pathOf call shown)
  · obtain ⟨names, hlist, hnames⟩ := list_spec hfiles hdirectory
    have hshown (name : String) : Inner call s files shown name ↔
        (name ∈ if s.hidden then names else names.filter fun name => !name.startsWith ".") ∧
          files.isDirectory (pathAt (pathOf call shown) name) := by
      cases hhidden : s.hidden <;> simp [Inner, hlist, hhidden, and_assoc]
    have hsome (name : String)
        (hname : name ∈ if s.hidden then names else names.filter fun name => !name.startsWith ".") :
        name ∈ names := by
      split at hname
      · exact hname
      · exact List.mem_of_mem_filter hname
    simp only [hlist, Except.mapError, reduceCtorEq, exists_false, false_or, Except.ok.injEq,
      exists_eq_left', hdirectory, not_true]
    generalize (if s.hidden then names else names.filter fun name => !name.startsWith ".") =
      visible at hshown hsome
    have hlines : ¬ BreaksAt files (visible.mapM fun name =>
        line call.host s name (pathAt (pathOf call shown) name)) := by
      rw [breaksAt_mapM fun name => quiet_line _ _ _ _]
      rintro ⟨name, hname, hbreaks⟩
      exact not_breaksAt_line (hnames name (hsome name hname)).2 hbreaks
    obtain ⟨lines, hlines'⟩ := not_breaksAt_iff.1 hlines
    rw [(quiet_mapM (fun name => quiet_line _ _ _ _) _).breaksAt_bind]
    simp only [hlines, hlines', false_or, Except.ok.injEq, exists_eq_left']
    split
    · next hrecursive =>
      rw [breaksAt_get_bind, List.foldlM_map, breaksAt_foldlM_of_quiet
        Breaks (fun _ _ => quiet_listDirectory _ _ _ _ _ _)]
      · simp [hrecursive, hshown, and_assoc]
      · intro page name hname
        exact hinner name ((hshown name).2 (by simpa using hname)) page
    · next hrecursive => exact iff_of_false (not_breaksAt_pure _) (by simp [hrecursive])
  · obtain ⟨e, he⟩ := exists_list_error hdirectory
    simp [he, hdirectory]

theorem slash_ne_empty (shown name : String) : shown ++ "/" ++ name ≠ "" := by
  intro h
  simpa using congrArg String.toList h

/-- **A directory that has a name**, or is shown under one, is listed with all that is in it. -/
theorem breaksAt_listDirectory (hfiles : ∀ p ∈ files.entries.keys, p.IsNormal)
    {withHeaders : Bool} {shown : String} (hshown : shown ≠ "") (depth : Nat) (page : Page) :
    BreaksAt files (listDirectory call s withHeaders depth page shown) ↔
      0 < depth ∧ ¬ files.isDirectory (pathOf call shown) := by
  induction depth generalizing page shown with
  | zero => exact iff_of_false (not_breaksAt_pure page) (by simp)
  | succ depth ih =>
    rw [breaksAt_listDirectory_succ hfiles fun _ => False]
    · simp
    · intro name hinner page
      have hproper := hinner.isName hfiles
      obtain ⟨-, -, -, -, hdirectory⟩ := hinner
      have hpath : pathOf call (Text.dropSlashes shown ++ "/" ++ name) =
          pathAt (pathOf call shown) name := by
        rw [pathAt, ofString_pathOf, pathOf, Path.resolve_inner hproper hshown,
          Path.resolve_name hproper]
      rw [ih (slash_ne_empty _ _), hpath]
      simp [hdirectory]

/-- **Going down from an empty operand** breaks a listing where a directory of the same name is
missing at the root. -/
def Misleads (call : Call) (s : Settings) (files : FileSystem) : Prop :=
  ∃ name, Inner call s files "" name ∧ ¬ files.isDirectory (pathOf call ("/" ++ name))

theorem breaksAt_listDirectory_empty (hfiles : ∀ p ∈ files.entries.keys, p.IsNormal)
    {withHeaders : Bool} (depth : Nat)
    (hdirectory : files.isDirectory (pathOf call "")) (page : Page) :
    BreaksAt files (listDirectory call s withHeaders (depth + 2) page "") ↔
      s.recursive ∧ Misleads call s files := by
  rw [breaksAt_listDirectory_succ hfiles fun name => ¬ files.isDirectory (pathOf call ("/" ++ name))]
  · simp [hdirectory, Misleads]
  · intro name _ page
    have hshown : Text.dropSlashes "" ++ "/" ++ name = "/" ++ name := by
      simp [Text.dropSlashes]
    rw [breaksAt_listDirectory hfiles (slash_ne_empty _ _), hshown]
    simp

/-- **`ls` breaks** when it goes down from an empty operand and gets lost. -/
theorem breaksAt_run (hfiles : ∀ p ∈ files.entries.keys, p.IsNormal) :
    BreaksAt files (run call) ↔ ∃ s names,
    readArguments ⟨false, false, false, false⟩ call.arguments = .ok (s, names) ∧
      "" ∈ names ∧ s.recursive ∧ s.directoriesThemselves = false ∧ Misleads call s files := by
  rw [run]
  rcases readArguments ⟨false, false, false, false⟩ call.arguments with e | ⟨s, names⟩
  · exact iff_of_false (not_breaksAt_pure _) (by simp)
  · dsimp only
    rw [breaksAt_get_bind]
    have hlisted : ¬ BreaksAt files ((sortOperands call s files
        (if names.isEmpty then ["."] else names)).files.mapM fun name =>
          line call.host s name (pathOf call name)) := by
      rw [breaksAt_mapM fun name => quiet_line _ _ _ _]
      rintro ⟨name, hname, hbreaks⟩
      simp only [sortOperands, List.mem_filter, Bool.not_not, Bool.and_eq_true] at hname
      exact not_breaksAt_line (FileSystem.exists_statLink hname.2.1) hbreaks
    obtain ⟨lines, hlines⟩ := not_breaksAt_iff.1 hlisted
    have hdirectories (name : String) : name ∈ (sortOperands call s files
        (if names.isEmpty then ["."] else names)).directories ↔
        name ∈ (if names.isEmpty then ["."] else names) ∧ files.has (pathOf call name) ∧
          files.isDirectory (pathOf call name) ∧ s.directoriesThemselves = false := by
      simp [sortOperands]
    have hdepth : maxDepth files = maxDepth files - 2 + 2 := by
      rw [maxDepth, maxLinks]
      omega
    rw [(quiet_mapM (fun name => quiet_line _ _ _ _) _).breaksAt_bind]
    simp only [hlisted, hlines, false_or, Except.ok.injEq, exists_eq_left']
    rw [breaksAt_bind_pure, breaksAt_foldlM_of_quiet
      (fun name => name = "" ∧ s.recursive ∧ Misleads call s files)
      fun _ _ => quiet_listDirectory _ _ _ _ _ _]
    · have hnamed : "" ∈ (if names.isEmpty then ["."] else names) ↔ "" ∈ names := by
        cases names <;> simp
      have hdirectory (hmisleads : Misleads call s files) :
          files.has (pathOf call "") ∧ files.isDirectory (pathOf call "") := by
        obtain ⟨name, ⟨names, hlist, -⟩, -⟩ := hmisleads
        by_cases hdirectory : files.isDirectory (pathOf call "")
        · exact ⟨FileSystem.has_of_isDirectory hdirectory, hdirectory⟩
        · obtain ⟨e, he⟩ := exists_list_error hdirectory
          rw [hlist] at he
          cases he
      constructor
      · rintro ⟨name, hname, rfl, hrecursive, hmisleads⟩
        obtain ⟨hmem, -, -, hthemselves⟩ := (hdirectories "").1 hname
        exact ⟨s, names, rfl, hnamed.1 hmem, hrecursive, hthemselves, hmisleads⟩
      · rintro ⟨_, _, ⟨⟩, hmem, hrecursive, hthemselves, hmisleads⟩
        obtain ⟨hhas, hdirectory⟩ := hdirectory hmisleads
        exact ⟨"", (hdirectories "").2 ⟨hnamed.2 hmem, hhas, hdirectory, hthemselves⟩, rfl,
          hrecursive, hmisleads⟩
    · intro page name hname
      obtain ⟨-, -, hdirectory, -⟩ := (hdirectories name).1 hname
      by_cases hempty : name = ""
      · subst hempty
        rw [hdepth, breaksAt_listDirectory_empty hfiles _ hdirectory]
        simp
      · rw [breaksAt_listDirectory hfiles hempty]
        simp [hdirectory, hempty]

end Utility.Listing

end VirtualShell
