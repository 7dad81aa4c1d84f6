import VirtualShell.Glob.Pathname
import VirtualShell.Proofs.FileSystem.Path
import VirtualShell.Proofs.Glob.Match

/-!
# The paths that a pattern stands for

The names at the start of a pattern that hold no wildcards lead to its base, and the paths below the
base are compared with the other names one by one. What is found is written in the form of the
pattern, so it means, read where the pattern was, just the path that was found; and different paths
are written in different ways.

Paths are compared as texts. That the texts of the paths below a directory are those that start like
it, also at the root and next to a directory whose name begins in the same way, is shown on their
pieces between slashes: a text is determined by them.

* `MatchesName` — a name is matched by a name of a pattern.
* `baseOf`, `written` — where a pattern is looked for, and how a path is written.
* `namesBelow?_render` — the names of a path below a directory.
* `resolve_written` — what is written means the path that was found.
* **`paths_isExact`** — a pattern stands for the paths that it matches, each of them once.
-/

namespace VirtualShell.Glob

/-! ## The names of a pattern -/

/-- The names of a pattern. -/
def namesOf (pattern : String) : List String := (Text.cutAt '/' pattern).filter (· != "")

/-- The names at the start of a pattern that hold no wildcards, without what protects their
characters. -/
def leadingNames (pattern : String) : List String :=
  ((namesOf pattern).takeWhile fun name => !hasWildcard name).map unescape

/-- The names of a pattern from the first one with a wildcard on. -/
def patternsOf (pattern : String) : List String :=
  (namesOf pattern).dropWhile fun name => !hasWildcard name

/-- **The base** of a pattern: where the names at its start lead from the root or from the
directory, whether there is anything or not. -/
def baseOf (cwd : Path) (pattern : String) : Path :=
  ⟨(leadingNames pattern).foldl Path.step (if pattern.startsWith "/" then [] else cwd.parts)⟩

/-- How the path of some names below the base is written. -/
def written (pattern : String) (names : List String) : String :=
  (if pattern.startsWith "/" then "/" else "") ++ "/".intercalate (leadingNames pattern ++ names)

/-- **A name is matched by a name of a pattern.** One that starts with a dot is matched only if the
pattern starts with this dot. -/
structure MatchesName (pattern name : String) : Prop where
  dot : name.startsWith "." → pattern.startsWith "." ∨ pattern.startsWith "\\."
  atoms : ∃ atoms, compile pattern = .ok atoms ∧ Matches atoms name.toList

theorem paths_eq (files : FileSystem) (cwd pattern : String) : paths files cwd pattern =
    if (patternsOf pattern).isEmpty then return []
    else do
      let found ← matchesBelow ((leadingNames pattern).foldl
        (fun base name => ((Path.ofString base).resolve name).render)
        (if pattern.startsWith "/" then "/" else cwd)) (patternsOf pattern) files.paths
      return (found.map (written pattern)).mergeSort fun a b => decide (a ≤ b) := rfl

/-! ## Matching names -/

theorem startsWith_unescape_dot (pattern : String) : (unescape pattern).startsWith "." ↔
    pattern.startsWith "." ∨ pattern.startsWith "\\." := by
  simp only [String.startsWith_string_iff, unescape, String.toList_ofList]
  rcases pattern.toList with - | ⟨c, - | ⟨d, rest⟩⟩
  · simp [unprotect]
  · by_cases hc : c = '\\' <;> simp [unprotect, hc]
  · by_cases hc : c = '\\' <;> simp [unprotect, hc, eq_comm]

theorem matchesName_eq {pattern : String} {atoms : List Atom} (h : compile pattern = .ok atoms)
    (name : String) :
    ∃ b, matchesName pattern name = .ok b ∧ (b = true ↔ MatchesName pattern name) := by
  have hmatch : MatchesName pattern name ↔
      (name.startsWith "." → (unescape pattern).startsWith ".") ∧ isMatch atoms name.toList := by
    rw [startsWith_unescape_dot, isMatch_iff]
    constructor
    · rintro ⟨hdot, atoms', hatoms, hmatches⟩
      obtain rfl : atoms = atoms' := Except.ok.inj (h.symm.trans hatoms)
      exact ⟨hdot, hmatches⟩
    · rintro ⟨hdot, hmatches⟩
      exact ⟨hdot, atoms, h, hmatches⟩
  rw [matchesName, hmatch]
  split
  · next hhidden =>
    simp only [Bool.and_eq_true, Bool.not_eq_true'] at hhidden
    refine ⟨false, rfl, ?_⟩
    simp [hhidden]
  · next hshown =>
    simp only [Bool.and_eq_true, Bool.not_eq_true', not_and, Bool.not_eq_false] at hshown
    refine ⟨isMatch atoms name.toList, ?_, ?_⟩
    · rw [isMatchOf, h]
      rfl
    · exact ⟨fun hmatch => ⟨hshown, hmatch⟩, And.right⟩

theorem matchesNames_eq {patterns : List String}
    (h : ∀ p ∈ patterns, ∃ atoms, compile p = .ok atoms) (names : List String) :
    ∃ b, matchesNames patterns names = .ok b ∧
      (b = true ↔ List.Forall₂ MatchesName patterns names) := by
  rw [matchesNames]
  split
  · next hlength =>
    induction patterns generalizing names with
    | nil =>
      obtain rfl : names = [] := List.eq_nil_of_length_eq_zero hlength.symm
      exact ⟨true, rfl, by simp⟩
    | cons pattern patterns ih =>
      obtain ⟨⟨atoms, hatoms⟩, hrest⟩ := List.forall_mem_cons.1 h
      cases names with
      | nil => cases hlength
      | cons name names =>
        obtain ⟨first, hfirst, hfirst_iff⟩ := matchesName_eq hatoms name
        obtain ⟨rest, hrest, hrest_iff⟩ := ih hrest names (Nat.succ.inj hlength)
        refine ⟨first && rest, ?_,
          by rw [Bool.and_eq_true, hfirst_iff, hrest_iff, List.forall₂_cons]⟩
        rw [matchesEach, hfirst]
        cases first
        · rfl
        · exact hrest
  · next hlength =>
    exact ⟨false, rfl, by simpa using fun hmatch => hlength hmatch.length_eq⟩

/-- The names below a directory that are found, when it is known which ones the patterns match. -/
theorem matchesBelow_eq {patterns : List String} {test : List String → Bool}
    (h : ∀ names, matchesNames patterns names = .ok (test names)) (base : String)
    (texts : List String) : matchesBelow base patterns texts =
      .ok ((texts.filterMap (namesBelow? base)).filter test) := by
  induction texts with
  | nil => rfl
  | cons text texts ih =>
    rw [matchesBelow, ih]
    rcases hbelow : namesBelow? base text with - | names
    · rw [List.filterMap_cons_none hbelow]
    · rw [List.filterMap_cons_some hbelow, List.filter_cons]
      dsimp only
      rw [h]
      cases test names <;> rfl

/-! ## Names below a directory -/

/-- What the paths below a directory start with. -/
def startOf (base : String) : String := if base = "/" then "/" else base ++ "/"

theorem namesBelow?_eq_some_iff {base text : String} {names : List String} :
    namesBelow? base text = some names ↔ text ≠ base ∧ ∃ rest,
      text.toList = (startOf base).toList ++ rest ∧
        (Text.cut '/' rest).map String.ofList = names := by
  have hbelow : namesBelow? base text = if (text.startsWith (startOf base) && text != base) = true
      then some (Text.cutAt '/' (text.drop (startOf base).length).toString) else none := rfl
  have hdrop {rest : List Char} (h : text.toList = (startOf base).toList ++ rest) :
      Text.cutAt '/' (text.drop (startOf base).length).toString =
        (Text.cut '/' rest).map String.ofList := by
    have hlength : (startOf base).length = (startOf base).toList.length := String.length_toList.symm
    simp [Text.cutAt, h, hlength]
  rw [hbelow, Option.ite_none_right_eq_some, Bool.and_eq_true, String.startsWith_string_iff,
    bne_iff_ne]
  constructor
  · rintro ⟨⟨⟨rest, hrest⟩, hne⟩, hnames⟩
    rw [hdrop hrest.symm] at hnames
    exact ⟨hne, rest, hrest.symm, Option.some.inj hnames⟩
  · rintro ⟨hne, rest, hrest, rfl⟩
    exact ⟨⟨⟨rest, hrest.symm⟩, hne⟩, congrArg some (hdrop hrest)⟩

section

variable {base p : Path} (hbase : base.IsNormal) (hp : p.IsNormal)

include hbase in
/-- The pieces of a text that starts like the paths below a directory. -/
theorem cut_startOf (rest : List Char) : Text.cut '/' ((startOf base.render).toList ++ rest) =
    [] :: (base.parts.map String.toList ++ Text.cut '/' rest) := by
  by_cases hroot : base = .root
  · rw [hroot]
    rfl
  · have hstart : (startOf base.render).toList = base.render.toList ++ ['/'] := by
      rw [startOf, if_neg fun h => hroot ((Path.render_eq_slash_iff hbase).1 h)]
      simp
    have hparts : base.parts ≠ [] := fun h => hroot (congrArg Path.mk h)
    rw [hstart, List.append_assoc, List.singleton_append, Text.cut_append_separator,
      Text.cut_toList, Path.cutAt_render hbase, if_neg hparts]
    rfl

include hbase hp in
/-- **The names below a directory** are those that a path has behind the names of the directory. -/
theorem namesBelow?_render {names : List String} : namesBelow? base.render p.render = some names ↔
    names ≠ [] ∧ p.parts = base.parts ++ names := by
  have hpieces : Text.cut '/' p.render.toList =
      [] :: (if p.parts = [] then [""] else p.parts).map String.toList := by
    rw [Text.cut_toList, Path.cutAt_render hp]
    rfl
  rw [namesBelow?_eq_some_iff]
  constructor
  · rintro ⟨hne, rest, htext, rfl⟩
    have hnames : (Text.cut '/' rest).map String.ofList ≠ [] := by
      simpa using Text.cut_ne_nil '/' rest
    rw [htext, cut_startOf hbase, List.cons.injEq] at hpieces
    have hall := congrArg (List.map String.ofList) hpieces.2
    simp only [List.map_append, List.map_map, Function.comp_def, String.ofList_toList, List.map_id']
      at hall
    refine ⟨hnames, ?_⟩
    split at hall
    · next hroot =>
      have hlength := congrArg List.length hall
      have hpos := List.length_pos_of_ne_nil hnames
      have hbaseroot : base.parts = [] := by
        rw [← List.length_eq_zero_iff]
        simp only [List.length_append, List.length_singleton] at hlength
        omega
      exact absurd (congrArg Path.render (congrArg Path.mk (hroot.trans hbaseroot.symm))) hne
    · exact hall.symm
  · rintro ⟨hnames, hparts⟩
    have hslash : ∀ name ∈ names, '/' ∉ name.toList := fun name hname =>
      (hp name (hparts ▸ List.mem_append_right _ hname)).no_slash
    have hcut := Text.cutAt_intercalate hnames hslash
    refine ⟨fun hrender => ?_, ("/".intercalate names).toList, ?_, hcut⟩
    · obtain rfl := Path.render_injOn hp hbase hrender
      exact hnames (by simpa using hparts)
    · have hne : p.parts ≠ [] := by simp [hparts, hnames]
      refine Text.cut_injective '/' ?_
      rw [hpieces, if_neg hne, cut_startOf hbase, Text.cut_toList, hcut, hparts, List.map_append]

end

/-! ## The base -/

theorem unprotect_sublist (pattern : List Char) : (unprotect pattern).Sublist pattern := by
  fun_induction unprotect pattern with
  | case1 c rest ih => exact (ih.cons_cons c).cons _
  | case2 c rest _ ih => exact ih.cons_cons c
  | case3 => exact .slnil

theorem unprotect_ne_nil {pattern : List Char} (h : pattern ≠ []) : unprotect pattern ≠ [] := by
  fun_cases unprotect pattern with
  | case1 | case2 => exact List.cons_ne_nil _ _
  | case3 => exact absurd rfl h

variable {pattern name : String}

theorem ne_empty_of_mem_namesOf (h : name ∈ namesOf pattern) : name ≠ "" := by
  simpa using (List.mem_filter.1 h).2

theorem no_slash_of_mem_namesOf (h : name ∈ namesOf pattern) : '/' ∉ name.toList :=
  Path.no_slash_of_mem_cutAt (List.mem_filter.1 h).1

theorem mem_leadingNames (h : name ∈ leadingNames pattern) :
    ∃ written ∈ namesOf pattern, unescape written = name := by
  obtain ⟨written, hwritten, rfl⟩ := List.mem_map.1 h
  exact ⟨written, (List.takeWhile_sublist _).subset hwritten, rfl⟩

theorem ne_empty_of_mem_leadingNames (h : name ∈ leadingNames pattern) : name ≠ "" := by
  obtain ⟨written, hwritten, rfl⟩ := mem_leadingNames h
  have hne := unprotect_ne_nil (String.toList_eq_nil_iff.not.2 (ne_empty_of_mem_namesOf hwritten))
  exact String.ofList_eq_empty_iff.not.2 hne

theorem no_slash_of_mem_leadingNames (h : name ∈ leadingNames pattern) : '/' ∉ name.toList := by
  obtain ⟨written, hwritten, rfl⟩ := mem_leadingNames h
  rw [unescape, String.toList_ofList]
  exact fun hslash => no_slash_of_mem_namesOf hwritten ((unprotect_sublist _).subset hslash)

variable {cwd : Path} (hcwd : cwd.IsNormal)

/-- Names one after another lead from a place on the way that they lead together. -/
theorem foldl_resolve {names : List String} (h : ∀ name ∈ names, '/' ∉ name.toList) {start : Path}
    (hstart : start.IsNormal) :
    names.foldl (fun base name => ((Path.ofString base).resolve name).render) start.render =
      (⟨names.foldl Path.step start.parts⟩ : Path).render := by
  induction names generalizing start with
  | nil => rfl
  | cons name names ih =>
    obtain ⟨hname, hnames⟩ := List.forall_mem_cons.1 h
    have hnext : Path.IsNormal ⟨Path.step start.parts name⟩ := Path.isName_step hstart hname
    rw [List.foldl_cons, List.foldl_cons, Path.ofString_render hstart,
      Path.resolve_of_no_slash hname, ih hnames hnext]

include hcwd

theorem isNormal_baseOf : (baseOf cwd pattern).IsNormal := by
  refine Path.isName_foldl_step (fun _ => no_slash_of_mem_leadingNames) ?_
  split
  · simp
  · exact hcwd

theorem foldl_leadingNames : (leadingNames pattern).foldl
    (fun base name => ((Path.ofString base).resolve name).render)
    (if pattern.startsWith "/" then "/" else cwd.render) = (baseOf cwd pattern).render := by
  rw [baseOf]
  split
  · exact foldl_resolve (fun _ => no_slash_of_mem_leadingNames) Path.isNormal_root
  · exact foldl_resolve (fun _ => no_slash_of_mem_leadingNames) hcwd

omit hcwd

/-! ## How paths are written -/

section

variable {names : List String} (hne : names ≠ []) (hnames : ∀ name ∈ names, Path.IsName name)

include hnames in
theorem ne_empty_of_mem_append : ∀ name ∈ leadingNames pattern ++ names, name ≠ "" :=
  List.forall_mem_append.2
    ⟨fun _ => ne_empty_of_mem_leadingNames, fun name hname => (hnames name hname).ne_empty⟩

include hne hnames

theorem cutAt_intercalate_append (pattern : String) :
    Text.cutAt '/' ("/".intercalate (leadingNames pattern ++ names)) =
      leadingNames pattern ++ names := by
  refine Text.cutAt_intercalate (by simp [hne]) (List.forall_mem_append.2 ⟨fun _ => ?_, ?_⟩)
  · exact no_slash_of_mem_leadingNames
  · exact fun name hname => (hnames name hname).no_slash

/-- Names that are joined start with no slash. -/
theorem not_startsWith_intercalate :
    ¬ ("/".intercalate (leadingNames pattern ++ names)).startsWith "/" := by
  intro hstart
  obtain ⟨rest, hrest⟩ := String.startsWith_string_iff.1 hstart
  have hcut := cutAt_intercalate_append hne hnames pattern
  rw [Text.cutAt, ← hrest] at hcut
  have hempty : "" ∈ leadingNames pattern ++ names := by
    rw [← hcut]
    simp [Text.cut]
  exact ne_empty_of_mem_append hnames "" hempty rfl

/-- **A path is written as an absolute one** when the pattern is. -/
theorem startsWith_written : (written pattern names).startsWith "/" = pattern.startsWith "/" := by
  rw [written]
  split
  · next habsolute =>
    rw [habsolute, String.startsWith_string_iff]
    simp
  · next hrelative =>
    rw [String.empty_append, eq_false_of_ne_true hrelative]
    exact eq_false_of_ne_true (not_startsWith_intercalate hne hnames)

/-- **A written path means** the names below the base. -/
theorem resolve_written :
    cwd.resolve (written pattern names) = ⟨(baseOf cwd pattern).parts ++ names⟩ := by
  have hjoined := cutAt_intercalate_append hne hnames pattern
  have hcut (parts : List String) : (Text.cutAt '/' (written pattern names)).foldl Path.step parts =
      (leadingNames pattern).foldl Path.step parts ++ names := by
    rw [← Path.foldl_step hnames, ← List.foldl_append, ← hjoined, written]
    split
    · rw [Text.cutAt_slash, List.foldl_cons, Path.step_empty]
    · rw [String.empty_append]
  rw [Path.resolve, startsWith_written hne hnames, hcut, baseOf]

/-- Different names are written in different ways. -/
theorem written_injOn {others : List String} (hothers : others ≠ [])
    (hproper : ∀ name ∈ others, Path.IsName name)
    (h : written pattern names = written pattern others) : names = others := by
  have hresolve := congrArg Path.root.resolve h
  rw [resolve_written hne hnames, resolve_written hothers hproper] at hresolve
  simpa using hresolve

end

/-! ## The paths that are found -/

theorem nodup_paths {files : FileSystem} (hfiles : ∀ p ∈ files.entries.keys, p.IsNormal) :
    files.paths.Nodup := by
  have hrender : (files.entries.keys.map Path.render).Nodup :=
    files.entries.nodup.map_on fun p hp q hq => Path.render_injOn (hfiles p hp) (hfiles q hq)
  exact (List.mergeSort_perm _ _).nodup_iff.2 hrender

/-- Sorted texts without repetitions come in strict order. -/
theorem pairwise_lt_mergeSort {texts : List String} (h : texts.Nodup) :
    (texts.mergeSort fun a b => decide (a ≤ b)).Pairwise (· < ·) := by
  have hsorted : (texts.mergeSort fun a b => decide (a ≤ b)).Pairwise
      fun a b => decide (a ≤ b) = true := by
    refine List.pairwise_mergeSort (fun a b c hab hbc => ?_) (fun a b => ?_) texts
    · exact decide_eq_true (le_trans (of_decide_eq_true hab) (of_decide_eq_true hbc))
    · simpa using le_total a b
  have hdistinct := (List.mergeSort_perm texts fun a b => decide (a ≤ b)).nodup_iff.2 h
  exact (hsorted.and hdistinct).imp fun ⟨hle, hne⟩ => lt_of_le_of_ne (of_decide_eq_true hle) hne

theorem namesBelow?_inj {base text other : String} {names : List String}
    (h : namesBelow? base text = some names) (hother : namesBelow? base other = some names) :
    text = other := by
  obtain ⟨-, rest, htext, hrest⟩ := namesBelow?_eq_some_iff.1 h
  obtain ⟨-, rest', hother, hrest'⟩ := namesBelow?_eq_some_iff.1 hother
  have hofList : Function.Injective String.ofList := fun _ _ => String.ofList_inj.1
  have hcut := List.map_injective_iff.2 hofList (hrest.trans hrest'.symm)
  rw [← String.toList_inj, htext, hother, Text.cut_injective '/' hcut]

section

variable {files : FileSystem} (hfiles : ∀ p ∈ files.entries.keys, p.IsNormal)

include hfiles in
/-- What is found below a normal path. -/
theorem mem_filterMap_namesBelow?_iff {base : Path} (hbase : base.IsNormal) {names : List String} :
    names ∈ files.paths.filterMap (namesBelow? base.render) ↔
      names ≠ [] ∧ ⟨base.parts ++ names⟩ ∈ files.entries.keys := by
  have hpaths (text : String) : text ∈ files.paths ↔ ∃ p ∈ files.entries.keys, p.render = text := by
    rw [FileSystem.paths, List.mem_mergeSort, List.mem_map]
  simp only [List.mem_filterMap, hpaths]
  constructor
  · rintro ⟨_, ⟨p, hp, rfl⟩, hbelow⟩
    obtain ⟨hne, hparts⟩ := (namesBelow?_render hbase (hfiles p hp)).1 hbelow
    rw [← hparts]
    exact ⟨hne, hp⟩
  · rintro ⟨hne, hp⟩
    exact ⟨_, ⟨_, hp, rfl⟩, (namesBelow?_render hbase (hfiles _ hp)).2 ⟨hne, rfl⟩⟩

include hfiles hcwd in
/-- **The names that are found** below the base, before they are written. -/
theorem exists_found (hpattern : ∀ name ∈ patternsOf pattern, ∃ atoms, compile name = .ok atoms) :
    ∃ found : List (List String), found.Nodup ∧
      (∀ names, names ∈ found ↔ names ≠ [] ∧
        ⟨(baseOf cwd pattern).parts ++ names⟩ ∈ files.entries.keys ∧
        List.Forall₂ MatchesName (patternsOf pattern) names) ∧
      paths files cwd.render pattern =
        .ok ((found.map (written pattern)).mergeSort fun a b => decide (a ≤ b)) := by
  by_cases hnone : (patternsOf pattern).isEmpty = true
  · refine ⟨[], List.nodup_nil, fun names => ?_, ?_⟩
    · simp +contextual [List.isEmpty_iff.1 hnone]
    · rw [paths_eq, if_pos hnone, List.map_nil, List.mergeSort_nil]
      rfl
  · choose test htest hiff using matchesNames_eq hpattern
    refine ⟨(files.paths.filterMap (namesBelow? (baseOf cwd pattern).render)).filter test, ?_,
      fun names => ?_, ?_⟩
    · exact ((nodup_paths hfiles).filterMap fun _ _ _ => namesBelow?_inj).filter _
    · rw [List.mem_filter, hiff, mem_filterMap_namesBelow?_iff hfiles (isNormal_baseOf hcwd),
        and_assoc]
    · rw [paths_eq, if_neg hnone, foldl_leadingNames hcwd, matchesBelow_eq htest]
      rfl

end

/-- **A pattern stands for the paths below its base that it matches**, name by name. -/
theorem paths_isExact {files : FileSystem} (hfiles : ∀ p ∈ files.entries.keys, p.IsNormal)
    {cwd : Path} (hcwd : cwd.IsNormal) {pattern : String}
    (hpattern : ∀ name ∈ patternsOf pattern, ∃ atoms, compile name = .ok atoms) :
    ∃ results, paths files cwd.render pattern = .ok results ∧ results.Pairwise (· < ·) ∧
      (∀ result ∈ results, cwd.resolve result ∈ files.entries.keys ∧
        result.startsWith "/" = pattern.startsWith "/") ∧
      ∀ result, result ∈ results ↔ ∃ names, names ≠ [] ∧
        ⟨(baseOf cwd pattern).parts ++ names⟩ ∈ files.entries.keys ∧
        List.Forall₂ MatchesName (patternsOf pattern) names ∧ written pattern names = result := by
  obtain ⟨found, hnodup, hmem, hpaths⟩ := exists_found hcwd hfiles hpattern
  have hproper {names : List String} (h : names ∈ found) : ∀ name ∈ names, Path.IsName name :=
    fun name hname => hfiles _ ((hmem names).1 h).2.1 name (List.mem_append_right _ hname)
  refine ⟨_, hpaths, pairwise_lt_mergeSort (hnodup.map_on ?_), fun result hresult => ?_,
    fun result => ?_⟩
  · intro names hnames others hothers
    exact written_injOn ((hmem names).1 hnames).1 (hproper hnames) ((hmem others).1 hothers).1
      (hproper hothers)
  · obtain ⟨names, hnames, rfl⟩ := List.mem_map.1 (List.mem_mergeSort.1 hresult)
    obtain ⟨hne, hkey, -⟩ := (hmem names).1 hnames
    rw [resolve_written hne (hproper hnames), startsWith_written hne (hproper hnames)]
    exact ⟨hkey, rfl⟩
  · simp only [List.mem_mergeSort, List.mem_map, hmem, and_assoc]

/-- A directory with a file, a hidden file and another directory. -/
def drawer : FileSystem :=
  (((FileSystem.ofClock ⟨0, 0⟩).place ⟨["a"]⟩ .directory).place ⟨["a", "b"]⟩ .directory)
    |>.place ⟨["a", "f"]⟩ (.file "") |>.place ⟨["a", ".f"]⟩ (.file "")

/-- From the inner directory the file is found, and the hidden one is not. -/
theorem paths_isExact_drawer :
    (∀ p ∈ drawer.entries.keys, p.IsNormal) ∧ (⟨["a", "b"]⟩ : Path).IsNormal ∧
      (∀ name ∈ patternsOf "../*f", ∃ atoms, compile name = .ok atoms) ∧
      ∃ results, paths drawer "/a/b" "../*f" = .ok results ∧ results.Pairwise (· < ·) ∧
        "../f" ∈ results ∧ "../.f" ∉ results := by
  have hkeys : ∀ p ∈ drawer.entries.keys, p.IsNormal := by decide +kernel
  have hcwd : (⟨["a", "b"]⟩ : Path).IsNormal := by decide +kernel
  have hnames : patternsOf "../*f" = ["*f"] := by decide +kernel
  have hcompile : compile "*f" = .ok [.star, .char 'f'] := by decide +kernel
  have hpattern : ∀ name ∈ patternsOf "../*f", ∃ atoms, compile name = .ok atoms := by
    rw [hnames]
    exact List.forall_mem_singleton.2 ⟨_, hcompile⟩
  have hshown : MatchesName "*f" "f" :=
    ⟨by decide +kernel, _, hcompile, isMatch_iff.1 (by decide +kernel)⟩
  have hhidden : ¬ MatchesName "*f" ".f" := fun h =>
    absurd (h.dot (by decide +kernel)) (by decide +kernel)
  obtain ⟨results, hpaths, hsorted, -, hresults⟩ := paths_isExact hkeys hcwd hpattern
  refine ⟨hkeys, hcwd, hpattern, results, hpaths, hsorted, ?_, ?_⟩
  · refine (hresults _).2 ⟨["f"], by decide, by decide +kernel, ?_, by decide +kernel⟩
    rw [hnames]
    exact .cons hshown .nil
  · intro hresult
    obtain ⟨names, hne, hkey, hmatch, hwritten⟩ := (hresults _).1 hresult
    have hother : written "../*f" [".f"] = "../.f" := by decide +kernel
    obtain rfl : names = [".f"] := written_injOn hne
      (fun name hname => hkeys _ hkey name (List.mem_append_right _ hname))
      (by decide) (by decide +kernel) (hwritten.trans hother.symm)
    rw [hnames, List.forall₂_cons] at hmatch
    exact hhidden hmatch.1

end VirtualShell.Glob
