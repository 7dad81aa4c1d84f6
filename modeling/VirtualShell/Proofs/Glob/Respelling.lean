import VirtualShell.Proofs.Glob.Pathname
import VirtualShell.Proofs.Utility.Respelling

/-!
# Patterns and the spelling of a directory

Where a pattern is looked for depends on how its directory is spelled in one case only: the pattern is
relative, and already its first name holds a wildcard. Then the directory is compared with the paths
as a text. Each path is in the normal spelling, and so is all of it that ends before a slash. So in
a directory that is spelled in another way nothing is found, with one exception: the empty text stands
for the root, and what comes before the first slash of each path is empty. There all is found that is
found at the root, and the root itself under an empty name.

* `OpensWild` — the patterns whose first name holds a wildcard.
* `paths_normalText` — what other patterns stand for.
* **`paths_of_ne_normalText`** — in another spelling nothing is found.
* **`paths_empty`** — in the empty directory the root is found too.
-/

namespace VirtualShell

/-- **What ends before a slash** of a written path is empty or written as a path too. -/
theorem Path.eq_empty_or_normalText {p : Path} (hp : p.IsNormal) {text : String}
    {rest : List Char} (h : p.render.toList = text.toList ++ '/' :: rest) :
    text = "" ∨ Path.normalText text = text := by
  have hpieces : Text.cut '/' text.toList ++ Text.cut '/' rest =
      [] :: (if p.parts = [] then [""] else p.parts).map String.toList := by
    rw [← Text.cut_append_separator, ← h, Text.cut_toList, Path.cutAt_render hp]
    rfl
  obtain ⟨first, names, hnames⟩ := List.exists_cons_of_ne_nil (Text.cut_ne_nil '/' text.toList)
  rw [hnames, List.cons_append, List.cons.injEq] at hpieces
  obtain ⟨rfl, hpieces⟩ := hpieces
  rcases names with - | ⟨name, names⟩
  · left
    refine String.toList_inj.1 (Text.cut_injective '/' ?_)
    rw [hnames]
    rfl
  · right
    have hparts : p.parts ≠ [] := by
      intro hnil
      have hlength := congrArg List.length hpieces
      have hpos := List.length_pos_of_ne_nil (Text.cut_ne_nil '/' rest)
      simp only [hnil, if_true, List.length_append, List.length_cons, List.length_map,
        List.length_nil] at hlength
      omega
    rw [if_neg hparts] at hpieces
    -- the names of the text are the first ones of the path
    obtain ⟨taken, others, hsplit, htaken, -⟩ := List.map_eq_append_iff.1 hpieces.symm
    have hnormal : Path.IsNormal ⟨taken⟩ := fun name hname =>
      hp name (hsplit ▸ List.mem_append_left _ hname)
    have hne : taken ≠ [] := by
      rintro rfl
      cases htaken
    have htext : text = Path.render ⟨taken⟩ := by
      refine String.toList_inj.1 (Text.cut_injective '/' ?_)
      rw [hnames, Text.cut_toList, Path.cutAt_render hnormal, if_neg hne, ← htaken]
      rfl
    rw [htext, Path.normalText_render hnormal]

namespace Glob

variable {files : FileSystem} {cwd pattern : String}

/-! ## Where a pattern is looked for -/

/-- **A relative pattern whose first name holds a wildcard.** -/
def OpensWild (pattern : String) : Prop :=
  ¬ pattern.startsWith "/" ∧ ∃ name rest, namesOf pattern = name :: rest ∧ hasWildcard name = true

instance : DecidablePred OpensWild := fun pattern =>
  decidable_of_iff (pattern.startsWith "/" = false ∧ (namesOf pattern).head?.any hasWildcard) <| by
    rw [OpensWild]
    rcases namesOf pattern with - | ⟨name, rest⟩ <;> simp

theorem OpensWild.leadingNames (h : OpensWild pattern) : leadingNames pattern = [] := by
  obtain ⟨-, name, rest, hnames, hname⟩ := h
  simp [Glob.leadingNames, hnames, hname]

theorem OpensWild.patternsOf (h : OpensWild pattern) : patternsOf pattern ≠ [] := by
  obtain ⟨-, name, rest, hnames, hname⟩ := h
  simp [Glob.patternsOf, hnames, hname]

/-- Any other pattern is absolute, has no wildcard, or is looked for at the place of its first
name. -/
theorem cases_of_not_opensWild (h : ¬ OpensWild pattern) :
    pattern.startsWith "/" ∨ patternsOf pattern = [] ∨
      ∃ first others, leadingNames pattern = first :: others := by
  by_cases habsolute : pattern.startsWith "/"
  · exact .inl habsolute
  · right
    rcases hnames : namesOf pattern with - | ⟨name, rest⟩
    · left
      rw [patternsOf, hnames, List.dropWhile_nil]
    · right
      have hname : hasWildcard name = false := by
        by_contra hwild
        exact h ⟨habsolute, name, rest, hnames, eq_true_of_ne_false hwild⟩
      refine ⟨unescape name, (rest.takeWhile fun name => !hasWildcard name).map unescape, ?_⟩
      rw [leadingNames, hnames, List.takeWhile_cons, hname]
      rfl

/-- **Other patterns** stand for the same paths in each spelling of a directory. -/
theorem paths_normalText (h : ¬ OpensWild pattern) (files : FileSystem) (cwd : String) :
    paths files cwd pattern = paths files (Path.normalText cwd) pattern := by
  rw [paths_eq, paths_eq]
  rcases cases_of_not_opensWild h with habsolute | hnone | ⟨first, others, hleading⟩
  · rw [if_pos habsolute, if_pos habsolute]
  · rw [hnone]
    rfl
  · split
    · rfl
    · rw [hleading, List.foldl_cons, List.foldl_cons]
      congr 4
      split
      · rfl
      · rw [Path.ofString_normalText]

/-- A pattern whose first name holds a wildcard is looked for in the directory as it is spelled. -/
theorem paths_of_opensWild (h : OpensWild pattern) (files : FileSystem) (cwd : String) :
    paths files cwd pattern = do
      let found ← matchesBelow cwd (patternsOf pattern) files.paths
      return (found.map "/".intercalate).mergeSort fun a b => decide (a ≤ b) := by
  have hwritten : written pattern = "/".intercalate := by
    funext names
    rw [written, if_neg h.1, h.leadingNames, List.nil_append, String.empty_append]
  rw [paths_eq, if_neg (List.isEmpty_iff.not.2 h.patternsOf), h.leadingNames, if_neg h.1, hwritten]
  rfl

/-! ## Other spellings -/

theorem matchesBelow_congr {base other : String} {texts : List String}
    (h : ∀ text ∈ texts, namesBelow? base text = namesBelow? other text) (patterns : List String) :
    matchesBelow base patterns texts = matchesBelow other patterns texts := by
  induction texts with
  | nil => rfl
  | cons text texts ih =>
    obtain ⟨htext, htexts⟩ := List.forall_mem_cons.1 h
    rw [matchesBelow, matchesBelow, htext, ih htexts]

theorem matchesBelow_eq_nil {base : String} {texts : List String}
    (h : ∀ text ∈ texts, namesBelow? base text = none) (patterns : List String) :
    matchesBelow base patterns texts = .ok [] := by
  induction texts with
  | nil => rfl
  | cons text texts ih =>
    obtain ⟨htext, htexts⟩ := List.forall_mem_cons.1 h
    rw [matchesBelow, htext]
    exact ih htexts

/-- No path is below a directory in another spelling. -/
theorem namesBelow?_of_ne_normalText (hcwd : Path.normalText cwd ≠ cwd) (hne : cwd ≠ "")
    {p : Path} (hp : p.IsNormal) : namesBelow? cwd p.render = none := by
  rw [Option.eq_none_iff_forall_not_mem]
  intro names hnames
  obtain ⟨-, rest, hrest, -⟩ := namesBelow?_eq_some_iff.1 hnames
  have hslash : cwd ≠ "/" := by
    rintro rfl
    exact hcwd Path.normalText_slash
  rw [startOf, if_neg hslash, String.toList_append, List.append_assoc] at hrest
  rcases Path.eq_empty_or_normalText hp hrest with hempty | hnormal
  · exact hne hempty
  · exact hcwd hnormal

section

variable (hfiles : ∀ p ∈ files.entries.keys, p.IsNormal)

theorem mem_paths_iff {text : String} :
    text ∈ files.paths ↔ ∃ p ∈ files.entries.keys, p.render = text := by
  rw [FileSystem.paths, List.mem_mergeSort, List.mem_map]

include hfiles

/-- **In another spelling nothing is found.** -/
theorem paths_of_ne_normalText (hcwd : Path.normalText cwd ≠ cwd) (hne : cwd ≠ "")
    (h : OpensWild pattern) : paths files cwd pattern = .ok [] := by
  have hnone : ∀ text ∈ files.paths, namesBelow? cwd text = none := by
    intro text htext
    obtain ⟨p, hp, rfl⟩ := mem_paths_iff.1 htext
    exact namesBelow?_of_ne_normalText hcwd hne (hfiles p hp)
  rw [paths_of_opensWild h, matchesBelow_eq_nil hnone]
  exact congrArg Except.ok (List.mergeSort_nil (r := fun a b : String => decide (a ≤ b)))

/-! ## The empty directory -/

omit hfiles in
/-- Below the empty text are the paths below the root. -/
theorem namesBelow?_empty {text : String} (hne : text ≠ "") (hroot : text ≠ "/") :
    namesBelow? "" text = namesBelow? "/" text := by
  simp [namesBelow?, hne, hroot]

omit hfiles in
theorem empty_le (text : String) : "" ≤ text := by
  rw [← not_lt, String.lt_iff_toList_lt]
  exact List.not_lt_nil _

omit hfiles in
theorem slash_le_render (p : Path) : "/" ≤ p.render := by
  rw [← not_lt, String.lt_iff_toList_lt, Path.render, String.toList_append]
  simp

omit hfiles in
theorem mergeSort_cons_empty (texts : List String) :
    ("" :: texts).mergeSort (fun a b => decide (a ≤ b)) =
      "" :: texts.mergeSort fun a b => decide (a ≤ b) := by
  obtain ⟨before, after, hcons, hsort, hbefore⟩ := @List.mergeSort_cons String
    (fun a b => decide (a ≤ b))
    (fun a b c hab hbc => decide_eq_true (le_trans (of_decide_eq_true hab) (of_decide_eq_true hbc)))
    (fun a b => by simpa using le_total a b) "" texts
  obtain rfl : before = [] := List.eq_nil_iff_forall_not_mem.2 fun text htext => by
    simpa [empty_le] using hbefore text htext
  rw [hcons, hsort]
  rfl

/-- The root is the first of all paths. -/
theorem exists_paths_eq_cons (hroot : .root ∈ files.entries.keys) :
    ∃ others, files.paths = "/" :: others ∧ ∀ text ∈ others, text ≠ "" ∧ text ≠ "/" := by
  have hsorted : files.paths.Pairwise (· < ·) :=
    pairwise_lt_mergeSort ((List.mergeSort_perm _ _).nodup_iff.1 (nodup_paths hfiles))
  have hmem : "/" ∈ files.paths := mem_paths_iff.2 ⟨.root, hroot, rfl⟩
  have hleast : ∀ text ∈ files.paths, "/" ≤ text := fun text htext => by
    obtain ⟨p, -, rfl⟩ := mem_paths_iff.1 htext
    exact slash_le_render p
  rcases hpaths : files.paths with - | ⟨first, others⟩
  · rw [hpaths] at hmem
    cases hmem
  · rw [hpaths] at hsorted hmem hleast
    obtain ⟨hlater, -⟩ := List.pairwise_cons.1 hsorted
    obtain rfl : "/" = first := by
      rcases List.mem_cons.1 hmem with hfirst | hothers
      · exact hfirst
      · exact absurd (hlater _ hothers) (not_lt.2 (hleast first List.mem_cons_self))
    refine ⟨others, rfl, fun text htext => ⟨?_, (hlater text htext).ne'⟩⟩
    rintro rfl
    exact absurd (hlater _ htext) (not_lt.2 (empty_le _))

/-- **In the empty directory the root is found** under an empty name, besides what is found at the
root. -/
theorem paths_empty (h : OpensWild pattern) (hroot : .root ∈ files.entries.keys) :
    paths files "" pattern = do
      let isFound ← matchesNames (patternsOf pattern) [""]
      let found ← paths files "/" pattern
      return if isFound then "" :: found else found := by
  obtain ⟨others, hpaths, hothers⟩ := exists_paths_eq_cons hfiles hroot
  have hbelow : matchesBelow "" (patternsOf pattern) others =
      matchesBelow "/" (patternsOf pattern) others :=
    matchesBelow_congr (fun text htext =>
      namesBelow?_empty (hothers text htext).1 (hothers text htext).2) _
  have hslash : namesBelow? "/" "/" = none := by decide +kernel
  have hempty : namesBelow? "" "/" = some [""] := by decide +kernel
  rw [paths_of_opensWild h, paths_of_opensWild h, hpaths, matchesBelow, matchesBelow, hslash,
    hempty, hbelow]
  dsimp only
  rcases matchesNames (patternsOf pattern) [""] with e | isFound
  · rfl
  · rcases matchesBelow "/" (patternsOf pattern) others with e | found
    · cases isFound <;> rfl
    · cases isFound
      · rfl
      · exact congrArg Except.ok (mergeSort_cons_empty (found.map "/".intercalate))

/-- Without a root the same is found there as at the root. -/
theorem paths_empty_of_no_root (h : OpensWild pattern) (hroot : .root ∉ files.entries.keys) :
    paths files "" pattern = paths files "/" pattern := by
  have hbelow : ∀ text ∈ files.paths, namesBelow? "" text = namesBelow? "/" text := by
    intro text htext
    obtain ⟨p, hp, rfl⟩ := mem_paths_iff.1 htext
    refine namesBelow?_empty (fun hempty => ?_) fun hslash => ?_
    · exact absurd (slash_le_render p) (not_le.2 (hempty ▸ by decide))
    · exact hroot ((Path.render_eq_slash_iff (hfiles p hp)).1 hslash ▸ hp)
  rw [paths_of_opensWild h, paths_of_opensWild h, matchesBelow_congr hbelow]

end

end Glob

end VirtualShell
