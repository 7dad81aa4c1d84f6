import VirtualShell.FileSystem.Path

/-!
# Normal paths

What a text is resolved to is a path of proper names: none is empty, a dot or two dots, and none
holds a slash. Such a path is meant by the text that it is written as.

* `Path.IsNormal` — all names of a path are proper.
* `Path.isNormal_resolve` — resolution leads from normal paths to normal paths.
* **`Path.ofString_render`** — a normal path is read back as it was written.
-/

namespace VirtualShell

/-! ## Pieces -/

namespace Text

variable {separator : Char}

/-- No piece holds the character that the text was cut at. -/
theorem not_mem_of_mem_cut {text piece : List Char} (h : piece ∈ cut separator text) :
    separator ∉ piece := by
  induction text generalizing piece with
  | nil => simp_all [cut]
  | cons c rest ih =>
    rw [cut] at h
    split at h
    · rcases List.mem_cons.1 h with rfl | h
      · simp
      · exact ih h
    · next hc =>
      split at h
      · next hnil => exact absurd hnil (cut_ne_nil separator rest)
      · next first pieces hpieces =>
        rw [hpieces] at ih
        rcases List.mem_cons.1 h with rfl | h
        · have hfirst : separator ∉ first := ih (by simp)
          simp [hfirst, Ne.symm hc]
        · exact ih (by simp [h])

/-- A text without the character is one piece. -/
theorem cut_of_not_mem {text : List Char} (h : separator ∉ text) : cut separator text = [text] := by
  induction text with
  | nil => rfl
  | cons c rest ih =>
    simp only [List.mem_cons, not_or] at h
    simp [cut, Ne.symm h.1, ih h.2]

/-- At an occurrence of the character both sides are cut apart. -/
theorem cut_append_separator (separator : Char) (before after : List Char) :
    cut separator (before ++ separator :: after) = cut separator before ++ cut separator after := by
  induction before with
  | nil => simp [cut]
  | cons c before ih =>
    by_cases hc : c = separator
    · simp [cut, hc, ih]
    · rcases hbefore : cut separator before with - | ⟨piece, pieces⟩
      · exact absurd hbefore (cut_ne_nil separator before)
      · simp [cut, hc, ih, hbefore]

/-- The names on both sides of a slash. -/
theorem cutAt_append_slash (before after : String) :
    cutAt '/' (before ++ "/" ++ after) = cutAt '/' before ++ cutAt '/' after := by
  have hchars : (before ++ "/" ++ after).toList = before.toList ++ '/' :: after.toList := by simp
  rw [cutAt, hchars, cut_append_separator, List.map_append]
  rfl

/-- The first piece reaches to the first occurrence of the character. -/
theorem cut_append {piece : List Char} (h : separator ∉ piece) (rest : List Char) :
    cut separator (piece ++ separator :: rest) = piece :: cut separator rest := by
  rw [cut_append_separator, cut_of_not_mem h, List.singleton_append]

/-- **Pieces come back** when they are joined by a character that they do not hold. -/
theorem cut_intercalate {pieces : List (List Char)} (hne : pieces ≠ [])
    (h : ∀ piece ∈ pieces, separator ∉ piece) :
    cut separator ([separator].intercalate pieces) = pieces := by
  induction pieces with
  | nil => exact absurd rfl hne
  | cons piece pieces ih =>
    have hpiece : separator ∉ piece := h piece (by simp)
    cases pieces with
    | nil => simpa using cut_of_not_mem hpiece
    | cons next pieces =>
      have hrest := ih (by simp) fun p hp => h p (List.mem_cons_of_mem _ hp)
      simp [List.intercalate_cons_cons, cut_append hpiece, hrest]

theorem cut_toList (separator : Char) (text : String) :
    cut separator text.toList = (cutAt separator text).map String.toList := by
  simp [cutAt, Function.comp_def]

/-- Before a slash at the start there is an empty name. -/
theorem cutAt_slash (text : String) : cutAt '/' ("/" ++ text) = "" :: cutAt '/' text := by
  simp [cutAt, cut]

/-- Different texts are cut into different pieces. -/
theorem cut_injective (separator : Char) : Function.Injective (cut separator) :=
  Function.LeftInverse.injective (intercalate_cut separator)

/-- Names come back when they are joined by slashes. -/
theorem cutAt_intercalate {names : List String} (hne : names ≠ [])
    (h : ∀ name ∈ names, '/' ∉ name.toList) : cutAt '/' ("/".intercalate names) = names := by
  have hchars : ("/".intercalate names).toList = ['/'].intercalate (names.map String.toList) := by
    simp [String.toList_intercalate]
  rw [cutAt, hchars, cut_intercalate (by simpa using hne) (List.forall_mem_map.2 h)]
  simp [Function.comp_def]

end Text

namespace Path

/-! ## Names -/

/-- A name that an entry can have: it says neither where one is nor where one came from. -/
structure IsName (name : String) : Prop where
  ne_empty : name ≠ ""
  ne_dot : name ≠ "."
  ne_dots : name ≠ ".."
  no_slash : '/' ∉ name.toList

instance : DecidablePred IsName := fun name =>
  decidable_of_iff (name ≠ "" ∧ name ≠ "." ∧ name ≠ ".." ∧ '/' ∉ name.toList)
    ⟨fun ⟨hempty, hdot, hdots, hslash⟩ => ⟨hempty, hdot, hdots, hslash⟩,
      fun h => ⟨h.ne_empty, h.ne_dot, h.ne_dots, h.no_slash⟩⟩

/-- **A normal path** is made of names that entries can have. -/
def IsNormal (p : Path) : Prop := ∀ name ∈ p.parts, IsName name

instance : DecidablePred IsNormal := fun p =>
  inferInstanceAs (Decidable (∀ name ∈ p.parts, IsName name))

variable {p base : Path}

theorem isNormal_root : root.IsNormal := nofun

theorem IsNormal.child (h : p.IsNormal) {name : String} (hname : IsName name) :
    (p.child name).IsNormal := by
  intro other hother
  simp only [Path.child, List.mem_append, List.mem_singleton] at hother
  rcases hother with hother | rfl
  · exact h other hother
  · exact hname

theorem IsNormal.parent (h : p.IsNormal) : p.parent.IsNormal :=
  fun name hname => h name (List.dropLast_subset _ hname)

theorem IsNormal.name? (h : p.IsNormal) {name : String} (hname : p.name? = some name) :
    IsName name :=
  h name (List.mem_of_getLast? hname)

@[simp] theorem parent_child (p : Path) (name : String) : (p.child name).parent = p := by
  simp [Path.child, Path.parent]

theorem child_ne_root (p : Path) (name : String) : p.child name ≠ root := by
  simp [Path.child, root]

theorem eq_root_of_prefix_root (h : p.parts <+: root.parts) : p = root :=
  congrArg Path.mk (List.prefix_nil.1 h)

theorem isBelow_iff {above : Path} :
    p.isBelow above = true ↔ above.parts <+: p.parts ∧ p ≠ above := by
  simp only [isBelow, Bool.and_eq_true, List.isPrefixOf_iff_prefix, bne_iff_ne]

/-- What lies above an entry is its directory or lies above that. -/
theorem isBelow_child_iff {q : Path} {name : String} :
    (p.child name).isBelow q = true ↔ q.parts <+: p.parts := by
  have hne (h : q.parts <+: p.parts) : p.child name ≠ q := by
    rintro rfl
    have hlength := h.length_le
    simp only [child, List.length_append, List.length_singleton] at hlength
    omega
  rw [isBelow_iff]
  constructor
  · rintro ⟨habove, hq⟩
    rcases List.prefix_concat_iff.1 habove with heq | habove
    · exact absurd (congrArg Path.mk heq).symm hq
    · exact habove
  · intro h
    exact ⟨h.trans (List.prefix_append _ _), hne h⟩

/-- Every path but the root is that of a name in its directory. -/
theorem exists_eq_child (h : p ≠ root) : ∃ name, p.name? = some name ∧ p = p.parent.child name := by
  obtain ⟨parts⟩ := p
  have hparts : parts ≠ [] := fun hnil => h (by rw [hnil, root])
  refine ⟨parts.getLast hparts, List.getLast?_eq_some_getLast hparts, ?_⟩
  simp [Path.parent, Path.child, List.dropLast_concat_getLast]

theorem not_root_isBelow (above : Path) : root.isBelow above = false := by
  rw [Bool.eq_false_iff, ne_eq, isBelow_iff]
  rintro ⟨hbegins, hne⟩
  exact hne (eq_root_of_prefix_root hbegins).symm

/-- What lies above a path is its directory or above that. -/
theorem prefix_parent_of_isBelow {above : Path} (h : p.isBelow above = true) :
    above.parts <+: p.parent.parts := by
  have hroot : p ≠ root := by
    rintro rfl
    simp [not_root_isBelow] at h
  obtain ⟨name, -, hp⟩ := exists_eq_child hroot
  rw [hp] at h
  exact isBelow_child_iff.1 h

theorem isBelow_of_prefix_parent {above : Path} (hroot : p ≠ root)
    (h : above.parts <+: p.parent.parts) : p.isBelow above = true := by
  obtain ⟨name, -, hp⟩ := exists_eq_child hroot
  rw [hp]
  exact isBelow_child_iff.2 h

theorem name?_eq_none_iff : p.name? = none ↔ p = root := by
  obtain ⟨parts⟩ := p
  simp [Path.name?, root]

/-- The root is the only path that is its own directory. -/
theorem parent_ne_self (h : p ≠ root) : p.parent ≠ p := by
  obtain ⟨name, -, hp⟩ := exists_eq_child h
  intro heq
  rw [heq] at hp
  simpa [Path.child] using congrArg (fun q : Path => q.parts.length) hp

/-! ## Resolution -/

/-- One name of a text leads from proper names to proper names. -/
theorem isName_step {parts : List String} (h : ∀ name ∈ parts, IsName name) {piece : String}
    (hpiece : '/' ∉ piece.toList) : ∀ name ∈ step parts piece, IsName name := by
  intro name hname
  unfold step at hname
  split at hname
  · exact h name hname
  · next hstay =>
    split at hname
    · exact h name (List.dropLast_subset _ hname)
    · next hdots =>
      simp only [Bool.or_eq_true, decide_eq_true_eq, not_or] at hstay
      rcases List.mem_append.1 hname with hname | hname
      · exact h name hname
      · rw [List.mem_singleton.1 hname]
        exact ⟨hstay.1, hstay.2, hdots, hpiece⟩

/-- A text without slashes is one name. -/
theorem resolve_of_no_slash {name : String} (h : '/' ∉ name.toList) (p : Path) :
    p.resolve name = ⟨step p.parts name⟩ := by
  have hstart : ¬ name.startsWith "/" := by
    rw [String.startsWith_string_iff]
    intro hslash
    exact h (hslash.subset (by simp))
  simp [resolve, hstart, Text.cutAt, Text.cut_of_not_mem h]

theorem no_slash_of_mem_cutAt {text piece : String} (h : piece ∈ Text.cutAt '/' text) :
    '/' ∉ piece.toList := by
  obtain ⟨chars, hchars, rfl⟩ := List.mem_map.1 h
  simpa using Text.not_mem_of_mem_cut hchars

theorem isName_foldl_step {pieces : List String} (hpieces : ∀ piece ∈ pieces, '/' ∉ piece.toList)
    {parts : List String} (h : ∀ name ∈ parts, IsName name) :
    ∀ name ∈ pieces.foldl step parts, IsName name := by
  induction pieces generalizing parts with
  | nil => exact h
  | cons piece pieces ih =>
    obtain ⟨hpiece, hrest⟩ := List.forall_mem_cons.1 hpieces
    exact ih hrest (isName_step h hpiece)

/-- **Resolution leads to normal paths.** -/
theorem isNormal_resolve (h : base.IsNormal) (text : String) : (base.resolve text).IsNormal := by
  refine isName_foldl_step (fun _ => no_slash_of_mem_cutAt) ?_
  split
  · simp
  · exact h

theorem isNormal_ofString (text : String) : (ofString text).IsNormal :=
  isNormal_resolve isNormal_root text

/-! ## Written paths -/

/-- An empty name stays where it is. -/
theorem step_empty (parts : List String) : step parts "" = parts := by simp [step]

theorem foldl_step {names : List String} (h : ∀ name ∈ names, IsName name) (parts : List String) :
    names.foldl step parts = parts ++ names := by
  induction names generalizing parts with
  | nil => simp
  | cons name names ih =>
    obtain ⟨hempty, hdot, hdots, -⟩ := h name (by simp)
    have hstep : step parts name = parts ++ [name] := by simp [step, hempty, hdot, hdots]
    rw [List.foldl_cons, hstep, ih fun n hn => h n (List.mem_cons_of_mem _ hn)]
    simp

/-- The names of a written path, after the empty one before the first slash. -/
theorem cutAt_render (h : p.IsNormal) :
    Text.cutAt '/' p.render = "" :: if p.parts = [] then [""] else p.parts := by
  rw [render, Text.cutAt_slash]
  split
  · next hparts =>
    rw [hparts]
    rfl
  · next hparts => rw [Text.cutAt_intercalate hparts fun name hname => (h name hname).no_slash]

/-- **A normal path is read back** as it was written. -/
theorem ofString_render (h : p.IsNormal) : ofString p.render = p := by
  have hstart : ofString p.render = ⟨(Text.cutAt '/' p.render).foldl step []⟩ := by
    simp [ofString, resolve, root]
  obtain ⟨parts⟩ := p
  rw [hstart, cutAt_render h, List.foldl_cons, step_empty]
  split
  · next hparts => simp_all [step_empty]
  · exact congrArg Path.mk (foldl_step h [])

theorem ofString_slash : ofString "/" = root := ofString_render isNormal_root

/-- **How a path with further names is written.** -/
theorem render_append (hp : p.IsNormal) (hroot : p ≠ root) {rest : List String} (hrest : rest ≠ [])
    (hnames : ∀ name ∈ rest, IsName name) :
    (⟨p.parts ++ rest⟩ : Path).render = p.render ++ "/" ++ "/".intercalate rest := by
  have hparts : p.parts ≠ [] := fun hnil => hroot (congrArg Path.mk hnil)
  have hnormal : (⟨p.parts ++ rest⟩ : Path).IsNormal := by
    intro name hname
    exact (List.mem_append.1 hname).elim (hp name) (hnames name)
  -- both texts are cut into the same names
  have hleft : Text.cutAt '/' (⟨p.parts ++ rest⟩ : Path).render = "" :: (p.parts ++ rest) := by
    rw [cutAt_render hnormal, if_neg (by simp [hparts])]
  have hright : Text.cutAt '/' (p.render ++ "/" ++ "/".intercalate rest) =
      "" :: (p.parts ++ rest) := by
    rw [Text.cutAt_append_slash, cutAt_render hp, if_neg hparts,
      Text.cutAt_intercalate hrest fun name hname => (hnames name hname).no_slash, List.cons_append]
  refine String.toList_injective (Text.cut_injective '/' ?_)
  rw [Text.cut_toList, Text.cut_toList, hleft, hright]

/-- **What lies below a path** is written with the path and a slash before it. -/
theorem startsWith_render_iff {q : Path} (hp : p.IsNormal) (hroot : p ≠ root) (hq : q.IsNormal) :
    q.render.startsWith (p.render ++ "/") = true ↔ q.isBelow p = true := by
  have hparts : p.parts ≠ [] := fun hnil => hroot (congrArg Path.mk hnil)
  rw [String.startsWith_string_iff, isBelow_iff]
  constructor
  · rintro ⟨after, hafter⟩
    have hcut : Text.cutAt '/' q.render =
        Text.cutAt '/' p.render ++ (Text.cut '/' after).map String.ofList := by
      have hrender : q.render = p.render ++ "/" ++ String.ofList after :=
        String.toList_injective (by simp [← hafter])
      rw [hrender, Text.cutAt_append_slash, Text.cutAt, Text.cutAt, String.toList_ofList]
    obtain ⟨name, names, hnames⟩ := List.exists_cons_of_ne_nil (Text.cut_ne_nil '/' after)
    rw [cutAt_render hp, cutAt_render hq, if_neg hparts, hnames, List.cons_append,
      List.cons.injEq] at hcut
    obtain ⟨-, hcut⟩ := hcut
    split at hcut
    · have hlength := congrArg List.length hcut
      have hpos := List.length_pos_iff.2 hparts
      simp only [List.length_cons, List.length_nil, List.length_append, List.length_map] at hlength
      omega
    · refine ⟨⟨_, hcut.symm⟩, ?_⟩
      rintro rfl
      simp at hcut
  · rintro ⟨⟨rest, hrest⟩, hne⟩
    have hnil : rest ≠ [] := by
      rintro rfl
      exact hne (congrArg Path.mk (by simpa using hrest)).symm
    have hnames : ∀ name ∈ rest, IsName name := fun name hname => hq name (by simp [← hrest, hname])
    have hq : q = ⟨p.parts ++ rest⟩ := congrArg Path.mk hrest.symm
    rw [hq, render_append hp hroot hnil hnames]
    simp only [String.toList_append]
    exact List.prefix_append _ _

theorem render_injOn {q : Path} (hp : p.IsNormal) (hq : q.IsNormal) (h : p.render = q.render) :
    p = q := by
  rw [← ofString_render hp, h, ofString_render hq]

/-- Only the root is written as a slash alone. -/
theorem render_eq_slash_iff (h : p.IsNormal) : p.render = "/" ↔ p = root :=
  ⟨render_injOn h isNormal_root, fun h => h ▸ rfl⟩

end Path

end VirtualShell
