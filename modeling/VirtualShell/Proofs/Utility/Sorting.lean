import Mathlib.Data.List.Perm.Basic
import Mathlib.Data.Prod.Lex
import Mathlib.Data.String.Basic
import VirtualShell.Proofs.Utility.Basic
import VirtualShell.Proofs.Utility.Lines
import VirtualShell.Utility.Sort

/-!
# What sorting gives

Lines stand in the order of their keys, and lines with one key in the order of the lines themselves.
Any two lines can be compared, so that lines that stand in this order already stay. Since lines with
one key stand together, the first line of each run is the first one with its key.

Keys are texts here; the numbers that keys may be as well have an order of their own.

* `Utility.Sort.Precedes` — the order of lines.
* `Utility.Sort.IsSorting` — the lines are sorted, and all there or one for each key.
* `Utility.Sort.filter_firstOfRuns` — the first lines of runs, for lines that stand together.
* **`Utility.Sort.run_isSorting`** — `sort` sorts, and sorts its own output into itself.
-/

namespace VirtualShell.Utility.Sort

variable {s : Settings} {call : Call} {files : FileSystem}

/-! ## The order of lines -/

/-- The key of a line, when it is a text. -/
def textKey (s : Settings) (line : String) : String :=
  if s.ignoreCase then Text.upper (keyText s line) else keyText s line

theorem keyOf_of_not_numeric (hs : s.numeric = false) (line : String) :
    keyOf s line = .text (textKey s line) := by
  rw [keyOf, hs, textKey, if_neg Bool.false_ne_true]
  split <;> rfl

/-- The place of a line: its key, and the line itself. -/
def rank (s : Settings) (line : String) : String ×ₗ String := toLex (textKey s line, line)

/-- **A line may stand before another one**: its key is less, or the same and the line is no greater;
the other way round in reverse. -/
def Precedes (s : Settings) (a b : String) : Prop :=
  if s.reverse then rank s b ≤ rank s a else rank s a ≤ rank s b

instance (s : Settings) : DecidableRel (Precedes s) := fun a b =>
  inferInstanceAs (Decidable (if s.reverse then rank s b ≤ rank s a else rank s a ≤ rank s b))

theorem precedes_total (s : Settings) (a b : String) : Precedes s a b ∨ Precedes s b a := by
  rw [Precedes, Precedes]
  split
  · exact le_total _ _
  · exact le_total _ _

theorem Precedes.trans {a b c : String} (hab : Precedes s a b) (hbc : Precedes s b c) :
    Precedes s a c := by
  rw [Precedes] at *
  split_ifs at * with hreverse
  · exact hbc.trans hab
  · exact hab.trans hbc

/-- A line between two lines with one key has this key. -/
theorem Precedes.textKey_eq {a b c : String} (hab : Precedes s a b) (hbc : Precedes s b c)
    (hac : textKey s a = textKey s c) : textKey s a = textKey s b := by
  have hkeys {a b : String} (h : rank s a ≤ rank s b) : textKey s a ≤ textKey s b := by
    rcases Prod.Lex.toLex_le_toLex.1 h with hlt | ⟨heq, -⟩
    · exact le_of_lt hlt
    · exact le_of_eq heq
  rw [Precedes] at hab hbc
  split_ifs at hab hbc with hreverse
  · exact le_antisymm (hac.trans_le (hkeys hbc)) (hkeys hab)
  · exact le_antisymm (hkeys hab) ((hkeys hbc).trans_eq hac.symm)

/-- The comparison of lines with their keys. -/
theorem isBefore_keyOf (hs : s.numeric = false) (a b : String) :
    isBefore (keyOf s a, a) (keyOf s b, b) = true ↔ rank s a ≤ rank s b := by
  rw [keyOf_of_not_numeric hs, keyOf_of_not_numeric hs, isBefore, rank, rank,
    Prod.Lex.toLex_le_toLex]
  simp only [Key.lt, Key.text.injEq, Bool.or_eq_true, Bool.and_eq_true, Bool.not_eq_true',
    decide_eq_true_eq, decide_eq_false_iff_not, not_lt]

/-! ## The first lines of runs -/

/-- Equal things stand together: nothing else stands between them. -/
def Grouped (keys : List Key) : Prop := ∀ a b, [a, b, a].Sublist keys → a = b

theorem Grouped.of_sublist {keys more : List Key} (h : Grouped more) (hsub : keys.Sublist more) :
    Grouped keys :=
  fun a b hab => h a b (hab.trans hsub)

theorem firstOfRuns_sublist (last : Option Key) (lines : List (Key × String)) :
    (firstOfRuns last lines).Sublist lines := by
  fun_induction firstOfRuns last lines with
  | case1 => exact .slnil
  | case2 line rest ih => exact ih.cons line
  | case3 _ line rest _ ih => exact ih.cons_cons line

/-- **The first line of each run**: where equal keys stand together, it is the first line with its
key. Lines with the key before them are left out. -/
theorem filter_firstOfRuns {last : Option Key} {lines : List (Key × String)}
    (h : Grouped (last.toList ++ lines.map (·.1))) (key : Key) :
    (firstOfRuns last lines).filter (·.1 = key) =
      if last = some key then [] else (lines.find? (·.1 = key)).toList := by
  fun_induction firstOfRuns last lines with
  | case1 => simp
  | case2 line rest ih =>
    rw [ih (h.of_sublist (by simp))]
    by_cases hkey : line.1 = key
    · simp [hkey]
    · simp [hkey]
  | case3 last line rest hlast ih =>
    have hrest := ih (h.of_sublist (by simp))
    by_cases hkey : line.1 = key
    · subst hkey
      simp [hrest, hlast]
    · rw [List.filter_cons_of_neg (by simpa using hkey), hrest, if_neg (by simpa using hkey),
        List.find?_cons_of_neg (by simpa using hkey)]
      split
      next hbefore =>
        -- The key stood before this line, so that no line after it has it again.
        subst hbefore
        rw [List.find?_eq_none.2]
        · rfl
        · intro other hother hsame
          refine hkey (h key line.1 ?_).symm
          simp only [decide_eq_true_eq] at hsame
          have hmem : key ∈ rest.map (·.1) := hsame ▸ List.mem_map_of_mem hother
          simpa using hmem
      · rfl

/-- Lines whose keys are all different are runs of their own. -/
theorem firstOfRuns_eq_self {last : Option Key} {lines : List (Key × String)}
    (h : (last.toList ++ lines.map (·.1)).Nodup) : firstOfRuns last lines = lines := by
  fun_induction firstOfRuns last lines with
  | case1 => rfl
  | case2 line rest ih => simp at h
  | case3 last line rest hlast ih =>
    rw [ih (h.sublist (by simp))]

/-- The keys of the first lines of runs are all different. -/
theorem nodup_firstOfRuns {lines : List (Key × String)} (h : Grouped (lines.map (·.1))) :
    ((firstOfRuns none lines).map (·.1)).Nodup := by
  refine List.nodup_iff_count_le_one.2 fun key => ?_
  have hnone : Grouped ((none : Option Key).toList ++ lines.map (·.1)) := h
  have hcount : ((firstOfRuns none lines).map (·.1)).count key =
      ((firstOfRuns none lines).filter (·.1 = key)).length := by
    rw [List.count_eq_countP, List.countP_map, List.countP_eq_length_filter]
    rfl
  rw [hcount, filter_firstOfRuns hnone]
  cases lines.find? (·.1 = key) <;> simp

/-! ## Sorted lines -/

/-- **The lines are sorted**: they stand in order; and they are the given ones, or else one for each
key, the first that has it when the given lines stand in order. -/
structure IsSorting (s : Settings) (lines output : List String) : Prop where
  pairwise : output.Pairwise (Precedes s)
  perm : s.unique = false → output.Perm lines
  first : s.unique = true → ∃ sorted : List String, sorted.Perm lines ∧
    sorted.Pairwise (Precedes s) ∧ ∀ key : String,
      output.filter (textKey s · = key) = (sorted.find? (textKey s · = key)).toList

/-- Lines with their keys. -/
def keyed (s : Settings) (lines : List String) : List (Key × String) :=
  lines.map fun line => (keyOf s line, line)

/-- The lines are put in order, and then they lose their keys. -/
theorem sortLines_eq (hs : s.numeric = false) (lines : List String) :
    sortLines s lines =
      (if s.unique then firstOfRuns none (keyed s (lines.mergeSort (Precedes s · ·)))
        else keyed s (lines.mergeSort (Precedes s · ·))).map (·.2) := by
  rw [sortLines, keyed, List.map_mergeSort]
  intro a _ b _
  rw [Bool.eq_iff_iff, decide_eq_true_iff, Precedes]
  split
  · exact (isBefore_keyOf hs b a).symm
  · exact (isBefore_keyOf hs a b).symm

theorem pairwise_mergeSort (s : Settings) (lines : List String) :
    (lines.mergeSort (Precedes s · ·)).Pairwise (Precedes s) := by
  have htrans (a b c : String) : decide (Precedes s a b) → decide (Precedes s b c) →
      decide (Precedes s a c) := by
    simpa using Precedes.trans
  have htotal (a b : String) : decide (Precedes s a b) || decide (Precedes s b a) := by
    simpa using precedes_total s a b
  exact (List.pairwise_mergeSort htrans htotal lines).imp of_decide_eq_true

/-- Lines with one key stand together. -/
theorem grouped_keyed (hs : s.numeric = false) {lines : List String}
    (h : lines.Pairwise (Precedes s)) : Grouped ((keyed s lines).map (·.1)) := by
  intro a b hsub
  rw [keyed, List.map_map] at hsub
  obtain ⟨three, hthree, heq⟩ := List.sublist_map_iff.1 hsub
  obtain ⟨x, rest, rfl, hx, heq⟩ := List.map_eq_cons_iff.1 heq.symm
  obtain ⟨y, rest, rfl, hy, heq⟩ := List.map_eq_cons_iff.1 heq
  obtain ⟨z, rest, rfl, hz, -⟩ := List.map_eq_cons_iff.1 heq
  have hordered := h.sublist hthree
  rw [List.pairwise_cons, List.pairwise_cons] at hordered
  have hxy := hordered.1 y List.mem_cons_self
  have hyz := hordered.2.1 z List.mem_cons_self
  simp only [Function.comp_apply, keyOf_of_not_numeric hs] at hx hy hz
  rw [← hx, Key.text.injEq] at hz
  rw [← hx, ← hy, hxy.textKey_eq hyz hz.symm]

theorem map_keyed (s : Settings) (lines : List String) : (keyed s lines).map (·.2) = lines := by
  rw [keyed, List.map_map]
  exact List.map_id _

/-- The first lines of runs keep their keys. -/
theorem keyed_map_firstOfRuns (s : Settings) (lines : List String) :
    keyed s ((firstOfRuns none (keyed s lines)).map (·.2)) = firstOfRuns none (keyed s lines) := by
  rw [keyed, List.map_map]
  refine (List.map_congr_left fun line hline => ?_).trans (List.map_id _)
  obtain ⟨text, -, rfl⟩ := List.mem_map.1 ((firstOfRuns_sublist _ _).mem hline)
  rfl

/-- Lines are selected by their keys. -/
theorem filter_keyed (hs : s.numeric = false) (key : String) (lines : List String) :
    (keyed s lines).filter (·.1 = .text key) = keyed s (lines.filter (textKey s · = key)) := by
  rw [keyed, List.filter_map, keyed]
  simp only [Function.comp_def, keyOf_of_not_numeric hs, Key.text.injEq]

theorem find?_keyed (hs : s.numeric = false) (key : String) (lines : List String) :
    ((keyed s lines).find? (·.1 = .text key)).toList =
      keyed s (lines.find? (textKey s · = key)).toList := by
  rw [keyed, List.find?_map, Option.toList_map, keyed]
  simp only [Function.comp_def, keyOf_of_not_numeric hs, Key.text.injEq]

/-- **No line is lost**, unless lines are wanted once only. -/
theorem sortLines_perm (hunique : s.unique = false) (lines : List String) :
    (sortLines s lines).Perm lines := by
  rw [sortLines, hunique]
  have hperm := (List.mergeSort_perm (keyed s lines)
    fun a b => if s.reverse then isBefore b a else isBefore a b).map (·.2)
  rwa [map_keyed] at hperm

theorem sortLines_sublist (hs : s.numeric = false) (lines : List String) :
    (sortLines s lines).Sublist (lines.mergeSort (Precedes s · ·)) := by
  have hfirst := (firstOfRuns_sublist none (keyed s (lines.mergeSort (Precedes s · ·)))).map (·.2)
  rw [map_keyed] at hfirst
  rw [sortLines_eq hs]
  split
  · exact hfirst
  · rw [map_keyed]

/-- **The lines are sorted.** -/
theorem isSorting_sortLines (hs : s.numeric = false) (lines : List String) :
    IsSorting s lines (sortLines s lines) := by
  have hpairwise := pairwise_mergeSort s lines
  have hperm := List.mergeSort_perm lines (Precedes s · ·)
  refine ⟨hpairwise.sublist (sortLines_sublist hs lines),
    fun hunique => sortLines_perm hunique lines, fun hunique => ?_⟩
  rw [sortLines_eq hs, hunique, if_pos rfl]
  generalize lines.mergeSort (Precedes s · ·) = sorted at *
  refine ⟨sorted, hperm, hpairwise, fun key => ?_⟩
  have hnone : Grouped ((none : Option Key).toList ++ (keyed s sorted).map (·.1)) :=
    grouped_keyed hs hpairwise
  have hfirst := filter_firstOfRuns hnone (.text key)
  rw [if_neg nofun, ← keyed_map_firstOfRuns, filter_keyed hs, find?_keyed hs] at hfirst
  simpa only [map_keyed] using congrArg (List.map (·.2)) hfirst

/-- **Sorted lines stay as they are.** -/
theorem sortLines_sortLines (hs : s.numeric = false) (lines : List String) :
    sortLines s (sortLines s lines) = sortLines s lines := by
  have hpairwise := (isSorting_sortLines hs lines).pairwise
  have hstay : (sortLines s lines).mergeSort (Precedes s · ·) = sortLines s lines :=
    List.mergeSort_of_pairwise (hpairwise.imp decide_eq_true)
  rw [sortLines_eq hs (sortLines s lines), hstay]
  cases hunique : s.unique with
  | false => rw [if_neg Bool.false_ne_true, map_keyed]
  | true =>
    have hnodup := nodup_firstOfRuns (grouped_keyed hs (pairwise_mergeSort s lines))
    have honce : firstOfRuns none (keyed s (sortLines s lines)) = keyed s (sortLines s lines) := by
      rw [sortLines_eq hs, hunique, if_pos rfl, keyed_map_firstOfRuns]
      exact firstOfRuns_eq_self hnodup
    rw [if_pos rfl, honce, map_keyed]

/-! ## The utility -/

/-- A text whose last line is ended. -/
def completed (text : String) : String :=
  if text.isEmpty || text.endsWith "\n" then text else text ++ "\n"

/-- **The operands can all be read**; without any, the input is. -/
def Reads (call : Call) (files : FileSystem) (operands texts : List String) : Prop :=
  List.Forall₂ (fun operand text => textOf call operand files = (.ok (.ok text), files))
    (if operands.isEmpty then ["-"] else operands) texts

/-- Lines that are ended by line feeds need no other one. -/
theorem completed_join (lines : List String) :
    completed (String.join (lines.map (· ++ "\n"))) = String.join (lines.map (· ++ "\n")) := by
  refine if_pos ?_
  obtain rfl | ⟨front, line, rfl⟩ := lines.eq_nil_or_concat
  · rfl
  · rw [List.concat_eq_append, List.map_append, String.join_append, Bool.or_eq_true,
      String.endsWith_eq_endsWith_toSlice, String.Slice.endsWith_string_iff]
    refine .inr ⟨(String.join (front.map (· ++ "\n")) ++ line).toList, ?_⟩
    simp

theorem readFiles_eq {operands texts : List String}
    (h : List.Forall₂ (fun operand text => textOf call operand files = (.ok (.ok text), files))
      operands texts) :
    readFiles call operands files = (.ok (.ok (String.join (texts.map completed))), files) := by
  induction h with
  | nil => rfl
  | @cons operand text operands texts hfirst _ ih =>
    rw [readFiles, bind_apply, hfirst]
    dsimp only
    rw [bind_apply, ih]
    rw [List.map_cons, String.join_cons]
    rfl

/-- What `sort` writes. -/
theorem run_eq {operands texts : List String} (hhelp : "--help" ∉ call.arguments)
    (hread : (readArguments .standard call.arguments).run = .ok (.ok (s, operands)))
    (htexts : Reads call files operands texts) :
    run call files =
      (.ok (.ofText (String.join ((sortLines s
        (Text.lines (String.join (texts.map completed)))).map (· ++ "\n")))), files) := by
  rw [run, if_neg hhelp, hread]
  dsimp only
  rw [bind_apply, readFiles_eq htexts]
  rfl

/-- What `sort` writes of one text. -/
theorem run_eq_singleton {operands : List String} {text : String}
    (hhelp : "--help" ∉ call.arguments)
    (hread : (readArguments .standard call.arguments).run = .ok (.ok (s, operands)))
    (htext : Reads call files operands [text]) :
    run call files =
      (.ok (.ofText (String.join ((sortLines s (Text.lines (completed text))).map (· ++ "\n")))),
        files) := by
  rw [run_eq hhelp hread htext, List.map_singleton, String.join_cons, String.join_nil,
    String.append_empty]

/-- **`sort` sorts**: it writes the lines of all its files in order, or one for each key; and what it
writes, it sorts into itself. -/
theorem run_isSorting {operands texts : List String} (hhelp : "--help" ∉ call.arguments)
    (hread : (readArguments .standard call.arguments).run = .ok (.ok (s, operands)))
    (hs : s.numeric = false) (htexts : Reads call files operands texts) :
    ∃ lines : List String,
      run call files = (.ok (.ofText (String.join (lines.map (· ++ "\n")))), files) ∧
      IsSorting s (Text.lines (String.join (texts.map completed))) lines ∧
      ∀ (again : Call) (files : FileSystem) (operands : List String),
        "--help" ∉ again.arguments →
        (readArguments .standard again.arguments).run = .ok (.ok (s, operands)) →
        Reads again files operands [String.join (lines.map (· ++ "\n"))] →
        run again files = (.ok (.ofText (String.join (lines.map (· ++ "\n")))), files) := by
  refine ⟨_, run_eq hhelp hread htexts, isSorting_sortLines hs _, ?_⟩
  intro again files operands hhelp hread htext
  have hlines : ∀ line ∈ sortLines s (Text.lines (String.join (texts.map completed))),
      ∀ c ∈ line.toList, Text.isLineEnd c = false := by
    intro line hline
    exact Text.not_isLineEnd_of_mem_lines
      (List.mem_mergeSort.1 ((sortLines_sublist hs _).mem hline))
  rw [run_eq_singleton hhelp hread htext, completed_join, Text.lines_join hlines,
    sortLines_sortLines hs]

/-- One line for each of two keys, which stand after colons; the last line is not ended. And once
more. -/
theorem run_isSorting_input :
    ∃ lines : List String,
      run ⟨["-fu", "-t", ":", "-k2"], "c:Y\nb:x\na:X", "/", .empty, .bare⟩ (.ofClock ⟨0, 0⟩) =
        (.ok (.ofText (String.join (lines.map (· ++ "\n")))), .ofClock ⟨0, 0⟩) ∧
      IsSorting ⟨true, false, false, true, some (2, none), some ':'⟩
        (Text.lines "c:Y\nb:x\na:X\n") lines ∧
      run ⟨["-fu", "-t", ":", "-k2"], String.join (lines.map (· ++ "\n")), "/", .empty, .bare⟩
          (.ofClock ⟨0, 0⟩) =
        (.ok (.ofText (String.join (lines.map (· ++ "\n")))), .ofClock ⟨0, 0⟩) := by
  have hwords : ∀ word ∈ ["-fu", "-t", "-k2"], letterOf? word = none ∧ longValue? word = none ∧
      isOption word = true ∧ word.startsWith "--" = false := by decide +kernel
  simp only [List.forall_mem_cons, List.not_mem_nil, false_implies, implies_true, and_true] at hwords
  have hread : (readArguments .standard ["-fu", "-t", ":", "-k2"]).run =
      .ok (.ok (⟨true, false, false, true, some (2, none), some ':'⟩, [])) := by
    simp [readArguments, hwords, Settings.letters, Settings.letter?]
    rfl
  have hreads (text : String) :
      Reads ⟨["-fu", "-t", ":", "-k2"], text, "/", .empty, .bare⟩ (.ofClock ⟨0, 0⟩) [] [text] :=
    .cons rfl .nil
  have hhelp : "--help" ∉ ["-fu", "-t", ":", "-k2"] := by decide
  obtain ⟨lines, hrun, hsorting, hagain⟩ := run_isSorting hhelp hread rfl (hreads "c:Y\nb:x\na:X")
  have htext : String.join (["c:Y\nb:x\na:X"].map completed) = "c:Y\nb:x\na:X\n" := by cbv
  rw [htext] at hsorting
  exact ⟨lines, hrun, hsorting, hagain _ _ [] hhelp hread (hreads _)⟩

end VirtualShell.Utility.Sort
