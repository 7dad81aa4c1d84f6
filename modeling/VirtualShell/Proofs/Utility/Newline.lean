import Mathlib.Data.Nat.Find
import VirtualShell.Proofs.FileSystem.Path
import VirtualShell.Proofs.Utility.Excerpt
import VirtualShell.Proofs.Utility.Sorting
import VirtualShell.Utility.Count

/-!
# Lines and line feeds

`wc` counts line feeds, while `head` and `sort` take a text apart at every character that ends lines.
So what they call lines is more than what lies between line feeds as soon as another such character
is there: the first lines may be cut off too early, and a line may be sorted in pieces.

* `Text.IsLead` — the start of a text with a number of line feeds.
* `Text.newlineLines` — the lines between line feeds.
* `Utility.Excerpt.head_lead` — when the first lines are the start of the text.
* `Utility.Sort.run_newlineLines` — when the sorted lines are those between line feeds.
* **`Utility.head_sort_count`** — both, with the numbers of lines that are counted in them.
-/

namespace VirtualShell

/-! ## Counting line feeds -/

namespace Text

/-- A line has one line feed at most. -/
theorem count_newline_le {text line : String} (h : line ∈ linesWithEnds text) :
    line.toList.count '\n' ≤ 1 := by
  obtain ⟨l, hl, rfl⟩ := List.mem_map.1 h
  obtain ⟨hbody, hending, -⟩ := isLine_of_mem_linesFrom (by simp) l hl
  have hnone : l.1.count '\n' = 0 := List.count_eq_zero.2 fun hmem => by
    cases hbody _ hmem
  rw [String.toList_ofList, List.count_append, hnone, Nat.zero_add]
  obtain h | h | ⟨c, -, h⟩ := hending <;> rw [h]
  · decide
  · decide
  · exact (List.count_le_length).trans_eq rfl

/-- **No more line feeds than lines**, and as many if every line has one. -/
theorem count_join {text : String} {lines : List String}
    (h : ∀ line ∈ lines, line ∈ linesWithEnds text) :
    (String.join lines).toList.count '\n' ≤ lines.length ∧
      ((String.join lines).toList.count '\n' = lines.length ↔
        ∀ line ∈ lines, '\n' ∈ line.toList) := by
  induction lines with
  | nil => simp
  | cons line lines ih =>
    obtain ⟨hle, hiff⟩ := ih fun l hl => h l (List.mem_cons_of_mem _ hl)
    have hline := count_newline_le (h line List.mem_cons_self)
    rw [String.join_cons, String.toList_append, List.count_append, List.forall_mem_cons, ← hiff,
      List.length_cons, ← List.count_pos_iff]
    constructor
    · omega
    · omega

/-! ## The start of a text -/

/-- **The start of a text with so many line feeds**: the shortest one, or the whole text when it has
fewer. -/
inductive IsLead (k : Nat) (text : String) : String → Prop
  | whole : text.toList.count '\n' < k → IsLead k text text
  | part {lead : String} : lead.toList <+: text.toList → lead.toList.count '\n' = k →
      (∀ other : String, other.toList <+: text.toList → other.toList.count '\n' = k →
        lead.toList <+: other.toList) → IsLead k text lead

/-- The shortest start is empty or ends with a line feed. -/
theorem getLast?_of_shortest {k : Nat} {text lead : String} (hlead : lead.toList <+: text.toList)
    (hcount : lead.toList.count '\n' = k)
    (hshortest : ∀ other : String, other.toList <+: text.toList → other.toList.count '\n' = k →
      lead.toList <+: other.toList) : lead = "" ∨ lead.toList.getLast? = some '\n' := by
  obtain hnil | ⟨front, c, hconcat⟩ := lead.toList.eq_nil_or_concat
  · exact .inl (String.toList_eq_nil_iff.1 hnil)
  · right
    rw [List.concat_eq_append] at hconcat
    rw [hconcat, List.getLast?_concat]
    by_contra hc
    -- Without its last character the start has the same line feeds.
    have hshorter := hshortest (String.ofList front)
    rw [String.toList_ofList, hconcat] at hshorter
    rw [hconcat] at hcount hlead
    have hprefix := hshorter ((List.prefix_append _ _).trans hlead) (by
      rw [← hcount, List.count_append, List.count_singleton, if_neg (by simpa using hc)]
      rfl)
    simpa using hprefix.length_le

/-- A text with enough line feeds has a start with just so many. -/
theorem exists_isLead (k : Nat) (text : String) : ∃ lead, IsLead k text lead := by
  by_cases hfew : text.toList.count '\n' < k
  · exact ⟨text, .whole hfew⟩
  have hexists : ∃ n, k ≤ (text.toList.take n).count '\n' :=
    ⟨text.toList.length, by simpa using hfew⟩
  refine ⟨String.ofList (text.toList.take (Nat.find hexists)), .part ?_ ?_ ?_⟩ <;>
    rw [String.toList_ofList]
  · exact List.take_prefix _ _
  · refine le_antisymm ?_ (Nat.find_spec hexists)
    rcases hn : Nat.find hexists with - | n
    · simp
    · have hbefore : ¬ k ≤ (text.toList.take n).count '\n' :=
        Nat.find_min hexists (hn ▸ Nat.lt_succ_self n)
      have hone : text.toList[n]?.toList.count '\n' ≤ 1 := by
        refine List.count_le_length.trans ?_
        cases text.toList[n]? <;> simp
      rw [List.take_add_one, List.count_append]
      omega
  · intro other hother hcount
    rw [List.prefix_iff_eq_take.1 hother] at hcount ⊢
    exact List.take_prefix_take_left (Nat.find_min' hexists hcount.ge)

/-- The first lines of a text are those of its start. -/
theorem IsLead.take_linesWithEnds {k : Nat} {text lead : String} (h : IsLead k text lead) :
    (linesWithEnds text).take k = (linesWithEnds lead).take k := by
  cases h with
  | whole => rfl
  | part hprefix hcount hshortest =>
    obtain rfl | hlast := getLast?_of_shortest hprefix hcount hshortest
    · obtain rfl : 0 = k := hcount
      rfl
    · obtain ⟨rest, hrest⟩ := hprefix
      have hlength : k ≤ (linesWithEnds lead).length := by
        have hle := (count_join fun line (hline : line ∈ linesWithEnds lead) => hline).1
        rwa [join_linesWithEnds, hcount] at hle
      rw [linesWithEnds, ← hrest, linesFrom_append hlast, List.map_append, ← linesWithEnds,
        List.take_append_of_le_length hlength]

/-- **Part of a start** has as many line feeds only if it is the start. -/
theorem IsLead.count_eq_iff {k : Nat} {text lead front back : String} (h : IsLead k text lead)
    (hk : k ≤ text.toList.count '\n') (happend : front ++ back = lead) :
    front.toList.count '\n' = k ↔ front = lead := by
  subst happend
  cases h with
  | whole hfew => exact absurd hk (Nat.not_le.2 hfew)
  | part hprefix hcount hshortest =>
    rw [String.toList_append] at hprefix hcount
    constructor
    · intro hfront
      have hback := hshortest front ((List.prefix_append _ _).trans hprefix) hfront
      rw [String.toList_append] at hback
      rw [← String.toList_inj, String.toList_append]
      exact (List.prefix_append _ _).eq_of_length_le hback.length_le
    · intro hall
      rw [← hcount, ← String.toList_append, ← hall]

/-! ## Lines between line feeds -/

/-- **The lines between line feeds** of a text whose last line is ended. -/
def newlineLines (text : String) : List String := (cutAt '\n' text).dropLast

/-- Lines without line feeds come back. -/
theorem newlineLines_join {lines : List String} (h : ∀ line ∈ lines, '\n' ∉ line.toList) :
    newlineLines (String.join (lines.map (· ++ "\n"))) = lines := by
  induction lines with
  | nil => rfl
  | cons line lines ih =>
    have hrest := ih fun l hl => h l (List.mem_cons_of_mem _ hl)
    have htoList : (String.join ((line :: lines).map (· ++ "\n"))).toList =
        line.toList ++ '\n' :: (String.join (lines.map (· ++ "\n"))).toList := by
      simp
    rw [newlineLines, cutAt] at hrest ⊢
    rw [htoList, cut_append (h line List.mem_cons_self), List.map_cons,
      List.dropLast_cons_of_ne_nil (by simpa using cut_ne_nil _ _), hrest, String.ofList_toList]

theorem not_mem_of_mem_newlineLines {text line : String} (h : line ∈ newlineLines text) :
    '\n' ∉ line.toList := by
  obtain ⟨piece, hpiece, rfl⟩ := List.mem_map.1 (List.mem_of_mem_dropLast h)
  rw [String.toList_ofList]
  exact not_mem_of_mem_cut hpiece

/-- The pieces of a text, each with the character behind it. -/
theorem flatMap_cut (separator : Char) (text : List Char) :
    (cut separator text).flatMap (· ++ [separator]) = text ++ [separator] := by
  induction text with
  | nil => rfl
  | cons c rest ih =>
    rw [cut]
    split
    next hc =>
      rw [List.flatMap_cons, ih, hc, List.nil_append, List.singleton_append, List.cons_append]
    · split
      next hnil => exact absurd hnil (cut_ne_nil separator rest)
      next piece pieces hpieces =>
        rw [hpieces, List.flatMap_cons] at ih
        rw [List.flatMap_cons, List.cons_append, List.cons_append, ih, List.cons_append]

/-- **The lines between line feeds make up the text**, if it ends with one. -/
theorem join_newlineLines {text : String} (h : text = "" ∨ text.toList.getLast? = some '\n') :
    String.join ((newlineLines text).map (· ++ "\n")) = text := by
  obtain rfl | hlast := h
  · rfl
  · obtain ⟨front, hfront⟩ := List.getLast?_eq_some_iff.1 hlast
    have hcut : newlineLines text = (cut '\n' front).map String.ofList := by
      rw [newlineLines, cutAt, hfront, cut_append_separator, List.map_append]
      exact List.dropLast_concat
    rw [hcut, ← String.toList_inj, hfront, ← flatMap_cut]
    simp [String.toList_join, List.flatMap_map]

theorem count_join_newline {lines : List String} (h : ∀ line ∈ lines, '\n' ∉ line.toList) :
    (String.join (lines.map (· ++ "\n"))).toList.count '\n' = lines.length := by
  induction lines with
  | nil => rfl
  | cons line lines ih =>
    have hline : line.toList.count '\n' = 0 := List.count_eq_zero.2 (h line List.mem_cons_self)
    rw [List.map_cons, String.join_cons, String.toList_append, String.toList_append,
      List.count_append, List.count_append, hline, ih fun l hl => h l (List.mem_cons_of_mem _ hl),
      List.length_cons]
    exact Nat.add_comm 1 _

/-- There are as many lines as line feeds. -/
theorem length_newlineLines {text : String} (h : text = "" ∨ text.toList.getLast? = some '\n') :
    (newlineLines text).length = text.toList.count '\n' := by
  rw [← count_join_newline fun _ => not_mem_of_mem_newlineLines, join_newlineLines h]

/-- **The lines of a text are those between line feeds** if no other character ends a line. -/
theorem lines_perm_newlineLines_iff {text : String}
    (h : text = "" ∨ text.toList.getLast? = some '\n') :
    (lines text).Perm (newlineLines text) ↔
      ∀ c ∈ text.toList, isLineEnd c = true → c = '\n' := by
  have hmem (c : Char) : c ∈ text.toList ↔
      ∃ line ∈ newlineLines text, c ∈ line.toList ∨ c = '\n' := by
    conv_lhs => rw [← join_newlineLines h]
    simp [String.toList_join]
  constructor
  · intro hperm c hc hend
    obtain ⟨line, hline, hc | hc⟩ := (hmem c).1 hc
    · rw [not_isLineEnd_of_mem_lines (hperm.mem_iff.2 hline) c hc] at hend
      cases hend
    · exact hc
  · intro honly
    have hlines : ∀ line ∈ newlineLines text, ∀ c ∈ line.toList, isLineEnd c = false := by
      intro line hline c hc
      by_contra hend
      obtain rfl := honly c ((hmem c).2 ⟨line, hline, .inl hc⟩) (eq_true_of_ne_false hend)
      exact not_mem_of_mem_newlineLines hline hc
    have hall := lines_join hlines
    rw [join_newlineLines h] at hall
    rw [hall]

end Text

namespace Utility

variable {call : Call} {files : FileSystem} {text input directory : String}
  {operands : List String} {environment : Table String String} {host : Host}

/-! ## Counting -/

/-- **`wc -l`** counts line feeds. -/
theorem Count.writes_lines (text directory : String) (environment : Table String String)
    (host : Host) (files : FileSystem) :
    Writes (run ⟨["-l"], text, directory, environment, host⟩) files
      (toString (text.toList.count '\n') ++ "\n") := by
  have hread : rules.read [] ["-l"] = .ok ([.lines], []) := by cbv
  have hchosen : Measure.all.filter (· ∈ [Measure.lines]) = [.lines] := by decide
  have hrows : readFiles ⟨["-l"], text, directory, environment, host⟩ false .success ["-"] files =
      (.ok ([⟨fun measure => measure.count text, ""⟩], .success), files) := rfl
  have hline : Row.line ⟨fun measure => measure.count text, ""⟩ [.lines] 0 =
      toString (text.toList.count '\n') ++ "\n" := by
    simp [Row.line, Text.padLeft, Measure.count]
  have hwidth (rows : List Row) : width rows [.lines] false = 0 := rfl
  refine ⟨.ofText (toString (text.toList.count '\n') ++ "\n"), ?_, rfl⟩
  rw [run, hread]
  simp only [List.isEmpty_nil, List.isEmpty_cons, hchosen, bind_apply, Bool.not_true,
    Bool.false_eq_true, if_false, hrows, hwidth, List.length_singleton, Nat.lt_irrefl,
    List.map_singleton, hline, String.join_cons, String.join_nil, String.append_empty]
  rfl

/-! ## The first lines -/

/-- **The first lines are the start of the text** with as many line feeds, unless they are cut short:
a start with more lines than line feeds is, and everything if the number has too many digits. There
are never too many line feeds, and if the text has enough of them, it is only then too few. -/
theorem Excerpt.head_lead {k : Nat} {lead : String}
    (h : Source ⟨[], input, directory, environment, host⟩ files text operands)
    (hlead : Text.IsLead k text lead) :
    ∃ first : String,
      Writes (head ⟨"-n" :: toString k :: operands, input, directory, environment, host⟩) files first ∧
      (first = lead ↔
        lead = "" ∨ k < 10 ^ Text.maxDecimalDigits ∧ (Text.linesWithEnds lead).length ≤ k) ∧
      first.toList.count '\n' ≤ k ∧
      (k ≤ text.toList.count '\n' → (first.toList.count '\n' = k ↔ first = lead)) := by
  rw [← LineCount.spelling_plain]
  refine ⟨_, writes_counted h "head" first nofun, ?_⟩
  generalize 10 ^ Text.maxDecimalDigits = limit
  dsimp only
  by_cases hk : k < limit
  · have hfirst : String.join (first ⟨none, k⟩ (Text.linesWithEnds text)) =
        String.join ((Text.linesWithEnds lead).take k) :=
      congrArg String.join hlead.take_linesWithEnds
    have hcount := (Text.count_join fun line (hline : line ∈ (Text.linesWithEnds lead).take k) =>
      List.mem_of_mem_take hline).1
    rw [if_pos hk, hfirst]
    refine ⟨?_, ?_, fun henough =>
      hlead.count_eq_iff henough (Text.join_take_append_join_drop lead k)⟩
    · have hempty : lead = "" → (Text.linesWithEnds lead).length ≤ k := by
        rintro rfl
        exact Nat.zero_le k
      rw [Text.join_take_eq_iff]
      tauto
    · exact hcount.trans (List.length_take_le _ _)
  · rw [if_neg hk]
    refine ⟨?_, Nat.zero_le k, fun henough => hlead.count_eq_iff henough (String.empty_append)⟩
    rw [eq_comm]
    tauto

/-! ## Sorted lines -/

theorem Sort.completed_cases (text : String) :
    completed text = "" ∨ (completed text).toList.getLast? = some '\n' := by
  rw [completed]
  split
  next h =>
    rw [Bool.or_eq_true, String.endsWith_eq_endsWith_toSlice,
      String.Slice.endsWith_string_iff, String.isEmpty_iff] at h
    obtain rfl | ⟨front, hfront⟩ := h
    · exact .inl rfl
    · rw [String.copy_toSlice] at hfront
      exact .inr (hfront ▸ List.getLast?_concat)
  · exact .inr (by simp)

/-- Only a line feed is put at the end of a text. -/
theorem Sort.mem_completed {c : Char} (hc : c ≠ '\n') (text : String) :
    c ∈ (completed text).toList ↔ c ∈ text.toList := by
  rw [completed]
  split
  · rfl
  · simp [hc]

/-- **The sorted lines are those between line feeds** only if no other character ends a line; they
are as many only if every line has a line feed. -/
theorem Sort.run_newlineLines {s : Settings} (hhelp : "--help" ∉ call.arguments)
    (hread : (readArguments .standard call.arguments).run = .ok (.ok (s, operands)))
    (hunique : s.unique = false) (htext : Reads call files operands [text]) :
    ∃ sorted : String, Writes (run call) files sorted ∧
      ((∃ lines : List String, lines.Perm (Text.newlineLines (completed text)) ∧
        sorted = String.join (lines.map (· ++ "\n"))) ↔
          ∀ c ∈ text.toList, Text.isLineEnd c = true → c = '\n') ∧
      (sorted.toList.count '\n' = (Text.newlineLines (completed text)).length ↔
        ∀ line ∈ Text.linesWithEnds (completed text), '\n' ∈ line.toList) := by
  have hrun := run_eq_singleton hhelp hread htext
  have hperm := sortLines_perm hunique (Text.lines (completed text))
  have hended := completed_cases text
  have hnone : ∀ line ∈ sortLines s (Text.lines (completed text)), '\n' ∉ line.toList := by
    intro line hline hmem
    cases Text.not_isLineEnd_of_mem_lines (hperm.mem_iff.1 hline) _ hmem
  refine ⟨_, ⟨_, hrun, rfl⟩, ?_, ?_⟩
  · have honly : (∀ c ∈ text.toList, Text.isLineEnd c = true → c = '\n') ↔
        ∀ c ∈ (completed text).toList, Text.isLineEnd c = true → c = '\n' := by
      refine forall_congr' fun c => ?_
      by_cases hc : c = '\n'
      · simp [hc]
      · rw [mem_completed hc]
    rw [honly, ← Text.lines_perm_newlineLines_iff hended]
    constructor
    · rintro ⟨lines, hlines, hsorted⟩
      have hback := Text.newlineLines_join fun line hline =>
        Text.not_mem_of_mem_newlineLines (hlines.mem_iff.1 hline)
      have hsame : sortLines s (Text.lines (completed text)) = lines := by
        rw [← hback, ← Text.newlineLines_join hnone]
        exact congrArg Text.newlineLines hsorted
      exact hperm.symm.trans (hsame ▸ hlines)
    · exact fun hlines => ⟨_, hperm.trans hlines, rfl⟩
  · have hcount := (Text.count_join fun line (hline : line ∈ Text.linesWithEnds (completed text)) =>
      hline).2
    rw [Text.join_linesWithEnds, ← Text.length_newlineLines hended] at hcount
    have hsorted := (Text.count_join_newline hnone).trans hperm.length_eq
    rw [Text.lines, List.length_map] at hsorted
    rw [← hcount, Text.linesWithEnds, List.length_map, eq_comm]
    exact iff_of_eq (congrArg _ hsorted)

/-! ## Both -/

/-- **Lines and line feeds.** The first lines of a text are its start with so many line feeds, the
sorted lines are those between line feeds, and there are as many as are counted, only where no other
character comes in the way. -/
theorem head_sort_count {sorting : Call} {s : Sort.Settings} {words : List String}
    (hfirst : Excerpt.Source ⟨[], input, directory, environment, host⟩ files text operands)
    (hhelp : "--help" ∉ sorting.arguments)
    (hread : (Sort.readArguments .standard sorting.arguments).run = .ok (.ok (s, words)))
    (hunique : s.unique = false) (hsort : Sort.Reads sorting files words [text]) (k : Nat) :
    ∃ (lead first sorted : String) (n m : Nat),
      Text.IsLead k text lead ∧
      Writes (Excerpt.head ⟨"-n" :: toString k :: operands, input, directory, environment, host⟩)
        files first ∧
      Writes (Sort.run sorting) files sorted ∧
      Writes (Count.run ⟨["-l"], first, directory, environment, host⟩) files (toString n ++ "\n") ∧
      Writes (Count.run ⟨["-l"], sorted, directory, environment, host⟩) files (toString m ++ "\n") ∧
      (first = lead ↔
        lead = "" ∨ k < 10 ^ Text.maxDecimalDigits ∧ (Text.linesWithEnds lead).length ≤ k) ∧
      n ≤ k ∧
      (k ≤ text.toList.count '\n' → (n = k ↔ first = lead)) ∧
      ((∃ lines : List String, lines.Perm (Text.newlineLines (Sort.completed text)) ∧
        sorted = String.join (lines.map (· ++ "\n"))) ↔
          ∀ c ∈ text.toList, Text.isLineEnd c = true → c = '\n') ∧
      (m = (Text.newlineLines (Sort.completed text)).length ↔
        ∀ line ∈ Text.linesWithEnds (Sort.completed text), '\n' ∈ line.toList) := by
  obtain ⟨lead, hlead⟩ := Text.exists_isLead k text
  obtain ⟨first, hwrites, hhead, hle, henough⟩ := Excerpt.head_lead hfirst hlead
  obtain ⟨sorted, hsorted, hlines, hcount⟩ := Sort.run_newlineLines hhelp hread hunique hsort
  exact ⟨lead, first, sorted, _, _, hlead, hwrites, hsorted,
    Count.writes_lines first directory environment host files,
    Count.writes_lines sorted directory environment host files, hhead, hle, henough, hlines, hcount⟩

/-- The first line, and both lines sorted. -/
theorem head_sort_count_unended :
    ∃ (lead first sorted : String) (n : Nat),
      Text.IsLead 1 "b\na" lead ∧
      Writes (Excerpt.head ⟨["-n", "1"], "b\na", "/", .empty, .bare⟩) (.ofClock ⟨0, 0⟩) first ∧
      Writes (Sort.run ⟨[], "b\na", "/", .empty, .bare⟩) (.ofClock ⟨0, 0⟩) sorted ∧
      Writes (Count.run ⟨["-l"], first, "/", .empty, .bare⟩) (.ofClock ⟨0, 0⟩) (toString n ++ "\n") ∧
      n ≤ 1 ∧ (n = 1 ↔ first = lead) ∧
      ∃ lines : List String, lines.Perm ["b", "a"] ∧
        sorted = String.join (lines.map (· ++ "\n")) := by
  have hsort : Sort.Reads ⟨[], "b\na", "/", .empty, .bare⟩ (.ofClock ⟨0, 0⟩) [] ["b\na"] := .cons rfl .nil
  obtain ⟨lead, first, sorted, n, -, hlead, hfirst, hsorted, hn, -, -, hle, henough, hlines, -⟩ :=
    head_sort_count (.input rfl) (List.not_mem_nil) rfl rfl hsort 1
  have honly : ∀ c ∈ "b\na".toList, Text.isLineEnd c = true → c = '\n' := by
    intro c hc
    have hcases : c = 'b' ∨ c = '\n' ∨ c = 'a' := by simpa using hc
    obtain rfl | rfl | rfl := hcases <;> decide
  have hbetween : Text.newlineLines (Sort.completed "b\na") = ["b", "a"] := by cbv
  rw [hbetween] at hlines
  exact ⟨lead, first, sorted, n, hlead, hfirst, hsorted, hn, hle, henough (by decide),
    hlines.2 honly⟩

/-- **A vertical tab ends the first line**, so that it has no line feed, although the text has one;
and the line is sorted in two pieces. -/
theorem head_sort_verticalTab :
    Writes (Excerpt.head ⟨["-n", "1"], "b\x0ba\n", "/", .empty, .bare⟩) (.ofClock ⟨0, 0⟩) "b\x0b" ∧
    Writes (Count.run ⟨["-l"], "b\x0b", "/", .empty, .bare⟩) (.ofClock ⟨0, 0⟩) "0\n" ∧
    Writes (Count.run ⟨["-l"], "b\x0ba\n", "/", .empty, .bare⟩) (.ofClock ⟨0, 0⟩) "1\n" ∧
    Writes (Sort.run ⟨[], "b\x0ba\n", "/", .empty, .bare⟩) (.ofClock ⟨0, 0⟩) "a\nb\n" := by
  have hsource : Excerpt.Source ⟨[], "b\x0ba\n", "/", .empty, .bare⟩ (.ofClock ⟨0, 0⟩) "b\x0ba\n" [] :=
    .input rfl
  have hreads : Sort.Reads ⟨[], "b\x0ba\n", "/", .empty, .bare⟩ (.ofClock ⟨0, 0⟩) [] ["b\x0ba\n"] :=
    .cons rfl .nil
  have hfirst := Excerpt.writes_counted hsource "head" Excerpt.first
    (show ∀ c ∈ Excerpt.LineCount.sign ⟨none, 1⟩, Text.IsSign c from nofun)
  have hsort := Sort.run_eq_singleton List.not_mem_nil rfl hreads
  have hpiece : String.join (Excerpt.first ⟨none, 1⟩ (Text.linesWithEnds "b\x0ba\n")) = "b\x0b" := by
    cbv
  have hpieces : Sort.sortLines .standard (Text.lines (Sort.completed "b\x0ba\n")) =
      ["a", "b"] := by
    cbv
  rw [if_pos ((Text.length_toString_le_iff 1).1 (by decide)), hpiece] at hfirst
  rw [hpieces] at hsort
  exact ⟨hfirst, Count.writes_lines _ _ _ _ _, Count.writes_lines _ _ _ _ _, _, hsort, rfl⟩

end Utility

end VirtualShell
