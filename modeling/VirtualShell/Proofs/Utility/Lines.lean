import Mathlib.Data.List.Infix
import VirtualShell.Text.Character

/-!
# Lines of a text

A line is a run of characters that end no line, and what ends it: one of the characters that do, or
a carriage return with the line feed after it. Only the last line may go without an end, and then it
is not empty.

* `Text.IsLine` — such a line, as it is taken apart by `Text.linesFrom`.
* `Text.join_linesWithEnds` — the lines with their ends are the text.
* `Text.linesFrom_append` — a text that is cut after a line feed has the lines of both parts.
* **`Text.lines_join`** — lines that are ended by line feeds are the lines of what they make up.
-/

namespace VirtualShell.Text

/-! ## Reading a line -/

theorem linesFrom_of_not_isLineEnd {c : Char} (hc : isLineEnd c = false) (line rest : List Char) :
    linesFrom line (c :: rest) = linesFrom (c :: line) rest := by
  rw [linesFrom.eq_3]
  · rw [hc]
    rfl
  · rintro _ rfl
    cases hc

/-- A character ends a line alone, unless it is a carriage return before a line feed. -/
theorem linesFrom_of_isLineEnd {c : Char} (hc : isLineEnd c = true) (line rest : List Char)
    (halone : c = '\r' → rest.head? ≠ some '\n') :
    linesFrom line (c :: rest) = (line.reverse, [c]) :: linesFrom [] rest := by
  rw [linesFrom.eq_3]
  · rw [hc]
    rfl
  · rintro _ rfl rfl
    exact halone rfl rfl

theorem linesFrom_newline (line rest : List Char) :
    linesFrom line ('\n' :: rest) = (line.reverse, ['\n']) :: linesFrom [] rest :=
  linesFrom_of_isLineEnd rfl line rest nofun

theorem linesFrom_body {body : List Char} (hbody : ∀ c ∈ body, isLineEnd c = false)
    (line rest : List Char) :
    linesFrom line (body ++ rest) = linesFrom (body.reverse ++ line) rest := by
  induction body generalizing line with
  | nil => rfl
  | cons c body ih =>
    rw [List.cons_append, linesFrom_of_not_isLineEnd (hbody c List.mem_cons_self),
      ih fun c hc => hbody c (List.mem_cons_of_mem _ hc), List.reverse_cons, List.append_assoc]
    rfl

/-! ## The lines of a text -/

/-- **A line and what ends it.** -/
structure IsLine (line : List Char × List Char) : Prop where
  /-- No character in the line ends it. -/
  body : ∀ c ∈ line.1, isLineEnd c = false
  ending : line.2 = [] ∨ line.2 = ['\r', '\n'] ∨ ∃ c, isLineEnd c = true ∧ line.2 = [c]
  ne_nil : line.1 ++ line.2 ≠ []

theorem isLine_of_mem_linesFrom {line text : List Char} (hline : ∀ c ∈ line, isLineEnd c = false) :
    ∀ l ∈ linesFrom line text, IsLine l := by
  have hbody {line : List Char} (h : ∀ c ∈ line, isLineEnd c = false) :
      ∀ c ∈ line.reverse, isLineEnd c = false := fun c hc => h c (List.mem_reverse.1 hc)
  fun_induction linesFrom line text with
  | case1 => simp
  | case2 line hne =>
    intro l hl
    cases List.mem_singleton.1 hl
    exact ⟨hbody hline, .inl rfl, by simpa using hne⟩
  | case3 line rest ih =>
    refine List.forall_mem_cons.2 ⟨⟨hbody hline, .inr (.inl rfl), by simp⟩, ih (by simp)⟩
  | case4 line c rest _ hc ih =>
    refine List.forall_mem_cons.2 ⟨⟨hbody hline, .inr (.inr ⟨c, hc, rfl⟩), by simp⟩, ih (by simp)⟩
  | case5 line c rest _ hc ih =>
    exact ih (List.forall_mem_cons.2 ⟨eq_false_of_ne_true hc, hline⟩)

/-- The lines and their ends, one after another, are the text. -/
theorem flatMap_linesFrom (line text : List Char) :
    (linesFrom line text).flatMap (fun l => l.1 ++ l.2) = line.reverse ++ text := by
  fun_induction linesFrom line text with
  | case1 line hempty => simp [List.isEmpty_iff.1 hempty]
  | case2 | case3 | case4 | case5 => simp_all

/-- **Nothing is lost**: the lines of a text with their ends are the text. -/
theorem join_linesWithEnds (text : String) : String.join (linesWithEnds text) = text := by
  rw [← String.toList_inj, String.toList_join, linesWithEnds, List.flatMap_map]
  simpa using flatMap_linesFrom [] text.toList

/-- The lines before a place and those after it are the text. -/
theorem join_take_append_join_drop (text : String) (n : Nat) :
    String.join ((linesWithEnds text).take n) ++ String.join ((linesWithEnds text).drop n) =
      text := by
  rw [← String.join_append, List.take_append_drop, join_linesWithEnds]

/-- No line makes up nothing. -/
theorem join_eq_empty_iff {text : String} {ls : List String}
    (h : ∀ line ∈ ls, line ∈ linesWithEnds text) : String.join ls = "" ↔ ls = [] := by
  cases ls with
  | nil => exact iff_of_true rfl rfl
  | cons line ls =>
    obtain ⟨l, hl, rfl⟩ := List.mem_map.1 (h line List.mem_cons_self)
    refine iff_of_false (fun hempty => ?_) (List.cons_ne_nil _ _)
    rw [String.join_cons, String.append_eq_empty_iff, String.ofList_eq_empty_iff] at hempty
    exact (isLine_of_mem_linesFrom (by simp) l hl).ne_nil hempty.1

/-- **The first lines are the text** only if there are no others. -/
theorem join_take_eq_iff {text : String} {n : Nat} :
    String.join ((linesWithEnds text).take n) = text ↔ (linesWithEnds text).length ≤ n := by
  rw [← List.drop_eq_nil_iff, ← join_eq_empty_iff fun _ => List.mem_of_mem_drop]
  nth_rewrite 2 [← join_take_append_join_drop text n]
  rw [← String.toList_inj, String.toList_append, List.self_eq_append_right,
    String.toList_eq_nil_iff]

/-- **A text that is cut after a line feed** has the lines of both parts. -/
theorem linesFrom_append {text : List Char} (htext : text.getLast? = some '\n')
    (line rest : List Char) :
    linesFrom line (text ++ rest) = linesFrom line text ++ linesFrom [] rest := by
  -- What is left of the text after a line is empty or ends with the line feed again.
  have hlast {c : Char} {more : List Char} (h : (c :: more).getLast? = some '\n')
      (hne : more ≠ []) : more.getLast? = some '\n' := by
    rwa [List.getLast?_cons_of_ne_nil hne] at h
  fun_induction linesFrom line text with
  | case1 | case2 => cases htext
  | case3 line more ih =>
    rw [List.cons_append, List.cons_append, linesFrom.eq_2]
    by_cases hmore : more = []
    · rw [hmore]
      rfl
    · rw [ih (hlast (hlast htext (by simp)) hmore), List.cons_append]
  | case4 line c more hpair hc ih =>
    rw [List.cons_append]
    by_cases hmore : more = []
    · subst hmore
      cases htext
      exact linesFrom_newline line rest
    · rw [linesFrom_of_isLineEnd hc, ih (hlast htext hmore), List.cons_append]
      rintro rfl hhead
      rw [List.head?_append_of_ne_nil _ hmore] at hhead
      obtain ⟨tail, rfl⟩ := List.head?_eq_some_iff.1 hhead
      exact hpair tail rfl rfl
  | case5 line c more _ hc ih =>
    have hmore : more ≠ [] := by
      rintro rfl
      cases htext
      exact hc rfl
    rw [List.cons_append, linesFrom_of_not_isLineEnd (eq_false_of_ne_true hc),
      ih (hlast htext hmore)]

/-! ## Lines that are ended by line feeds -/

/-- No line of a text holds a character that ends lines. -/
theorem not_isLineEnd_of_mem_lines {text line : String} (h : line ∈ lines text) :
    ∀ c ∈ line.toList, isLineEnd c = false := by
  obtain ⟨l, hl, rfl⟩ := List.mem_map.1 h
  rw [String.toList_ofList]
  exact (isLine_of_mem_linesFrom (by simp) l hl).body

theorem linesFrom_flatMap {bodies : List (List Char)}
    (hbodies : ∀ body ∈ bodies, ∀ c ∈ body, isLineEnd c = false) :
    linesFrom [] (bodies.flatMap (· ++ ['\n'])) = bodies.map (·, ['\n']) := by
  induction bodies with
  | nil => rfl
  | cons body bodies ih =>
    rw [List.flatMap_cons, List.append_assoc, linesFrom_body (hbodies body List.mem_cons_self),
      List.singleton_append, linesFrom_newline, ih fun b hb => hbodies b (List.mem_cons_of_mem _ hb)]
    simp

/-- **Lines that are ended by line feeds** are the lines of what they make up. -/
theorem lines_join {texts : List String}
    (htexts : ∀ text ∈ texts, ∀ c ∈ text.toList, isLineEnd c = false) :
    lines (String.join (texts.map (· ++ "\n"))) = texts := by
  have htoList : (String.join (texts.map (· ++ "\n"))).toList =
      (texts.map String.toList).flatMap (· ++ ['\n']) := by
    simp [String.toList_join, List.flatMap_map]
  rw [lines, htoList, linesFrom_flatMap, List.map_map, List.map_map]
  · simp [Function.comp_def]
  · intro body hbody
    obtain ⟨text, htext, rfl⟩ := List.mem_map.1 hbody
    exact htexts text htext

end VirtualShell.Text
