import Mathlib
import VirtualShell.Proofs.FileSystem.Path

/-!
# The normal form of a path

What a text means at the place of another one is written in one way only. The place is that of the
two texts written behind each other, and it does not change when it is resolved again, wherever that
is done. A text that goes on behind a slash is resolved where the text before it leads, and of the
text that is resolved against, nothing counts but the place it means by itself.

* `Path.joined` — two texts written behind each other.
* `Path.ofString_joined` — together they mean what the second one means at the place of the first.
* `Path.resolve_append` — a text in two parts is resolved part by part.
* **`Path.resolved_isNormalForm`** — how the place is written.
-/

namespace VirtualShell.Path

/-! ## Texts behind each other -/

/-- **Two texts behind each other**, with one slash between them. Without a second text the first is
left alone, and before a slash it does not count. -/
def joined (base text : String) : String :=
  if text = "" then base
  else if text.startsWith "/" then text
  else String.ofList (base.toList.rdropWhile (· == '/')) ++ "/" ++ text

/-- **The place that a text means** at the place of another one, as it is written. -/
def resolved (base text : String) : String := ((ofString base).resolve text).render

theorem ofString_eq (text : String) : ofString text = ⟨(Text.cutAt '/' text).foldl step []⟩ := by
  simp [ofString, resolve, root]

theorem resolve_of_slash {text : String} (h : text.startsWith "/" = true) (base : Path) :
    base.resolve text = ofString text := by
  rw [resolve, if_pos h, ofString_eq]

theorem resolve_of_not_slash {text : String} (h : text.startsWith "/" = false) (base : Path) :
    base.resolve text = ⟨(Text.cutAt '/' text).foldl step base.parts⟩ := by
  rw [resolve, if_neg (by simp [h])]

/-- No text leads nowhere else. -/
theorem resolve_empty (base : Path) : base.resolve "" = base := by
  rw [resolve_of_no_slash (by simp), step_empty]

/-- Slashes at the end lead nowhere else. -/
theorem foldl_step_rdropWhile (chars : List Char) (parts : List String) :
    ((Text.cut '/' (chars.rdropWhile (· == '/'))).map String.ofList).foldl step parts =
      ((Text.cut '/' chars).map String.ofList).foldl step parts := by
  induction chars using List.reverseRecOn with
  | nil => simp
  | append_singleton chars c ih =>
    by_cases hc : c = '/'
    · subst hc
      rw [List.rdropWhile_concat_pos _ _ _ (by simp), ih, Text.cut_append_separator, List.map_append,
        List.foldl_append]
      exact (step_empty _).symm
    · rw [List.rdropWhile_concat_neg _ _ _ (by simp [hc])]

/-- **Texts behind each other** mean what the second one means at the place of the first. -/
theorem ofString_joined (base text : String) :
    ofString (joined base text) = (ofString base).resolve text := by
  unfold joined
  split
  · next hempty => rw [hempty, resolve_empty]
  · split
    · next hslash => rw [resolve_of_slash hslash]
    · next hslash =>
      have hbase := foldl_step_rdropWhile base.toList []
      rw [resolve_of_not_slash (by simpa using hslash), ofString_eq, Text.cutAt_append_slash,
        List.foldl_append, ofString_eq, Text.cutAt, String.toList_ofList, hbase]
      rfl

/-! ## Texts in two parts -/

/-- A text goes on as it began. -/
theorem startsWith_append {text : String} (h : text ≠ "") (more : String) :
    (text ++ more).startsWith "/" = text.startsWith "/" := by
  obtain ⟨c, chars, hchars⟩ := List.exists_cons_of_ne_nil (mt String.toList_eq_nil_iff.1 h)
  rw [Bool.eq_iff_iff, String.startsWith_string_iff, String.startsWith_string_iff,
    String.toList_append, hchars]
  simp

/-- **A text in two parts** is resolved part by part. -/
theorem resolve_append {text more : String} (htext : text ≠ "") (hmore : more.startsWith "/" = false)
    (base : Path) : base.resolve (text ++ "/" ++ more) = (base.resolve text).resolve more := by
  have hstart : (text ++ "/" ++ more).startsWith "/" = text.startsWith "/" := by
    rw [String.append_assoc, startsWith_append htext]
  rw [resolve_of_not_slash hmore, resolve, hstart, Text.cutAt_append_slash, List.foldl_append]
  rfl

/-! ## The normal form -/

theorem ofString_resolved (base text : String) :
    ofString (resolved base text) = (ofString base).resolve text :=
  ofString_render (isNormal_resolve (isNormal_ofString base) text)

theorem startsWith_render (p : Path) : p.render.startsWith "/" = true := by
  rw [String.startsWith_string_iff, render, String.toList_append]
  exact List.prefix_append _ _

/-- **The normal form of a path.** What a text means at the place of another one is what the two mean
behind each other. It is written as a slash and proper names with slashes between them, which are
neither empty nor a dot nor two dots, and at any place it means itself. A text that goes on behind a
slash is resolved where the text before it leads, and of the text resolved against, only the place
counts that it means at the root. -/
theorem resolved_isNormalForm (base text : String) :
    resolved base text = (ofString (joined base text)).render ∧
      (∃ names : List String, (∀ name ∈ names, IsName name) ∧
        resolved base text = "/" ++ "/".intercalate names) ∧
      (∀ other, resolved other (resolved base text) = resolved base text) ∧
      (∀ more, text ≠ "" → more.startsWith "/" = false →
        resolved base (text ++ "/" ++ more) = resolved (resolved base text) more) ∧
      resolved base text = resolved (resolved "/" base) text := by
  refine ⟨by rw [ofString_joined, resolved], ?_, fun other => ?_, fun more htext hmore => ?_, ?_⟩
  · exact ⟨((ofString base).resolve text).parts, isNormal_resolve (isNormal_ofString base) text, rfl⟩
  · have hslash : (resolved base text).startsWith "/" = true := startsWith_render _
    rw [resolved, resolve_of_slash hslash, ofString_resolved, resolved]
  · rw [resolved, resolve_append htext hmore, resolved, ofString_resolved]
  · have hroot : ofString (resolved "/" base) = ofString base := by
      rw [ofString_resolved, ofString_slash, ofString]
    rw [resolved, resolved, hroot]

/-- Going on from a text with a dot and a slash at its end, above a base that is not normal. -/
theorem resolved_isNormalForm_up : "../x/./" ≠ "" ∧ "../../../y".startsWith "/" = false ∧
    resolved "a//b/" ("../x/./" ++ "/" ++ "../../../y") =
      resolved (resolved "a//b/" "../x/./") "../../../y" ∧
    resolved (resolved "a//b/" "../x/./") "../../../y" = "/y" := by
  have hslash : "../../../y".startsWith "/" = false := by cbv
  have htext : "../x/./" ≠ "" := by decide
  refine ⟨htext, hslash, ?_, by cbv⟩
  exact (resolved_isNormalForm "a//b/" "../x/./").2.2.2.1 "../../../y" htext hslash

end VirtualShell.Path
