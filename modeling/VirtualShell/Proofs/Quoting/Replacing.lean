import VirtualShell.Proofs.Glob.Literal
import VirtualShell.Proofs.Quoting.Command

/-!
# Replacing quoted texts

A quoted word stands for itself in a pattern, so to replace it in a value is to replace a text by
another one: from left to right, where the text begins first, and going on behind it if all
occurrences are replaced.

This holds for all texts but those that start with a number sign or a percent sign. The pattern is a
text when it is looked at for such a sign, and nothing in it tells that the sign was quoted. So the
sign ties the rest of the quoted text to the start or to the end of the value.

* `Text.Replaced` — occurrences of a text are replaced.
* `Text.Replaced.unique` — in one way only.
* `replaced_replaceIn` — replacing the matches of single characters in a row.
* **`Word.Spells.replace_iff`** — what it means to replace a quoted text.
-/

namespace VirtualShell

/-! ## Occurrences -/

/-- **The first occurrence** of a text in a value: no other one begins further left. -/
def Text.IsFirst (old before after : List Char) : Prop :=
  ∀ earlier, earlier ++ old <+: before ++ old ++ after → before.length ≤ earlier.length

/-- **Occurrences of a text are replaced** in a value: the first one, or all that follow one another
from there and do not overlap. Without an occurrence the value stays what it is. -/
inductive Text.Replaced (all : Bool) (old new : List Char) : List Char → List Char → Prop
  | absent {value} (h : ¬ old <:+: value) : Replaced all old new value value
  | first {before after left} (h : IsFirst old before after) (hone : all = false → left = after)
      (hall : all = true → Replaced all old new after left) :
      Replaced all old new (before ++ old ++ after) (before ++ new ++ left)

namespace Text

variable {all : Bool} {old new before after value result : List Char} {c : Char}

theorem isFirst_nil : IsFirst old [] after := fun _ _ => Nat.zero_le _

theorem IsFirst.cons (h : IsFirst old before after)
    (hc : ¬ old <+: c :: (before ++ old ++ after)) : IsFirst old (c :: before) after := by
  intro earlier hearlier
  cases earlier with
  | nil => exact absurd hearlier hc
  | cons c' earlier => exact Nat.succ_le_succ (h earlier (List.cons_prefix_cons.1 hearlier).2)

/-- A text has one first occurrence at most. -/
theorem IsFirst.eq_of_append_eq {before' after' : List Char} (h : IsFirst old before after)
    (h' : IsFirst old before' after') (heq : before ++ old ++ after = before' ++ old ++ after') :
    before = before' ∧ after = after' := by
  have hle := h before' (heq ▸ List.prefix_append _ _)
  have hge := h' before (heq ▸ List.prefix_append _ _)
  rw [List.append_assoc, List.append_assoc] at heq
  obtain ⟨rfl, hrest⟩ := List.append_inj heq (Nat.le_antisymm hle hge)
  exact ⟨rfl, List.append_cancel_left hrest⟩

theorem replaced_iff : Replaced all old new value result ↔
    (¬ old <:+: value ∧ result = value) ∨
      ∃ before after left, value = before ++ old ++ after ∧ result = before ++ new ++ left ∧
        IsFirst old before after ∧ (all = false → left = after) ∧
        (all = true → Replaced all old new after left) := by
  constructor
  · intro h
    cases h with
    | absent h => exact .inl ⟨h, rfl⟩
    | first h hone hall => exact .inr ⟨_, _, _, rfl, rfl, h, hone, hall⟩
  · rintro (⟨h, rfl⟩ | ⟨before, after, left, rfl, rfl, h, hone, hall⟩)
    · exact .absent h
    · exact .first h hone hall

/-- **What replacing gives is determined.** -/
theorem Replaced.unique {other : List Char} (h : Replaced all old new value result)
    (hother : Replaced all old new value other) : result = other := by
  have hoccurs (before after : List Char) : old <:+: before ++ old ++ after := ⟨_, _, rfl⟩
  induction h generalizing other with
  | absent habsent =>
    rcases replaced_iff.1 hother with ⟨-, heq⟩ | ⟨_, _, _, heq, -⟩
    · exact heq.symm
    · exact absurd (heq ▸ hoccurs _ _) habsent
  | first hfirst hone hall ih =>
    rcases replaced_iff.1 hother with ⟨habsent, -⟩ | ⟨_, _, _, heq, rfl, hfirst', hone', hall'⟩
    · exact absurd (hoccurs _ _) habsent
    · obtain ⟨rfl, rfl⟩ := hfirst.eq_of_append_eq hfirst' heq
      cases all with
      | false => rw [hone rfl, hone' rfl]
      | true => rw [ih rfl (hall' rfl)]

/-- An occurrence at the start is the first one. -/
theorem Replaced.head {left : List Char} (hone : all = false → left = after)
    (hall : all = true → Replaced all old new after left) :
    Replaced all old new (old ++ after) (new ++ left) := by
  have h := Replaced.first isFirst_nil hone hall
  rwa [List.nil_append, List.nil_append] at h

/-- A character before which no occurrence begins stays where it is. -/
theorem Replaced.cons (h : Replaced all old new value result) (hc : ¬ old <+: c :: value) :
    Replaced all old new (c :: value) (c :: result) := by
  cases h with
  | absent habsent =>
    exact .absent fun hinfix => (List.infix_cons_iff.1 hinfix).elim hc habsent
  | first hfirst hone hall => exact .first (hfirst.cons hc) hone hall

end Text

namespace Glob

variable {chars value : List Char}

/-! ## Single characters in a row -/

theorem rests_cons_char (c : Char) (pattern : List Atom) (value : List Char) :
    rests (.char c :: pattern) (c :: value) = rests pattern value := by
  simp [rests, Atom.step, Atom.rest?, Atom.holds]

theorem rests_chars_append (chars rest : List Char) :
    rests (chars.map .char) (chars ++ rest) = [rest] := by
  induction chars with
  | nil => rfl
  | cons c chars ih => rw [List.map_cons, List.cons_append, rests_cons_char, ih]

theorem foldl_step_nil (pattern : List Atom) :
    pattern.foldl (fun rests a => a.step rests) [] = [] := by
  induction pattern with
  | nil => rfl
  | cons a pattern ih => cases a <;> exact ih

/-- Characters in a row leave nothing of a text that does not start with them. -/
theorem rests_chars_eq_nil (h : ¬ chars <+: value) : rests (chars.map .char) value = [] := by
  induction chars generalizing value with
  | nil => exact absurd List.nil_prefix h
  | cons c chars ih =>
    have hmiss {texts : List (List Char)} (htexts : texts = []) :
        (chars.map Atom.char).foldl (fun rests a => a.step rests) texts = [] :=
      htexts ▸ foldl_step_nil _
    cases value with
    | nil => exact hmiss rfl
    | cons c' value =>
      by_cases hc : c' = c
      · subst hc
        rw [List.map_cons, rests_cons_char]
        exact ih fun hprefix => h (List.cons_prefix_cons.2 ⟨rfl, hprefix⟩)
      · exact hmiss (by simp [Atom.step, Atom.rest?, Atom.holds, hc])

theorem afterMatch?_chars {rest : List Char} (hchars : chars ≠ []) :
    afterMatch? (chars.map .char) value = some rest ↔ value = chars ++ rest := by
  by_cases h : chars <+: value
  · obtain ⟨rest', rfl⟩ := h
    rw [List.append_cancel_left_eq, afterMatch?, rests_chars_append]
    simp [hchars]
  · have hne : value ≠ chars ++ rest := fun heq => h ⟨rest, heq.symm⟩
    rw [afterMatch?, rests_chars_eq_nil h]
    simp [hne]

/-- **Replacing the matches** of some characters in a row. -/
theorem replaced_replaceIn (hchars : chars ≠ []) (new : List Char) (all : Bool)
    (value : List Char) :
    Text.Replaced all chars new value (replaceIn (chars.map .char) new all value) := by
  have hmiss {value : List Char} (h : afterMatch? (chars.map .char) value = none) :
      ¬ chars <+: value := by
    rintro ⟨rest, rfl⟩
    rw [(afterMatch?_chars hchars).2 rfl] at h
    cases h
  fun_induction replaceIn (chars.map Atom.char) new all value with
  | case1 value rest h ih =>
    obtain rfl := (afterMatch?_chars hchars).1 h
    refine .head (fun hone => ?_) fun hall => ?_
    · rw [hone]
      rfl
    · rw [if_pos hall]
      exact ih
  | case2 h => exact .absent fun hinfix => hchars (List.infix_nil.1 hinfix)
  | case3 c value h ih => exact ih.cons (hmiss h)

/-! ## At the start and at the end -/

/-- Characters in a row are taken away at the start of a text if they stand there. -/
theorem afterPrefix?_chars (longest : Bool) (chars rest : List Char) :
    afterPrefix? longest (chars.map .char) (chars ++ rest) = some rest := by
  rw [afterPrefix?, rests_chars_append]
  cases longest <;> rfl

theorem afterPrefix?_chars_eq_none (longest : Bool) (h : ¬ chars <+: value) :
    afterPrefix? longest (chars.map .char) value = none := by
  rw [afterPrefix?, rests_chars_eq_nil h]
  cases longest <;> rfl

/-- So they are at the end. -/
theorem beforeSuffix?_chars (longest : Bool) (chars rest : List Char) :
    beforeSuffix? longest (chars.map .char) (rest ++ chars) = some rest := by
  rw [beforeSuffix?, ← List.map_reverse, List.reverse_append, rests_chars_append]
  cases longest <;> simp [choose]

theorem beforeSuffix?_chars_eq_none (longest : Bool) (h : ¬ chars <:+ value) :
    beforeSuffix? longest (chars.map .char) value = none := by
  rw [beforeSuffix?, ← List.map_reverse, rests_chars_eq_nil (mt List.reverse_prefix.1 h)]
  cases longest <;> rfl

/-! ## Texts as patterns -/

variable {text rest : String}

/-- The signs that tie a pattern to the start or to the end of a value. -/
def ties : List Char := ['#', '%']

/-- Only a text that starts with a character starts with it as a pattern, if it is no backslash. -/
theorem head?_of_escape {c : Char} {pattern : List Char} (hc : c ≠ '\\')
    (h : (escape text).toList = c :: pattern) : text.toList.head? = some c := by
  rw [escape, String.toList_ofList] at h
  cases htext : text.toList with
  | nil =>
    rw [htext] at h
    cases h
  | cons c' more =>
    rw [htext, List.flatMap_cons, escapeChar] at h
    split at h
    · exact absurd (List.cons.inj h).1.symm hc
    · exact congrArg some (List.cons.inj h).1

/-- **A text is replaced** as it stands, if it does not start with a sign that ties it to one end. -/
theorem replaced_replace (hne : text ≠ "") (hfree : ∀ c ∈ text.toList.head?, c ∉ ties) (all : Bool)
    (inserted value : String) : ∃ result, replace all (escape text) inserted value = .ok result ∧
      Text.Replaced all text.toList inserted.toList value.toList result.toList := by
  have hchars : text.toList ≠ [] := mt String.toList_eq_nil_iff.1 hne
  refine ⟨String.ofList (replaceIn (text.toList.map .char) inserted.toList all value.toList), ?_, ?_⟩
  · rw [replace]
    split
    · next hempty =>
      rw [escape, String.toList_ofList, List.flatMap_eq_nil_iff] at hempty
      obtain ⟨c, hc⟩ := List.exists_mem_of_ne_nil _ hchars
      have hnil := hempty c hc
      unfold escapeChar at hnil
      split at hnil <;> cases hnil
    · next hsign => exact absurd (by decide) (hfree '#' (head?_of_escape (by decide) hsign))
    · next hsign => exact absurd (by decide) (hfree '%' (head?_of_escape (by decide) hsign))
    · rw [compile_escape]
      rfl
  · rw [String.toList_ofList]
    exact replaced_replaceIn hchars _ _ _

/-- **A number sign** ties the text behind it to the start of the value. -/
theorem replace_number (all : Bool) (rest inserted value : String) :
    replace all (escape ("#" ++ rest)) inserted (rest ++ value) = .ok (inserted ++ value) ∧
      (¬ rest.toList <+: value.toList →
        replace all (escape ("#" ++ rest)) inserted value = .ok value) := by
  have hpattern : (escape ("#" ++ rest)).toList = '#' :: (escape rest).toList := by
    simp [escape, escapeChar, specials]
  have hreplace (value : String) : replace all (escape ("#" ++ rest)) inserted value =
      .ok (orWhole value
        ((afterPrefix? true (rest.toList.map .char) value.toList).map (inserted.toList ++ ·))) := by
    rw [replace, hpattern]
    simp only [String.ofList_toList, compile_escape]
    rfl
  constructor
  · rw [hreplace, String.toList_append, afterPrefix?_chars]
    simp [orWhole]
  · intro hmiss
    rw [hreplace, afterPrefix?_chars_eq_none true hmiss]
    rfl

/-- **A percent sign** ties it to the end. -/
theorem replace_percent (all : Bool) (rest inserted value : String) :
    replace all (escape ("%" ++ rest)) inserted (value ++ rest) = .ok (value ++ inserted) ∧
      (¬ rest.toList <:+ value.toList →
        replace all (escape ("%" ++ rest)) inserted value = .ok value) := by
  have hpattern : (escape ("%" ++ rest)).toList = '%' :: (escape rest).toList := by
    simp [escape, escapeChar, specials]
  have hreplace (value : String) : replace all (escape ("%" ++ rest)) inserted value =
      .ok (orWhole value
        ((beforeSuffix? true (rest.toList.map .char) value.toList).map (· ++ inserted.toList))) := by
    rw [replace, hpattern]
    simp only [String.ofList_toList, compile_escape]
    rfl
  constructor
  · rw [hreplace, String.toList_append, beforeSuffix?_chars]
    simp [orWhole]
  · intro hmiss
    rw [hreplace, beforeSuffix?_chars_eq_none true hmiss]
    rfl

/-- **A pattern is replaced as a text is**: what replacing it gives is the value in which the
occurrences of the text are replaced. -/
def ReplacesText (pattern text : String) : Prop :=
  ∀ (all : Bool) (inserted value result : String),
    replace all pattern inserted value = .ok result ↔
      Text.Replaced all text.toList inserted.toList value.toList result.toList

/-- A text that starts with one of the signs. -/
theorem exists_tied {c : Char} (hc : c ∈ text.toList.head?) (hties : c ∈ ties) :
    ∃ rest, text = "#" ++ rest ∨ text = "%" ++ rest := by
  obtain ⟨rest, htext⟩ := List.head?_eq_some_iff.1 hc
  refine ⟨String.ofList rest, ?_⟩
  simp only [← String.toList_inj, String.toList_append, String.toList_ofList, htext]
  simp only [ties, List.mem_cons, List.not_mem_nil, or_false] at hties
  rcases hties with rfl | rfl
  · exact .inl rfl
  · exact .inr rfl

/-- Replacing a text always gives something. -/
theorem exists_replace (hne : text ≠ "") (all : Bool) (inserted value : String) :
    ∃ result, replace all (escape text) inserted value = .ok result := by
  by_cases hfree : ∀ c ∈ text.toList.head?, c ∉ ties
  · obtain ⟨result, hresult, -⟩ := replaced_replace hne hfree all inserted value
    exact ⟨result, hresult⟩
  · simp only [not_forall, not_not] at hfree
    obtain ⟨c, hc, hties⟩ := hfree
    obtain ⟨rest, rfl | rfl⟩ := exists_tied hc hties
    · by_cases hstart : rest.toList <+: value.toList
      · obtain ⟨more, hmore⟩ := hstart
        obtain rfl : rest ++ String.ofList more = value := by simp [← String.toList_inj, hmore]
        exact ⟨_, (replace_number all rest inserted _).1⟩
      · exact ⟨_, (replace_number all rest inserted value).2 hstart⟩
    · by_cases hend : rest.toList <:+ value.toList
      · obtain ⟨more, hmore⟩ := hend
        obtain rfl : String.ofList more ++ rest = value := by simp [← String.toList_inj, hmore]
        exact ⟨_, (replace_percent all rest inserted _).1⟩
      · exact ⟨_, (replace_percent all rest inserted value).2 hend⟩

/-- **Only a sign at its start** keeps a text from being replaced as it stands. With such a sign its
rest is a value in which it does not occur and is replaced nevertheless. -/
theorem replacesText_escape_iff (hne : text ≠ "") :
    ReplacesText (escape text) text ↔ ∀ c ∈ text.toList.head?, c ∉ ties := by
  constructor
  · intro h c hc hties
    obtain ⟨rest, htext⟩ := exists_tied hc hties
    have hlength : rest.toList.length < text.toList.length := by
      rcases htext with rfl | rfl <;> simp
    have habsent : ¬ text.toList <:+: rest.toList := fun hinfix =>
      absurd hinfix.length_le (Nat.not_le.2 hlength)
    -- the text itself is inserted, so that the result cannot be mistaken for the shorter rest
    have hkept : replace true (escape text) text rest = .ok rest :=
      (h true text rest rest).2 (.absent habsent)
    have hreplaced : replace true (escape text) text rest = .ok text := by
      rcases htext with htext | htext
      · have hstart := (replace_number true rest text "").1
        rwa [String.append_empty, String.append_empty, ← htext] at hstart
      · have hend := (replace_percent true rest text "").1
        rwa [String.empty_append, String.empty_append, ← htext] at hend
    obtain rfl : rest = text := Except.ok.inj (hkept.symm.trans hreplaced)
    exact Nat.lt_irrefl _ hlength
  · intro hfree all inserted value result
    obtain ⟨found, hfound, hreplaced⟩ := replaced_replace hne hfree all inserted value
    constructor
    · intro hresult
      obtain rfl : found = result := Except.ok.inj (hfound.symm.trans hresult)
      exact hreplaced
    · intro hresult
      rw [hfound, String.toList_inj.1 (hreplaced.unique hresult)]

end Glob

/-! ## Quoted words -/

/-- **A quoted word stands for its text in a pattern**, in every shell. -/
theorem Word.Spells.pattern {word : Word} {text : String} (h : word.Spells text) (x : Expander) :
    word.pattern x = pure (Glob.escape text) := by
  obtain ⟨parts, raw⟩ := word
  obtain ⟨texts, hverbatim, -, htexts⟩ := h
  have hexpand : Word.expand x ⟨parts, raw⟩ false = pure (texts.map (Segment.literal true)) :=
    hverbatim.expand x
  have hpattern : Segment.patternOf (texts.map (Segment.literal true)) = Glob.escape text := by
    rw [← String.toList_inj, Segment.patternOf, Glob.escape, String.toList_ofList, ← htexts]
    simp [String.toList_join, Segment.pattern, Segment.literal, Glob.escape, List.flatMap_map,
      List.flatMap_assoc]
  rw [Word.pattern, hexpand, pure_bind, hpattern]

/-- **Replacing a quoted text.** The quoted word stands for the text in the pattern, in every shell,
and the operation gives what the pattern is replaced by. That is the value with its first occurrence
of the text replaced, or with all of them that do not overlap, and the value itself without one, if
and only if the text does not start with a number sign or a percent sign. After such a sign the
rest of the text is replaced at the start or at the end of the value, and nothing else is. -/
theorem Word.Spells.replace_iff {word : Word} {text : String} (h : word.Spells text)
    (hne : text ≠ "") :
    (∀ x, word.pattern x = pure (Glob.escape text)) ∧
      (∀ (x : Expander) (other : Word) (all : Bool) (name : String) (value : Option String)
          (quoted : Bool) (inserted : String) (shell after : Shell),
        other.text x shell = (.ok inserted, after) → ∃ result,
          Glob.replace all (Glob.escape text) inserted (value.getD "") = .ok result ∧
            ParamOp.expand x (.replace word other all) name value quoted shell =
              (.ok [.value quoted result], after)) ∧
      (Glob.ReplacesText (Glob.escape text) text ↔ ∀ c ∈ text.toList.head?, c ∉ Glob.ties) ∧
      ∀ (all : Bool) (rest inserted value : String),
        (text = "#" ++ rest →
          Glob.replace all (Glob.escape text) inserted (rest ++ value) = .ok (inserted ++ value) ∧
            (¬ rest.toList <+: value.toList →
              Glob.replace all (Glob.escape text) inserted value = .ok value)) ∧
        (text = "%" ++ rest →
          Glob.replace all (Glob.escape text) inserted (value ++ rest) = .ok (value ++ inserted) ∧
            (¬ rest.toList <:+ value.toList →
              Glob.replace all (Glob.escape text) inserted value = .ok value)) := by
  refine ⟨h.pattern, ?_, Glob.replacesText_escape_iff hne, fun all rest inserted value =>
    ⟨?_, ?_⟩⟩
  · intro x other all name value quoted inserted shell after hother
    obtain ⟨result, hresult⟩ := Glob.exists_replace hne all inserted (value.getD "")
    have hexpand : ParamOp.expand x (.replace word other all) name value quoted =
        (do
          let pattern ← word.pattern x
          let inserted ← other.text x
          let result ← Run.orFault .pattern (Glob.replace all pattern inserted (value.getD ""))
          return [.value quoted result]) := by
      simp only [ParamOp.expand, Word.pattern, Word.text, bind_assoc, pure_bind]
    refine ⟨result, hresult, ?_⟩
    rw [hexpand, h.pattern, pure_bind, Run.bind_apply, hother]
    simp only [hresult, Run.orFault, pure_bind]
    rfl
  · rintro rfl
    exact Glob.replace_number all rest inserted value
  · rintro rfl
    exact Glob.replace_percent all rest inserted value

/-- A star between quotes is replaced as any other character is. -/
theorem Word.Spells.replace_iff_star :
    let word : Word := ⟨[.quoted "*"], "'*'"⟩
    word.Spells "*" ∧ "*" ≠ "" ∧ (∀ x, word.pattern x = pure "\\*") ∧
      Glob.ReplacesText (Glob.escape "*") "*" ∧
      Glob.replace true (Glob.escape "*") "x" "a**b" = .ok "axxb" := by
  intro word
  have hspells : word.Spells "*" := ⟨["*"], Part.Verbatim.quotedText "*", by simp, by simp⟩
  have hne : "*" ≠ "" := by decide
  obtain ⟨hpattern, -, hiff, -⟩ := hspells.replace_iff hne
  have hreplaces := hiff.2 (by simp [Glob.ties])
  have hrest : Text.Replaced true ['*'] ['x'] (['*'] ++ ['b']) (['x'] ++ ['b']) :=
    .head (by simp) fun _ => .absent (by decide)
  have hboth : Text.Replaced true ['*'] ['x'] (['*'] ++ ['*', 'b']) (['x'] ++ ['x', 'b']) :=
    .head (by simp) fun _ => hrest
  exact ⟨hspells, hne, hpattern, hreplaces,
    (hreplaces true "x" "a**b" "axxb").2 (hboth.cons (by decide))⟩

/-- **A quoted number sign** is not replaced where it stands, and something is put in front of a value
without one. -/
theorem Word.Spells.replace_loses_number :
    let word : Word := ⟨[.doubleQuoted [.literal "#"]], "\"#\""⟩
    word.Spells "#" ∧ "#" ≠ "" ∧ (∀ x, word.pattern x = pure "#") ∧
      Text.Replaced true "#".toList "X".toList "a#b".toList "aXb".toList ∧
      Glob.replace true "#" "X" "a#b" = .ok "Xa#b" ∧
      Text.Replaced true "#".toList "X".toList "ab".toList "ab".toList ∧
      Glob.replace true "#" "X" "ab" = .ok "Xab" ∧
      ¬ Glob.ReplacesText "#" "#" := by
  intro word
  have hspells : word.Spells "#" :=
    ⟨["", "#"], (Part.Verbatim.literal "#").doubleQuoted, by simp, by simp⟩
  have hsame : Glob.escape "#" = "#" := by cbv
  have hpattern (x : Expander) : word.pattern x = pure "#" := by rw [hspells.pattern, hsame]
  have hrest : Text.Replaced true ['#'] ['X'] (['#'] ++ ['b']) (['X'] ++ ['b']) :=
    .head (by simp) fun _ => .absent (by decide)
  have hvalue : Text.Replaced true "#".toList "X".toList "a#b".toList "aXb".toList :=
    hrest.cons (by decide)
  have hfound : Glob.replace true "#" "X" "a#b" = .ok "Xa#b" := by
    rw [← hsame]
    exact (Glob.replace_number true "" "X" "a#b").1
  have hinserted : Glob.replace true "#" "X" "ab" = .ok "Xab" := by
    rw [← hsame]
    exact (Glob.replace_number true "" "X" "ab").1
  refine ⟨hspells, by decide, hpattern, hvalue, hfound, .absent (by decide), hinserted, fun h => ?_⟩
  have hother := (h true "X" "a#b" "Xa#b").1 hfound
  exact absurd (hother.unique hvalue) (by decide)

end VirtualShell
