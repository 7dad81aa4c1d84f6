import VirtualShell.Glob.Text
import VirtualShell.Proofs.Glob.Match
import VirtualShell.Proofs.Glob.Spelling

/-!
# Texts as patterns

With a backslash before each character that means something a text is a pattern of single
characters. So it matches itself and nothing else, nothing in it looks like a wildcard, and without
the backslashes it is the text again. This does not depend on what stands behind it: a pattern after
it is read as it would be alone, and matches what is left of a value that starts with the text.

* `pieces_escape_append` — how a text and the pattern after it are read.
* `compile_escape_append` — what they are read as.
* `isMatchOf_escape`, `hasWildcard_escape`, `unescape_escape` — a text alone.
* **`escape_isLiteral`** — a text stands for itself, alone and in front of any pattern.
-/

namespace VirtualShell.Glob

/-! ## Reading -/

/-- A text with its backslashes is read character by character, up to what follows it. -/
theorem pieces_escape_append (text rest : List Char) :
    pieces (text.flatMap escapeChar ++ rest) = text.map .char ++ pieces rest := by
  induction text with
  | nil => rfl
  | cons c text ih =>
    rw [List.flatMap_cons, List.append_assoc, List.map_cons, List.cons_append, ← ih, escapeChar]
    split
    · change pieces ('\\' :: c :: _) = _
      rw [pieces]
      rfl
    · next hc =>
      simp only [specials, List.mem_cons, List.not_mem_nil, or_false, not_or] at hc
      rw [List.singleton_append, pieces, nextPiece_of_plain (by simp [hc]) (by simp [hc])]

theorem Piece.Alike.refl (piece : Piece) : piece.Alike piece := by
  cases piece with
  | set negated members => exact ⟨rfl, forall₂_alike_refl members⟩
  | star | any | char => rfl

/-- What pieces stand for does not depend on where they stand, and the characters before them are
added to it. -/
theorem atoms_chars_append (chars : List Char) (rest : List Piece) (offset : Nat) :
    (atoms offset (chars.map .char ++ rest)).toOption =
      (atoms 0 rest).toOption.map (chars.map .char ++ ·) := by
  induction chars generalizing offset with
  | nil =>
    have halike := List.forall₂_same.2 fun piece (_ : piece ∈ rest) => Piece.Alike.refl piece
    rw [List.map_nil, List.nil_append, toOption_atoms halike offset 0]
    exact Option.map_id'.symm
  | cons c chars ih =>
    change (do let more ← atoms _ (chars.map .char ++ rest); return Atom.char c :: more :
      Except BadRange (List Atom)).toOption = _
    rw [toOption_map, ih, Option.map_map]
    rfl

theorem compile_eq_ok_iff {pattern : String} {found : List Atom} :
    compile pattern = .ok found ↔ (atoms 0 (pieces pattern.toList)).toOption = some found := by
  rw [compile]
  cases atoms 0 (pieces pattern.toList) with
  | ok atoms => exact ⟨fun h => congrArg _ (Except.ok.inj h), fun h => congrArg _ (Option.some.inj h)⟩
  | error bad => exact ⟨nofun, nofun⟩

/-- **What a text and a pattern are read as**: its characters, and what the pattern is read as. -/
theorem compile_escape_append {text pattern : String} {found : List Atom} :
    compile (escape text ++ pattern) = .ok found ↔
      ∃ more, compile pattern = .ok more ∧ text.toList.map .char ++ more = found := by
  simp only [compile_eq_ok_iff, escape, String.toList_append, String.toList_ofList,
    pieces_escape_append, atoms_chars_append, Option.map_eq_some_iff]

/-! ## Matching -/

/-- Single characters take just themselves from the start of a text. -/
theorem matches_chars_append_iff {chars text : List Char} {pattern : List Atom} :
    Matches (chars.map .char ++ pattern) text ↔
      ∃ rest, text = chars ++ rest ∧ Matches pattern rest := by
  induction chars generalizing text with
  | nil => simp
  | cons c chars ih =>
    rw [List.map_cons, List.cons_append, matches_cons_iff]
    constructor
    · rintro ⟨part, left, rfl, ⟨c', rfl, hc⟩, hleft⟩
      obtain ⟨rest, rfl, hrest⟩ := ih.1 hleft
      exact ⟨rest, by rw [eq_of_beq hc]; rfl, hrest⟩
    · rintro ⟨rest, rfl, hrest⟩
      exact ⟨[c], chars ++ rest, rfl, ⟨c, rfl, beq_self_eq_true c⟩, ih.2 ⟨rest, rfl, hrest⟩⟩

theorem isMatchOf_eq_ok_iff {pattern value : String} {answer : Bool} :
    isMatchOf pattern value = .ok answer ↔
      ∃ found, compile pattern = .ok found ∧ (answer = true ↔ Matches found value.toList) := by
  rw [isMatchOf]
  cases compile pattern with
  | ok found =>
    have hanswer : answer = isMatch found value.toList ↔
        (answer = true ↔ Matches found value.toList) := by
      rw [← isMatch_iff, Bool.eq_iff_iff]
    constructor
    · intro h
      exact ⟨found, rfl, hanswer.1 (Except.ok.inj h).symm⟩
    · rintro ⟨_, ⟨⟩, h⟩
      exact congrArg _ (hanswer.2 h).symm
  | error e => exact ⟨nofun, nofun⟩

/-- A text alone is read as its characters. -/
theorem compile_escape (text : String) : compile (escape text) = .ok (text.toList.map .char) := by
  rw [← String.append_empty (s := escape text), compile_escape_append]
  exact ⟨[], by cbv, List.append_nil _⟩

/-- **A text as a pattern** matches itself and nothing else. -/
theorem isMatchOf_escape (text value : String) :
    isMatchOf (escape text) value = .ok (value == text) := by
  have hmatch : Matches (text.toList.map .char) value.toList ↔ value = text := by
    rw [← List.append_nil (text.toList.map Atom.char), matches_chars_append_iff]
    simp [matches_nil_iff, String.toList_inj]
  exact isMatchOf_eq_ok_iff.2 ⟨_, compile_escape text, beq_iff_eq.trans hmatch.symm⟩

/-! ## Wildcards and backslashes -/

theorem anyWildcard_escape (text rest : List Char) :
    anyWildcard (text.flatMap escapeChar ++ rest) = anyWildcard rest := by
  induction text with
  | nil => rfl
  | cons c text ih =>
    rw [List.flatMap_cons, List.append_assoc, escapeChar]
    split
    · exact ih
    · next hc =>
      simp only [specials, List.mem_cons, List.not_mem_nil, or_false, not_or] at hc
      rw [List.singleton_append, anyWildcard]
      · simp [hc, ih]
      · simp [hc]

theorem hasWildcard_escape (text : String) : hasWildcard (escape text) = false := by
  have h := anyWildcard_escape text.toList []
  rw [List.append_nil] at h
  rw [hasWildcard, escape, String.toList_ofList, h]
  rfl

theorem unprotect_escape (text : List Char) : unprotect (text.flatMap escapeChar) = text := by
  induction text with
  | nil => rfl
  | cons c text ih =>
    rw [List.flatMap_cons, escapeChar]
    split
    · exact congrArg (c :: ·) ih
    · next hc =>
      have hplain : c ≠ '\\' := fun heq => hc (heq ▸ by decide)
      rw [List.singleton_append, unprotect, ih]
      simp [hplain]

theorem unescape_escape (text : String) : unescape (escape text) = text := by
  rw [unescape, escape, String.toList_ofList, unprotect_escape, String.ofList_toList]

/-- **A text stands for itself** with its backslashes. It matches itself and nothing else. In front
of a pattern it makes neither a good pattern bad nor a bad one good, and the two together match what
starts with the text and goes on with something that the pattern matches. There are no wildcards in
it, and without the backslashes it is the text again. -/
theorem escape_isLiteral (text pattern value : String) :
    isMatchOf (escape text) value = .ok (value == text) ∧
      ((∃ answer, isMatchOf (escape text ++ pattern) value = .ok answer) ↔
        ∃ atoms, compile pattern = .ok atoms) ∧
      (isMatchOf (escape text ++ pattern) value = .ok true ↔
        ∃ rest, value = text ++ rest ∧ isMatchOf pattern rest = .ok true) ∧
      hasWildcard (escape text) = false ∧
      unescape (escape text) = text := by
  refine ⟨isMatchOf_escape text value, ?_, ?_, hasWildcard_escape text, unescape_escape text⟩
  · simp only [isMatchOf_eq_ok_iff, compile_escape_append]
    constructor
    · rintro ⟨-, -, ⟨atoms, hatoms, -⟩, -⟩
      exact ⟨atoms, hatoms⟩
    · rintro ⟨atoms, hatoms⟩
      exact ⟨decide (Matches _ value.toList), _, ⟨atoms, hatoms, rfl⟩, decide_eq_true_iff⟩
  · simp only [isMatchOf_eq_ok_iff, compile_escape_append, true_iff]
    constructor
    · rintro ⟨-, ⟨atoms, hatoms, rfl⟩, hmatch⟩
      obtain ⟨rest, hrest, hmatch⟩ := matches_chars_append_iff.1 hmatch
      refine ⟨String.ofList rest, String.toList_inj.1 ?_, atoms, hatoms, ?_⟩
      · rw [hrest, String.toList_append, String.toList_ofList]
      · rwa [String.toList_ofList]
    · rintro ⟨rest, rfl, atoms, hatoms, hmatch⟩
      refine ⟨_, ⟨atoms, hatoms, rfl⟩, matches_chars_append_iff.2 ⟨rest.toList, ?_, hmatch⟩⟩
      exact String.toList_append

end VirtualShell.Glob
