import VirtualShell.Proofs.Reading.OperandPiece

/-!
# The operand of a match

The operand of a match is put together from tokens. It keeps its text when its blanks stand in two
pairs of parentheses, whose text is one token, and its descriptors are written as numbers are. All
other blanks are lost, and `01<` becomes `1<`.

* `OperandPiece.IsKept` — the pieces that are written as they stood.
* `OperandPiece.respelling_eq_source_iff` — an operand keeps its text if its pieces do.
* **`Script.parse_operand`** — what the operand of a match is, and when it is the text it was.
-/

namespace VirtualShell

namespace OperandPiece

/-! ## The text that it was -/

/-- **A piece that is written as it stood**: no blank, and no descriptor that is not written as numbers
are. -/
def IsKept : OperandPiece → Prop
  | .blank _ => False
  | .operator digits _ => digits = [] ∨ ∃ n : Nat, digits = (toString n).toList
  | _ => True

theorem length_respelledDigits {digits written : List Char}
    (h : respelledDigits digits = .ok written) : written.length ≤ digits.length := by
  unfold respelledDigits at h
  split at h
  · cases h
    exact Nat.zero_le _
  · next hne =>
    rw [List.isEmpty_iff] at hne
    cases hread : Text.readDecimal (String.ofList digits) with
    | error cause => rw [hread] at h; cases h
    | ok n =>
      rw [hread] at h
      cases h
      have hlt := Text.readDecimal_lt hread
      rw [← String.length_toList, String.toList_ofList] at hlt
      rw [String.length_toList, Nat.toString_eq_repr]
      exact (Nat.length_repr_le_iff (List.length_pos_iff.2 hne)).2 hlt

/-- Digits are written again as they stood when they are those of a number. -/
theorem respelledDigits_eq_iff {digits written : List Char}
    (h : respelledDigits digits = .ok written) :
    written = digits ↔ digits = [] ∨ ∃ n : Nat, digits = (toString n).toList := by
  unfold respelledDigits at h
  split at h
  · next hempty =>
    cases h
    rw [List.isEmpty_iff] at hempty
    exact iff_of_true hempty.symm (.inl hempty)
  · next hne =>
    rw [List.isEmpty_iff] at hne
    rw [or_iff_right hne]
    cases hread : Text.readDecimal (String.ofList digits) with
    | error cause => rw [hread] at h; cases h
    | ok n =>
      rw [hread] at h
      cases h
      refine ⟨fun heq => ⟨n.toNat, heq.symm⟩, ?_⟩
      rintro ⟨m, rfl⟩
      rw [String.ofList_toList] at hread
      have hmany : (toString m).length ≤ Text.maxDecimalDigits := by
        by_contra hmany
        have hdecimal : ∀ c ∈ (toString m).toList, Text.isDecimal c = true :=
          fun c hc => Text.isDecimal_of_isDigit (Text.isDigit_of_mem_toString hc)
        have herror := Text.readDecimal_of_many_digits hdecimal
          (by rw [String.length_toList]; exact Nat.lt_of_not_le hmany)
        rw [String.ofList_toList, hread] at herror
        cases herror
      have hsame := hread.symm.trans (Text.readInteger_toString hmany)
      cases hsame
      rfl

theorem exists_respelledDigits {digits written : List Char} {kind : TokenKind}
    (h : respelled (.operator digits kind) = .ok written) :
    ∃ again, respelledDigits digits = .ok again ∧ again ++ kind.spelling.toList = written := by
  rw [respelled] at h
  cases hdigits : respelledDigits digits with
  | error cause => rw [hdigits] at h; cases h
  | ok again =>
    rw [hdigits] at h
    exact ⟨again, rfl, Except.ok.inj h⟩

theorem length_respelled {p : OperandPiece} {written : List Char} (h : p.respelled = .ok written) :
    written.length ≤ p.source.length := by
  cases p with
  | blank c =>
    cases h
    exact Nat.zero_le _
  | doubled inner | word text =>
    cases h
    exact Nat.le_refl _
  | operator digits kind =>
    obtain ⟨again, hagain, rfl⟩ := exists_respelledDigits h
    simpa [source] using length_respelledDigits hagain

theorem respelled_eq_source_iff {p : OperandPiece} {written : List Char}
    (h : p.respelled = .ok written) : written = p.source ↔ p.IsKept := by
  cases p with
  | blank c =>
    cases h
    exact iff_of_false nofun id
  | doubled inner | word text =>
    cases h
    exact iff_of_true rfl trivial
  | operator digits kind =>
    obtain ⟨again, hagain, rfl⟩ := exists_respelledDigits h
    exact (List.append_left_inj _).trans (respelledDigits_eq_iff hagain)

theorem exists_of_respelling_cons {p : OperandPiece} {pieces : List OperandPiece}
    {written : List Char} (h : respelling (p :: pieces) = .ok written) :
    ∃ first later, p.respelled = .ok first ∧ respelling pieces = .ok later ∧
      first ++ later = written := by
  rw [respelling_cons] at h
  cases hp : p.respelled with
  | error cause => rw [hp] at h; cases h
  | ok first =>
    cases hpieces : respelling pieces with
    | error cause => rw [hp, hpieces] at h; cases h
    | ok later =>
      rw [hp, hpieces] at h
      exact ⟨first, later, rfl, rfl, Except.ok.inj h⟩

/-- **An operand keeps its text** exactly when each of its pieces does. -/
theorem respelling_eq_source_iff {pieces : List OperandPiece} {written : List Char}
    (h : respelling pieces = .ok written) :
    written.length ≤ (pieces.flatMap source).length ∧
      (written = pieces.flatMap source ↔ ∀ p ∈ pieces, p.IsKept) := by
  induction pieces generalizing written with
  | nil =>
    cases h
    exact ⟨Nat.le_refl _, iff_of_true rfl nofun⟩
  | cons p pieces ih =>
    obtain ⟨first, later, hp, hpieces, rfl⟩ := exists_of_respelling_cons h
    obtain ⟨hlater, hkept⟩ := ih hpieces
    have hfirst := length_respelled hp
    rw [List.flatMap_cons, List.length_append, List.length_append, List.forall_mem_cons, ← hkept,
      ← respelled_eq_source_iff hp]
    refine ⟨Nat.add_le_add hfirst hlater, fun heq => ?_, ?_⟩
    · have hlength := congrArg List.length heq
      rw [List.length_append, List.length_append] at hlength
      exact List.append_inj heq (by omega)
    · rintro ⟨rfl, rfl⟩
      rfl

/-- What is written was written before, but for the digits of numbers. -/
theorem mem_respelled {p : OperandPiece} {written : List Char} (h : p.respelled = .ok written)
    {c : Char} (hc : c ∈ written) : c ∈ p.source ∨ Text.isDigit c = true := by
  cases p with
  | blank => cases h; cases hc
  | doubled inner | word text =>
    cases h
    exact .inl hc
  | operator digits kind =>
    obtain ⟨again, hagain, rfl⟩ := exists_respelledDigits h
    rcases List.mem_append.1 hc with hc | hc
    · right
      unfold respelledDigits at hagain
      split at hagain
      · cases hagain
        cases hc
      · cases hread : Text.readDecimal (String.ofList digits) with
        | error cause => rw [hread] at hagain; cases hagain
        | ok n =>
          rw [hread] at hagain
          cases hagain
          rw [Text.isDigit, Text.isDecimal_of_isDigit (Text.isDigit_of_mem_toString hc), Bool.true_or]
    · exact .inl (List.mem_append_right _ hc)

theorem mem_respelling {pieces : List OperandPiece} {written : List Char}
    (h : respelling pieces = .ok written) {c : Char} (hc : c ∈ written) :
    c ∈ pieces.flatMap source ∨ Text.isDigit c = true := by
  induction pieces generalizing written with
  | nil => cases h; cases hc
  | cons p pieces ih =>
    obtain ⟨first, later, hp, hpieces, rfl⟩ := exists_of_respelling_cons h
    rw [List.flatMap_cons, List.mem_append]
    rcases List.mem_append.1 hc with hc | hc
    · exact (mem_respelled hp hc).imp_left .inl
    · exact (ih hpieces hc).imp_left .inr

/-- Something is written, since no operand starts with a blank. -/
theorem respelling_ne_nil {text written : List Char} (hne : text ≠ [])
    (h : closesFrom 0 text = true) (hwritten : respelling (cut text) = .ok written) :
    written ≠ [] := by
  revert hwritten
  fun_cases cut text with
  | case1 => exact absurd rfl hne
  | case2 c rest hblank =>
    have hclosed : closesFrom 0 (c :: rest) = false := by
      have hopen : c ≠ '(' := by rintro rfl; cases hblank
      have hclose : c ≠ ')' := by rintro rfl; cases hblank
      simp_all [closesFrom]
    rw [hclosed] at h
    cases h
  | case3 c rest hblank inner after hdoubled =>
    intro hwritten
    obtain ⟨first, later, hp, -, rfl⟩ := exists_of_respelling_cons hwritten
    cases hp
    exact List.cons_ne_nil _ _
  | case4 c rest hblank hdoubled kind after hkind =>
    intro hwritten
    obtain ⟨first, later, hp, -, rfl⟩ := exists_of_respelling_cons hwritten
    obtain ⟨again, -, rfl⟩ := exists_respelledDigits hp
    have happend := TokenKind.operator?_append hkind
    have hlt := TokenKind.operator?_length_lt hkind
    rw [← happend, List.length_append] at hlt
    intro hnil
    have hspelling : kind.spelling.toList = [] := by simp_all
    rw [hspelling, List.length_nil] at hlt
    omega
  | case5 c rest hblank hdoubled hkind =>
    intro hwritten
    obtain ⟨first, later, hp, -, rfl⟩ := exists_of_respelling_cons hwritten
    cases hp
    exact List.cons_ne_nil _ _

end OperandPiece

/-! ## The operand of a test -/

/-- **The operand of a match** that has no quotes, comments and expansions: its parentheses balance,
outside of them there are no blanks and connectives, and no word closes the test. -/
structure IsOperand (text : List Char) : Prop where
  nonempty : text ≠ []
  chars : ∀ c ∈ text, c ∉ Delimiter.marks ∧ c ≠ '#' ∧ c ≠ '\n'
  closes : OperandPiece.closesFrom 0 text = true
  brackets : .word [']', ']'] ∉ OperandPiece.cut text

theorem isPlainWord_x : IsPlainWord "x" :=
  ⟨by decide, by decide, by simp [isMetacharacter, Delimiter.marks]⟩

/-- The text before the operand, cut where its tokens end. -/
theorem leftOfOperand (operand : String) :
    "[[ x =~ " ++ operand ++ " ]]" = "[[ " ++ "x" ++ " =~ " ++ operand ++ " ]]" :=
  rfl

namespace Script

section

variable {operand : String} (h : IsOperand operand.toList)
  (hlength : ("[[ x =~ " ++ operand ++ " ]]").length ≤ maxScriptLength)
include h hlength

/-- An operand with a descriptor that is no numeral is refused. -/
theorem parse_operand_refused {cause : Text.IntegerError}
    (hrefused : OperandPiece.respelling (OperandPiece.cut operand.toList) = .error cause) :
    parse ("[[ x =~ " ++ operand ++ " ]]") = .error (.integer cause) := by
  have hread := OperandPiece.readAs_cut h.closes h.chars h.brackets
  rw [hrefused] at hread
  rw [leftOfOperand] at hlength ⊢
  exact parse_regexTest_refused isPlainWord_x.isWordText hread hlength

/-- Any other operand is read as its pieces are written. -/
theorem exists_parse_operand {written : List Char}
    (hwritten : OperandPiece.respelling (OperandPiece.cut operand.toList) = .ok written)
    (hcount : (OperandPiece.cut operand.toList).countP OperandPiece.isToken + 5 ≤ maxTokenCount) :
    ∃ parts, parse ("[[ x =~ " ++ operand ++ " ]]") =
      .ok (.ofTest (Parser.regexWords (.ofLiteral "x") ⟨parts, String.ofList written⟩)) := by
  have hread := OperandPiece.readAs_cut h.closes h.chars h.brackets
  rw [hwritten] at hread
  obtain ⟨tokens, htokens, hyields, hoperand⟩ := hread
  have hunmarked : ∀ c ∈ (String.ofList written).toList, c ∉ Delimiter.marks := by
    intro c hc hmark
    rw [String.toList_ofList] at hc
    rcases OperandPiece.mem_respelling hwritten hc with hmem | hdigit
    · rw [OperandPiece.flatMap_source_cut] at hmem
      exact (h.chars c hmem).1 hmark
    · rw [Text.isDigit_of_mem (by decide) hmark] at hdigit
      cases hdigit
  obtain ⟨parts, hparts⟩ := (Level.ofDepth (maxNesting - 2)).exists_partsOf_unmarked hunmarked
  have hleftParts := (Level.ofDepth (maxNesting - 2)).partsOf_unmarked
    (fun c hc => (isPlainWord_x.chars c hc).2) nofun nofun
  rw [leftOfOperand] at hlength ⊢
  refine ⟨parts, parse_regexTest isPlainWord_x.isWordText (by decide) (by decide) hleftParts hyields
    ?_ ?_ hparts hlength (by rw [htokens]; exact hcount)⟩
  · rw [hoperand, Parser.regexOperand.eq_def]
    simp [Token.ofWord, Parser.atWord]
  · intro hnil
    have hempty : written = [] := by simpa using congrArg String.toList hnil
    exact OperandPiece.respelling_ne_nil h.nonempty h.closes hwritten hempty

/-- **The operand of a match is put together again**: blanks are lost that do not stand in two pairs of
parentheses, and descriptors become numbers, so the operand is the text that it was if there are
none of these. A descriptor that is no numeral is refused. -/
theorem parse_operand :
    (∀ cause, OperandPiece.respelling (OperandPiece.cut operand.toList) = .error cause →
        parse ("[[ x =~ " ++ operand ++ " ]]") = .error (.integer cause)) ∧
      ∀ written, OperandPiece.respelling (OperandPiece.cut operand.toList) = .ok written →
        ((OperandPiece.cut operand.toList).countP OperandPiece.isToken + 5 ≤ maxTokenCount →
          ∃ parts, parse ("[[ x =~ " ++ operand ++ " ]]") =
            .ok (.ofTest (Parser.regexWords (.ofLiteral "x") ⟨parts, String.ofList written⟩))) ∧
        (String.ofList written = operand ↔
          ∀ piece ∈ OperandPiece.cut operand.toList, piece.IsKept) := by
  refine ⟨fun cause => parse_operand_refused h hlength, fun written hwritten =>
    ⟨exists_parse_operand h hlength hwritten, ?_⟩⟩
  rw [← (OperandPiece.respelling_eq_source_iff hwritten).2, OperandPiece.flatMap_source_cut,
    ← String.toList_inj, String.toList_ofList]

end

/-- Between two pairs of parentheses a blank is kept. -/
theorem parse_operand_doubled :
    IsOperand "((a b))".toList ∧ ("[[ x =~ " ++ "((a b))" ++ " ]]").length ≤ maxScriptLength ∧
      ∃ parts, parse ("[[ x =~ " ++ "((a b))" ++ " ]]") =
        .ok (.ofTest (Parser.regexWords (.ofLiteral "x") ⟨parts, "((a b))"⟩)) := by
  have hcut : OperandPiece.cut "((a b))".toList = [.doubled ['a', ' ', 'b']] := by cbv
  have hoperand : IsOperand "((a b))".toList :=
    ⟨by decide, by simp [Delimiter.marks], by decide, by rw [hcut]; decide⟩
  have hlength : ("[[ x =~ " ++ "((a b))" ++ " ]]").length ≤ maxScriptLength := by decide
  have hparse := (parse_operand hoperand hlength).2
  rw [hcut] at hparse
  exact ⟨hoperand, hlength, (hparse _ rfl).1 (by decide)⟩

/-- Between one pair of parentheses it is lost. -/
theorem parse_operand_loses_blank :
    IsOperand "(a b)".toList ∧ ∀ parts, parse ("[[ x =~ " ++ "(a b)" ++ " ]]") ≠
      .ok (.ofTest (Parser.regexWords (.ofLiteral "x") ⟨parts, "(a b)"⟩)) := by
  have hcut : OperandPiece.cut "(a b)".toList =
      [.operator [] .openParen, .word ['a'], .blank ' ', .word ['b'], .operator [] .closeParen] := by
    cbv
  have hoperand : IsOperand "(a b)".toList :=
    ⟨by decide, by simp [Delimiter.marks], by decide, by rw [hcut]; decide⟩
  have hwritten : OperandPiece.respelling (OperandPiece.cut "(a b)".toList) =
      .ok ['(', 'a', 'b', ')'] := by
    rw [hcut]
    rfl
  obtain ⟨parts, hparse⟩ :=
    exists_parse_operand hoperand (by decide) hwritten (by rw [hcut]; decide)
  refine ⟨hoperand, fun parts' hsame => ?_⟩
  rw [hparse] at hsame
  simp [ofTest, Parser.regexWords] at hsame

end Script

end VirtualShell
