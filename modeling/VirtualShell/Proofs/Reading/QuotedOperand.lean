import VirtualShell.Proofs.Expansion.QuotedVariable
import VirtualShell.Proofs.Reading.OperandPiece

/-!
# Quotes in the operand of a match

The operand of a match may hold characters after backslashes and texts in single quotes. It is one
word then, whatever stands in the quotes, and expanding it takes the quotes off.

* `QuotedPiece.IsWritten` — the pieces that such an operand is made of.
* `QuotedPiece.yields` — the lexer makes one word of it.
* `QuotedPiece.exists_parts` — what it is read as and what that is expanded to.
* **`Script.exists_parse_quotedMatch`** — a test whose left operand is a variable between double quotes.
-/

namespace VirtualShell

/-! ## Parts that stand for a text -/

/-- **Parts that stand for a text** outside of quotes, whatever they are expanded with. -/
def Part.StandsFor (parts : List Part) (text : List Char) : Prop :=
  ∃ segments, (∀ x, Part.expandAll x parts false = pure segments) ∧
    segments.flatMap (·.text.toList) = text

namespace Part.StandsFor

variable {parts more : List Part} {part : Part} {text rest : List Char}

theorem singleton (segment : Segment) (h : ∀ x, part.expand x false = pure [segment])
    (htext : segment.text.toList = text) : StandsFor [part] text :=
  ⟨[segment], fun x => by rw [Part.expandAll, h]; rfl, by simp [htext]⟩

theorem append (h : StandsFor parts text) (hmore : StandsFor more rest) :
    StandsFor (parts ++ more) (text ++ rest) := by
  obtain ⟨segments, hparts, rfl⟩ := h
  obtain ⟨others, hmore, rfl⟩ := hmore
  refine ⟨segments ++ others, fun x => ?_, List.flatMap_append⟩
  rw [Part.expandAll_append, hparts, hmore]
  rfl

/-- The plain text before a part. -/
theorem exists_flush (plain : List Char) (done : List Part) : ∃ parts,
    (Level.flush plain done).reverse = done.reverse ++ parts ∧ StandsFor parts plain.reverse := by
  unfold Level.flush
  split
  · next hplain =>
    refine ⟨[], by simp, [], fun x => rfl, ?_⟩
    rw [List.isEmpty_iff.1 hplain]
    rfl
  · refine ⟨[.literal (String.ofList plain.reverse)], by simp, ?_⟩
    exact singleton (.literal false (String.ofList plain.reverse)) (fun x => rfl)
      (by simp [Segment.literal])

/-- A part ends the plain text before it. -/
theorem exists_assemble {l : Level} (raw : RawPart) {pieces : List Piece}
    (hread : raw.read l = .ok part) (hpart : StandsFor [part] text)
    (hpieces : ∀ done, ∃ parts, l.assemble done [] pieces = .ok (done.reverse ++ parts) ∧
      StandsFor parts rest) (done : List Part) (plain : List Char) :
    ∃ parts, l.assemble done plain (.part raw :: pieces) = .ok (done.reverse ++ parts) ∧
      StandsFor parts (plain.reverse ++ text ++ rest) := by
  obtain ⟨before, hflush, hbefore⟩ := exists_flush plain done
  obtain ⟨parts, hassemble, hparts⟩ := hpieces (part :: Level.flush plain done)
  refine ⟨before ++ [part] ++ parts, ?_, (hbefore.append hpart).append hparts⟩
  rw [Level.assemble, hread]
  dsimp only
  rw [hassemble, List.reverse_cons, hflush]
  simp

end Part.StandsFor

/-! ## Pieces -/

/-- A piece of the operand of a match: a character that is not quoted, a character after a backslash,
or a text in single quotes. -/
inductive QuotedPiece where
  | plain (c : Char)
  | escaped (c : Char)
  | quoted (text : List Char)
  deriving DecidableEq, Repr

namespace QuotedPiece

/-- How the piece is written. -/
def source : QuotedPiece → List Char
  | .plain c => [c]
  | .escaped c => ['\\', c]
  | .quoted text => '\'' :: (text ++ ['\''])

/-- The text that the piece stands for. -/
def value : QuotedPiece → List Char
  | .plain c | .escaped c => [c]
  | .quoted text => text

/-- **What is written is such a piece**: a character that means nothing to the lexer, a backslash that
takes no line end away, or a text without the quote that ends it. -/
def IsWritten : QuotedPiece → Prop
  | .plain c => isMetacharacter c = false ∧ c ∉ Delimiter.marks
  | .escaped c => c ≠ '\n'
  | .quoted text => '\'' ∉ text

/-! ## Reading them -/

theorem passes {p : QuotedPiece} (h : p.IsWritten) : Delimiter.Passes p.source := by
  cases p with
  | plain c => exact Delimiter.passes_of_plain (List.forall_mem_singleton.2 h)
  | escaped c => exact fun read rest => Delimiter.scan_escape _ _ _ rfl rfl
  | quoted text =>
    have hchars : (quoted text).source = Quotation.single.chars text := by
      rw [Quotation.chars, Quotation.flatMap_single h]
      rfl
    rw [hchars]
    exact fun read rest => Quotation.scan_quote .single text read rest

theorem passes_flatMap {pieces : List QuotedPiece} (h : ∀ p ∈ pieces, p.IsWritten) :
    Delimiter.Passes (pieces.flatMap source) := by
  induction pieces with
  | nil => exact fun _ _ => rfl
  | cons p pieces ih =>
    obtain ⟨hp, hpieces⟩ := List.forall_mem_cons.1 h
    exact (passes hp).append (ih hpieces)

/-- No redirection follows the digits that the pieces start with. -/
theorem descriptor?_flatMap {pieces : List QuotedPiece} (h : ∀ p ∈ pieces, p.IsWritten)
    (more : List Char) : Scanner.descriptor? (pieces.flatMap source ++ ' ' :: more) = none := by
  refine Scanner.descriptor?_of_dropWhile ?_
  have hstop {c : Char} (hdigit : Text.isDigit c = false) (hc : c ≠ '<' ∧ c ≠ '>') (rest : List Char) :
      ∀ x ∈ ((c :: rest).dropWhile Text.isDigit).head?, x ≠ '<' ∧ x ≠ '>' := by
    rw [List.dropWhile_cons_of_neg (by simp [hdigit])]
    rintro x ⟨⟩
    exact hc
  induction pieces with
  | nil => exact hstop (Text.isDigit_of_ascii (by decide)) (by decide) more
  | cons p pieces ih =>
    obtain ⟨hp, hpieces⟩ := List.forall_mem_cons.1 h
    rw [List.flatMap_cons, List.append_assoc]
    cases p with
    | plain c =>
      cases hdigit : Text.isDigit c with
      | false =>
        refine hstop hdigit ⟨?_, ?_⟩ _ <;> (rintro rfl; cases hp.1)
      | true =>
        change ∀ x ∈ ((c :: _).dropWhile Text.isDigit).head?, x ≠ '<' ∧ x ≠ '>'
        rw [List.dropWhile_cons_of_pos hdigit]
        exact ih hpieces
    | escaped c => exact hstop (Text.isDigit_of_ascii (by decide)) (by decide) _
    | quoted text => exact hstop (Text.isDigit_of_ascii (by decide)) (by decide) _

/-- **An operand in pieces** that is one word: it starts no comment and stands for no home directory,
and it does not close the test. -/
structure AreOperand (pieces : List QuotedPiece) : Prop where
  nonempty : pieces ≠ []
  written : ∀ p ∈ pieces, p.IsWritten
  start : pieces.head? ≠ some (.plain '#') ∧ pieces.head? ≠ some (.plain '~')
  brackets : pieces.flatMap source ≠ [']', ']']

/-- **The lexer makes one word of it.** -/
theorem AreOperand.yields {pieces : List QuotedPiece} (h : AreOperand pieces) :
    Scanner.Yields (pieces.flatMap source) [.ofWord 0 (String.ofList (pieces.flatMap source))] := by
  intro s more hs
  have hdescriptor := descriptor?_flatMap h.written more
  have hpasses := passes_flatMap h.written
  obtain ⟨p, pieces, rfl⟩ := List.exists_cons_of_ne_nil h.nonempty
  have hp := h.written p List.mem_cons_self
  obtain ⟨c, rest, hsource, hc, hescape, hcomment⟩ : ∃ c rest,
      (p :: pieces).flatMap source = c :: rest ∧ isMetacharacter c = false ∧
        (c == '\\' && (rest ++ ' ' :: more).head? == some '\n') = false ∧ c ≠ '#' := by
    cases p with
    | plain c =>
      refine ⟨c, pieces.flatMap source, rfl, hp.1, ?_, ?_⟩
      · have hmark : c ≠ '\\' := by
          rintro rfl
          exact hp.2 (by decide)
        simp [hmark]
      · rintro rfl
        exact h.start.1 rfl
    | escaped c =>
      have hline : c ≠ '\n' := hp
      exact ⟨'\\', c :: pieces.flatMap source, rfl, rfl, by simp [hline], by decide⟩
    | quoted text =>
      exact ⟨'\'', text ++ ['\''] ++ pieces.flatMap source, by simp [source], rfl, rfl, by decide⟩
  rw [hsource] at hpasses hdescriptor hs ⊢
  rw [← hs] at hdescriptor
  exact Scanner.reads_word hs hc hpasses hescape hcomment hdescriptor (by rintro x ⟨⟩; rfl)

/-! ## Taking the quotes off -/

/-- The piece of a word that it is. -/
def piece : QuotedPiece → Piece
  | .plain c => .plain c
  | .escaped c => .part (.escaped c)
  | .quoted text => .part (.quoted text)

theorem cut_flatMap {pieces : List QuotedPiece} (h : ∀ p ∈ pieces, p.IsWritten) :
    Piece.cut .unquoted (pieces.flatMap source) = pieces.map piece := by
  induction pieces with
  | nil => simp [Piece.cut]
  | cons p pieces ih =>
    obtain ⟨hp, hpieces⟩ := List.forall_mem_cons.1 h
    rw [List.map_cons, ← ih hpieces, List.flatMap_cons]
    cases p with
    | plain c =>
      obtain ⟨-, hmark⟩ := hp
      simp only [Delimiter.marks, List.mem_cons, List.not_mem_nil, or_false, not_or] at hmark
      have htake (rest : List Char) : Piece.take .unquoted c rest = (.plain c, rest) := by
        simp [Piece.take, hmark]
      exact (Piece.cut_cons hmark.1 _ _).trans (by rw [htake]; rfl)
    | escaped c =>
      change Piece.cut .unquoted ('\\' :: c :: pieces.flatMap source) = _
      rw [Piece.cut, if_pos (by rfl)]
      · rfl
      · exact hp
    | quoted text =>
      have htake (rest : List Char) : Piece.take .unquoted '\'' (text ++ '\'' :: rest) =
          (.part (.quoted text), rest) := by
        rw [Piece.take, if_pos (by rfl), Quotation.close_single hp]
        rfl
      have hsource : (quoted text).source ++ pieces.flatMap source =
          '\'' :: (text ++ '\'' :: pieces.flatMap source) := by
        simp [source]
      rw [hsource, Piece.cut_cons (by decide), htake]
      rfl

/-- **What the pieces are read as** stands for the text that they stand for. -/
theorem exists_parts (l : Level) (pieces : List QuotedPiece) (done : List Part) (plain : List Char) :
    ∃ parts, l.assemble done plain (pieces.map piece) = .ok (done.reverse ++ parts) ∧
      Part.StandsFor parts (plain.reverse ++ pieces.flatMap value) := by
  induction pieces generalizing done plain with
  | nil =>
    obtain ⟨parts, hflush, hparts⟩ := Part.StandsFor.exists_flush plain done
    refine ⟨parts, congrArg Except.ok hflush, ?_⟩
    rw [List.flatMap_nil, List.append_nil]
    exact hparts
  | cons p pieces ih =>
    rw [List.flatMap_cons, ← List.append_assoc]
    cases p with
    | plain c =>
      obtain ⟨parts, hassemble, hparts⟩ := ih done (c :: plain)
      rw [List.reverse_cons] at hparts
      exact ⟨parts, hassemble, hparts⟩
    | escaped c =>
      refine Part.StandsFor.exists_assemble (.escaped c) rfl ?_ (fun done => ih done []) _ _
      exact .singleton (.literal true c.toString) (fun x => rfl)
        (by simp [Segment.literal, value])
    | quoted text =>
      refine Part.StandsFor.exists_assemble (.quoted text) rfl ?_ (fun done => ih done []) _ _
      exact .singleton (.literal true (String.ofList text)) (fun x => rfl)
        (by simp [Segment.literal, value])

/-- The operand is read, and what it is read as stands for the text of its pieces. -/
theorem AreOperand.exists_partsOf {pieces : List QuotedPiece} (h : AreOperand pieces) (l : Level) :
    ∃ parts, l.partsOf .unquoted (pieces.flatMap source) = .ok parts ∧
      Part.StandsFor parts (pieces.flatMap value) := by
  have htilde : (pieces.flatMap source).head? ≠ some '~' := by
    obtain ⟨p, pieces, rfl⟩ := List.exists_cons_of_ne_nil h.nonempty
    cases p with
    | plain c =>
      intro heq
      obtain rfl : c = '~' := by simpa [source] using heq
      exact h.start.2 rfl
    | escaped c | quoted text => simp [source]
  have hno : takeTilde (pieces.flatMap source) = none := by
    unfold takeTilde
    split
    · next heq => exact absurd (by rw [heq]; rfl) htilde
    · rfl
  rw [Level.partsOf_eq_assemble, Piece.ofText, if_pos (by rfl), hno]
  dsimp only
  rw [cut_flatMap h.written]
  exact exists_parts l pieces [] []

end QuotedPiece

/-- **A test of a variable against such an operand** is read as three words, of which the last one
stands for the text that is left when the quotes are taken off. -/
theorem Script.exists_parse_quotedMatch {name : String} (hname : Arith.isName name = true)
    {pieces : List QuotedPiece} (h : QuotedPiece.AreOperand pieces) {operand : String}
    (hoperand : operand.toList = pieces.flatMap QuotedPiece.source)
    (hlength : ("[[ " ++ (Word.ofVariable name).raw ++ " =~ " ++ operand ++ " ]]").length ≤
      maxScriptLength) :
    ∃ parts, parse ("[[ " ++ (Word.ofVariable name).raw ++ " =~ " ++ operand ++ " ]]") =
      .ok (.ofTest (Parser.regexWords (.ofVariable name) ⟨parts, operand⟩)) ∧
        Part.StandsFor parts (pieces.flatMap QuotedPiece.value) := by
  obtain ⟨parts, hparts, hstands⟩ := h.exists_partsOf (.ofDepth (maxNesting - 2))
  refine ⟨parts, ?_, hstands⟩
  have hyields := h.yields
  have hbrackets : operand ≠ "]]" := fun heq => h.brackets (by rw [← hoperand, heq]; rfl)
  rw [← hoperand, String.ofList_toList] at hyields
  rw [← hoperand] at hparts
  refine parse_regexTest (Word.isWordText_ofVariable hname)
    (Word.raw_ofVariable_ne name (by decide)) (Word.raw_ofVariable_ne name (by decide))
    (Word.parts_ofVariable hname (maxNesting - 3)) hyields ?_ ?_ hparts hlength
    (by change 6 ≤ maxTokenCount; decide)
  · rw [List.singleton_append, Parser.regexOperand_word 0 "" hbrackets, String.empty_append,
      Parser.regexOperand.eq_def]
    simp [Token.ofWord, Parser.atWord]
  · intro hempty
    have hnil : operand.toList = [] := by rw [hempty]; rfl
    obtain ⟨p, pieces, rfl⟩ := List.exists_cons_of_ne_nil h.nonempty
    rw [hoperand] at hnil
    cases p <;> simp [QuotedPiece.source] at hnil

end VirtualShell
