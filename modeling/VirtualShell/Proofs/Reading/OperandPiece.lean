import VirtualShell.Proofs.Reading.Following
import VirtualShell.Proofs.Reading.Balance
import VirtualShell.Proofs.Reading.Numeral
import VirtualShell.Proofs.Reading.RegexTest

/-!
# The pieces of the operand of a match

After `=~` the parser puts the operand together again from tokens. Blanks make no token, and of a
descriptor the number is left.

* `OperandPiece.cut` — the pieces of an operand, one for each token and each blank.
* `OperandPiece.closesFrom` — the operands that reach to the end of the test.
* `OperandPiece.respelled` — how a piece is written in the operand that is put together.
* `OperandPiece.ReadAs` — what the lexer and the parser make of a text together.
* **`OperandPiece.readAs_cut`** — they make of an operand what its pieces are written as.
-/

namespace VirtualShell

/-! ## Pieces -/

/-- A piece of an operand that has no quotes: a blank, what stands in two pairs of parentheses, an
operator with the digits of its descriptor, or a word. -/
inductive OperandPiece where
  | blank (c : Char)
  | doubled (inner : List Char)
  | operator (digits : List Char) (kind : TokenKind)
  | word (text : List Char)
  deriving DecidableEq, Repr

namespace OperandPiece

/-- The text of a piece. -/
def source : OperandPiece → List Char
  | .blank c => [c]
  | .doubled inner => '(' :: '(' :: inner ++ [')', ')']
  | .operator digits kind => digits ++ kind.spelling.toList
  | .word text => text

/-- How a descriptor is written again: as the number that it is. -/
def respelledDigits (digits : List Char) : Except Text.IntegerError (List Char) :=
  if digits.isEmpty then .ok []
  else (Text.readDecimal (String.ofList digits)).map fun n => (toString n.toNat).toList

/-- **How a piece is written** in the operand that is put together from tokens. -/
def respelled : OperandPiece → Except Text.IntegerError (List Char)
  | .blank _ => .ok []
  | .operator digits kind => (respelledDigits digits).map (· ++ kind.spelling.toList)
  | piece => .ok piece.source

/-- A piece that a token stands for. -/
def isToken : OperandPiece → Bool
  | .blank _ => false
  | _ => true

/-- The text in two pairs of parentheses that hold nothing else, and the text after them. -/
def doubled? (text : List Char) : Option (List Char × List Char) :=
  match text with
  | '(' :: '(' :: rest =>
    match Delimiter.close .paren ('(' :: rest) with
    | .ok (content, after) =>
      match Delimiter.close .paren content.tail with
      | .ok (inner, []) => some (inner, after)
      | _ => none
    | .error _ => none
  | _ => none

/-- A descriptor and the text after it; without one the digits are empty. -/
def digits (text : List Char) : List Char × List Char := (Scanner.descriptor? text).getD ([], text)

theorem doubled?_length_lt {text inner after : List Char} (h : doubled? text = some (inner, after)) :
    after.length < text.length := by
  unfold doubled? at h
  split at h
  · split at h
    · next hclose =>
      have hlt := Delimiter.close_length_lt hclose
      split at h
      · cases h
        exact Nat.lt_succ_of_lt hlt
      · cases h
    · cases h
  · cases h

theorem digits_length_le (text : List Char) : (digits text).2.length ≤ text.length := by
  unfold digits
  cases h : Scanner.descriptor? text with
  | none => exact Nat.le_refl _
  | some found => exact Nat.le_of_lt (Scanner.descriptor?_length_lt h)

/-- **The pieces of an operand.** -/
def cut (text : List Char) : List OperandPiece :=
  match text with
  | [] => []
  | c :: rest =>
    if c == ' ' || c == '\t' then .blank c :: cut rest
    else
      match hdoubled : doubled? (c :: rest) with
      | some (inner, after) =>
        have := doubled?_length_lt hdoubled
        .doubled inner :: cut after
      | none =>
        match hkind : TokenKind.operator? (digits (c :: rest)).2 with
        | some (kind, after) =>
          have := TokenKind.operator?_length_lt hkind
          have := digits_length_le (c :: rest)
          .operator (digits (c :: rest)).1 kind :: cut after
        | none =>
          have := (rest.dropWhile_sublist (!isMetacharacter ·)).length_le
          .word (c :: rest.takeWhile (!isMetacharacter ·)) :: cut (rest.dropWhile (!isMetacharacter ·))
termination_by text.length
decreasing_by all_goals simp only [List.length_cons] at *; omega

/-! ### The text of the pieces -/

theorem doubled?_append {text inner after : List Char} (h : doubled? text = some (inner, after)) :
    (doubled inner).source ++ after = text ∧ ∃ content,
      Delimiter.close .paren text.tail = .ok (content, after) ∧
        Delimiter.close .paren content.tail = .ok (inner, []) := by
  unfold doubled? at h
  split at h
  · next rest =>
    split at h
    · next content after' hclose =>
      split at h
      · next inner' hinner =>
        cases h
        have houter := Delimiter.close_paren_append hclose
        have hcontent := Delimiter.close_paren_append hinner
        refine ⟨?_, content, hclose, hinner⟩
        cases content with
        | nil => cases houter
        | cons c content =>
          obtain ⟨rfl, hrest⟩ := List.cons.inj houter
          rw [List.tail_cons] at hcontent
          rw [← hrest, ← hcontent]
          simp [source]
      · cases h
    · cases h
  · cases h

theorem digits_append (text : List Char) : (digits text).1 ++ (digits text).2 = text := by
  unfold digits
  cases h : Scanner.descriptor? text with
  | none => rfl
  | some found => exact (Scanner.descriptor?_eq_some h).1

/-- **Nothing is lost** when an operand is cut into pieces. -/
theorem flatMap_source_cut (text : List Char) : (cut text).flatMap source = text := by
  fun_induction cut text with
  | case1 => rfl
  | case2 c rest hblank ih => rw [List.flatMap_cons, ih]; rfl
  | case3 c rest hblank inner after hdoubled hlt ih =>
    rw [List.flatMap_cons, ih]
    exact (doubled?_append hdoubled).1
  | case4 c rest hblank hdoubled kind after hkind hlt hle ih =>
    rw [List.flatMap_cons, ih, source, List.append_assoc, TokenKind.operator?_append hkind]
    exact digits_append _
  | case5 c rest hblank hdoubled hkind hle ih =>
    rw [List.flatMap_cons, ih, source, List.cons_append, List.takeWhile_append_dropWhile]

/-! ### Operands -/

/-- The parentheses of a text close when so many are open before it, and outside of them there are no
blanks and no connectives. -/
def closesFrom : Nat → List Char → Bool
  | depth, [] => depth == 0
  | depth, '(' :: rest => closesFrom (depth + 1) rest
  | 0, ')' :: _ => false
  | depth + 1, ')' :: rest => closesFrom depth rest
  | 0, c :: rest =>
    !(c == ' ' || c == '\t') && !(c == '&' && rest.head? == some '&') &&
      !(c == '|' && rest.head? == some '|') && closesFrom 0 rest
  | depth + 1, _ :: rest => closesFrom (depth + 1) rest

theorem closesFrom_skip {depth : Nat} {c : Char} {rest : List Char}
    (h : closesFrom depth (c :: rest) = true) (hopen : c ≠ '(') (hclose : c ≠ ')') :
    closesFrom depth rest = true := by
  cases depth <;> simp_all [closesFrom]

theorem closesFrom_append {depth : Nat} {text rest : List Char}
    (h : closesFrom depth (text ++ rest) = true) (htext : ∀ c ∈ text, c ≠ '(' ∧ c ≠ ')') :
    closesFrom depth rest = true := by
  induction text with
  | nil => exact h
  | cons c text ih =>
    obtain ⟨hc, htext⟩ := List.forall_mem_cons.1 htext
    exact ih (closesFrom_skip h hc.1 hc.2) htext

/-- **A parenthesis that is open closes**, and what stands before is balanced. -/
theorem exists_close {depth : Nat} {text : List Char} (h : closesFrom (depth + 1) text = true)
    (hchars : ∀ c ∈ text, c ∉ Delimiter.marks) : ∃ content after,
      content ++ ')' :: after = text ∧ Balanced content ∧ closesFrom depth after = true := by
  suffices hinside : ∀ inside, closesFrom (depth + 1 + inside) text = true →
      ∃ content after, content ++ ')' :: after = text ∧ Shifts content inside 0 ∧
        closesFrom depth after = true by
    obtain ⟨content, after, happend, hshifts, hafter⟩ := hinside 0 h
    exact ⟨content, after, happend, hshifts.balanced, hafter⟩
  clear h
  induction text with
  | nil =>
    intro inside h
    simp [closesFrom] at h
  | cons c rest ih =>
    intro inside h
    obtain ⟨hc, hrest⟩ := List.forall_mem_cons.1 hchars
    by_cases hopen : c = '('
    · subst hopen
      have hrest' : closesFrom (depth + 1 + (inside + 1)) rest = true := by
        simpa [closesFrom, Nat.add_assoc] using h
      obtain ⟨content, after, rfl, hshifts, hafter⟩ := ih hrest (inside + 1) hrest'
      exact ⟨'(' :: content, after, rfl, (Shifts.openParen inside).cons hshifts, hafter⟩
    by_cases hclose : c = ')'
    · subst hclose
      rw [Nat.add_right_comm, closesFrom] at h
      cases inside with
      | zero => exact ⟨[], rest, rfl, .nil 0, h⟩
      | succ inside =>
        have hrest' : closesFrom (depth + 1 + inside) rest = true := by
          rwa [← Nat.add_assoc, Nat.add_right_comm] at h
        obtain ⟨content, after, rfl, hshifts, hafter⟩ := ih hrest inside hrest'
        exact ⟨')' :: content, after, rfl, (Shifts.closeParen inside).cons hshifts, hafter⟩
    · obtain ⟨content, after, rfl, hshifts, hafter⟩ :=
        ih hrest inside (closesFrom_skip h hopen hclose)
      refine ⟨c :: content, after, rfl, (Shifts.singleton ?_ inside).cons hshifts, hafter⟩
      simp_all [Delimiter.marks, countedChars]

end OperandPiece

/-- A balanced text ends at the next parenthesis. -/
theorem Balanced.close {text : List Char} (h : Balanced text) (rest : List Char) :
    Delimiter.close .paren (text ++ ')' :: rest) = .ok (text, rest) := by
  rw [Delimiter.close, h.scan, Delimiter.scan_leave _ _ rfl rfl, List.tail_cons,
    Delimiter.scan_stop _ fun _ _ => rfl]
  simp

/-! ## Taking pieces off the text -/

namespace Scanner

variable {s : Scanner} {rest more : List Char}

theorem Reads.of_step {c : Char} {tokens : List Token} (next : Scanner) (hs : s.rest = c :: more)
    (h : s.step c more = .ok next) (hbodies : next.bodies = s.bodies)
    (htokens : next.tokens.map Token.bare = tokens.reverse ++ s.tokens.map Token.bare) :
    s.Reads tokens next.rest :=
  ⟨next, ⟨run_of_step hs h, hbodies, htokens⟩, rfl⟩

theorem reads_blank {c : Char} (hc : (c == ' ' || c == '\t') = true) (hs : s.rest = c :: rest) :
    s.Reads [] rest :=
  .of_step _ hs (if_pos hc) rfl rfl

/-- An operator that is not the first of two parentheses. -/
theorem reads_operator {c : Char} {kind : TokenKind} (hs : s.rest = c :: more)
    (hkind : TokenKind.operator? (c :: more) = some (kind, rest))
    (hparens : (c == '(' && more.head? == some '(') = false) :
    s.Reads [⟨kind, kind.spelling, 0, none, none⟩] rest :=
  .of_step _ hs (step_operator s kind rest hkind hparens) rfl rfl

/-- A run of digits before a redirection is not empty. -/
theorem exists_cons_of_descriptor {digits after : List Char}
    (h : descriptor? s.rest = some (digits, after)) : ∃ c rest, s.rest = c :: rest := by
  obtain ⟨happend, hne, -⟩ := descriptor?_eq_some h
  refine List.exists_cons_of_ne_nil fun hnil => hne ?_
  rw [hnil] at happend
  exact (List.append_eq_nil_iff.1 happend).1

theorem reads_descriptor {digits after : List Char} {n : Int} {kind : TokenKind}
    (hdescriptor : descriptor? s.rest = some (digits, after))
    (hread : Text.readDecimal (String.ofList digits) = .ok n)
    (hkind : TokenKind.operator? after = some (kind, rest)) :
    s.Reads [⟨kind, kind.spelling, 0, some n.toNat, none⟩] rest := by
  obtain ⟨c, more, hs⟩ := exists_cons_of_descriptor hdescriptor
  rw [hs] at hdescriptor
  exact .of_step _ hs (step_descriptor s hdescriptor hread hkind) rfl rfl

/-- Digits that are no numeral are refused. -/
theorem run_descriptor {digits after : List Char} {cause : Text.IntegerError}
    (hdescriptor : descriptor? s.rest = some (digits, after))
    (hread : Text.readDecimal (String.ofList digits) = .error cause) :
    s.run = .error (.integer cause) := by
  obtain ⟨c, more, hs⟩ := exists_cons_of_descriptor hdescriptor
  rw [hs] at hdescriptor
  refine run_of_error hs ?_
  rw [step_digits s hdescriptor, hread]

/-- Two parentheses are read by `readParens`. -/
theorem step_parens (hmore : more.head? = some '(') :
    s.step '(' more = { s with rest := '(' :: more }.readParens more := by
  simp [step, hmore]

/-- They start an arithmetic command when they hold nothing else. -/
theorem reads_arithmetic {content expression : List Char} (hs : s.rest = '(' :: more)
    (hmore : more.head? = some '(')
    (hclose : Delimiter.close .paren more = .ok (content, rest))
    (hinner : Delimiter.close .paren content.tail = .ok (expression, [])) :
    s.Reads [⟨.arithmetic, String.ofList expression, 0, none, none⟩] rest := by
  refine .of_step (emit { s with line := s.line + content.count '\n', rest := rest }
    .arithmetic (String.ofList expression) none) hs ?_ rfl rfl
  rw [step_parens hmore, readParens, hclose]
  dsimp only
  rw [hinner]

/-- The first of them is an operator otherwise. -/
theorem reads_openParen {content : List Char} (hs : s.rest = '(' :: more)
    (hmore : more.head? = some '(')
    (hclose : Delimiter.close .paren more = .ok (content, rest))
    (hinner : ∀ expression, Delimiter.close .paren content.tail ≠ .ok (expression, [])) :
    s.Reads [⟨.openParen, "(", 0, none, none⟩] more := by
  refine .of_step (emit { s with rest := more } .openParen "(" none) hs ?_ rfl rfl
  rw [step_parens hmore, readParens, hclose]
  dsimp only
  split
  · next hfound => exact absurd hfound (hinner _)
  · rfl

/-- A word reaches up to what may end it. -/
theorem reads_word {c : Char} {word : List Char} (hs : s.rest = c :: word ++ rest)
    (hc : isMetacharacter c = false) (hpasses : Delimiter.Passes (c :: word))
    (hescape : (c == '\\' && (word ++ rest).head? == some '\n') = false) (hcomment : c ≠ '#')
    (hdescriptor : descriptor? s.rest = none) (hrest : ∀ x ∈ rest.head?, isMetacharacter x = true) :
    s.Reads [.ofWord 0 (String.ofList (c :: word))] rest := by
  have hs' : s.rest = c :: (word ++ rest) := hs
  have hback : { s with rest := c :: (word ++ rest) } = s := by rw [← hs']
  have hscan : Delimiter.scan isMetacharacter [] [] s.rest = .ok ((c :: word).reverse, rest) := by
    rw [hs, hpasses, List.append_nil]
    exact Delimiter.scan_stop _ hrest
  have hstep := s.step_word_of_descriptor hc (hs' ▸ hdescriptor) hescape hcomment
  rw [hback, readWord_of_scan _ _ hscan, List.reverse_reverse] at hstep
  obtain ⟨hbare, hbodies⟩ := noteDelimiter_bare s (c :: word)
  exact .of_step _ hs' hstep hbodies (congrArg (Token.ofWord 0 (String.ofList (c :: word)) :: ·) hbare)

end Scanner

/-! ## Putting an operand together -/

namespace Parser

/-- A word that does not close the test is a part of the operand. -/
theorem regexOperand_word (depth : Nat) (raw : String) {text : String} (h : text ≠ "]]")
    (tail : List Token) :
    regexOperand depth raw (.ofWord 0 text :: tail) = regexOperand depth (raw ++ text) tail := by
  rw [regexOperand.eq_def]
  simp [Token.ofWord, atWord, connective?, h]

theorem regexOperand_arithmetic (depth : Nat) (raw text : String) (tail : List Token) :
    regexOperand depth raw (⟨.arithmetic, text, 0, none, none⟩ :: tail) =
      regexOperand depth (raw ++ ("((" ++ text ++ "))")) tail := by
  rw [regexOperand.eq_def]
  simp [atWord, connective?, String.append_assoc]

/-- So is an operator, unless it is a parenthesis or ends the operand. -/
theorem regexOperand_operator {depth : Nat} {kind : TokenKind} (hline : kind ≠ .newline) (harithmetic : kind ≠ .arithmetic)
    (hword : kind ≠ .word) (hopen : kind ≠ .openParen) (hclose : kind ≠ .closeParen)
    (hends : ∀ op, kind = .connective op → depth ≠ 0) (raw text : String) (descriptor : Option Nat)
    (tail : List Token) :
    regexOperand depth raw (⟨kind, text, 0, descriptor, none⟩ :: tail) =
      regexOperand depth (raw ++ ((descriptor.map toString).getD "" ++ text)) tail := by
  have hgo : (depth == 0 && (atWord "]]" (⟨kind, text, 0, descriptor, none⟩ :: tail) ||
      (connective? ⟨kind, text, 0, descriptor, none⟩).isSome)) = false := by
    cases kind <;> simp_all [atWord, connective?]
  rw [regexOperand.eq_def]
  dsimp only
  rw [hgo, if_neg (by simpa using hline), if_neg (by exact Bool.false_ne_true),
    ← String.append_assoc]
  cases kind <;> first | rfl | contradiction

end Parser

/-- An operator is no word, no line end and no arithmetic command. -/
theorem TokenKind.operator?_kind {text rest : List Char} {kind : TokenKind}
    (h : operator? text = some (kind, rest)) :
    kind ≠ .newline ∧ kind ≠ .arithmetic ∧ kind ≠ .word := by
  unfold operator? at h
  split at h <;> cases h <;> exact ⟨nofun, nofun, nofun⟩

/-- A descriptor stands before a redirection. -/
theorem Scanner.redirect_of_descriptor {text digits after rest : List Char} {kind : TokenKind}
    (h : descriptor? text = some (digits, after))
    (hkind : TokenKind.operator? after = some (kind, rest)) : ∃ op, kind = .redirect op := by
  unfold descriptor? at h
  dsimp only at h
  split at h
  · next c after' hafter =>
    split at h
    · next hstands =>
      cases h
      rw [hafter] at hkind
      simp only [Bool.and_eq_true, Bool.or_eq_true, beq_iff_eq] at hstands
      unfold TokenKind.operator? at hkind
      rcases hstands.2 with rfl | rfl <;> split at hkind <;> cases hkind <;>
        first | exact ⟨_, rfl⟩ | simp_all
    · cases h
  · cases h

namespace OperandPiece

/-- **An operator** opens or closes a parenthesis, or is a part of the operand. -/
theorem exists_regexOperand_operator {depth : Nat} {text rest : List Char} {kind : TokenKind}
    (hkind : TokenKind.operator? text = some (kind, rest)) (h : closesFrom depth text = true) :
    ∃ depth', closesFrom depth' rest = true ∧ ∀ raw tail,
      Parser.regexOperand depth raw (⟨kind, kind.spelling, 0, none, none⟩ :: tail) =
        Parser.regexOperand depth' (raw ++ kind.spelling) tail := by
  obtain ⟨hline, harithmetic, hword⟩ := TokenKind.operator?_kind hkind
  obtain rfl := TokenKind.operator?_append hkind
  by_cases hopen : kind = .openParen
  · subst hopen
    refine ⟨depth + 1, by simpa [TokenKind.spelling, closesFrom] using h, fun raw tail => ?_⟩
    rw [Parser.regexOperand.eq_def]
    simp [Parser.atWord, Parser.connective?]
  by_cases hclose : kind = .closeParen
  · subst hclose
    cases depth with
    | zero => simp [TokenKind.spelling, closesFrom] at h
    | succ depth =>
      refine ⟨depth, by simpa [TokenKind.spelling, closesFrom] using h, fun raw tail => ?_⟩
      rw [Parser.regexOperand.eq_def]
      simp [Parser.atWord, Parser.connective?]
  · refine ⟨depth, closesFrom_append h fun c hc => ?_, fun raw tail => ?_⟩
    · have huncounted := Scanner.spelling_uncounted kind hopen hclose c hc
      constructor <;> (rintro rfl; exact huncounted (by decide))
    · rw [Parser.regexOperand_operator hline harithmetic hword hopen hclose ?_]
      · simp
      · rintro op rfl rfl
        cases op <;> simp [TokenKind.spelling, Connective.spelling, closesFrom] at h

/-! ## Reading an operand -/

/-- The text that pieces are put together to. -/
def respelling (pieces : List OperandPiece) : Except Text.IntegerError (List Char) :=
  (pieces.mapM respelled).map List.flatten

theorem respelling_cons (p : OperandPiece) (pieces : List OperandPiece) :
    respelling (p :: pieces) =
      p.respelled.bind fun written => (respelling pieces).map (written ++ ·) := by
  unfold respelling
  rw [List.mapM_cons]
  cases p.respelled with
  | error => rfl
  | ok written => cases pieces.mapM respelled <;> rfl

/-- **How a text is read** up to its rest, with some parentheses open before it and some after it: as
so many tokens, which are put together to another text. Or a numeral is refused. -/
def ReadAs (depth : Nat) (text : List Char) (depth' : Nat) (rest : List Char) (count : Nat) :
    Except Text.IntegerError (List Char) → Prop
  | .error cause => Scanner.Refuses text (.integer cause)
  | .ok written => ∃ tokens : List Token, tokens.length = count ∧
      (∀ (s : Scanner) (more : List Char), s.rest = text ++ ' ' :: more →
        s.Reads tokens (rest ++ ' ' :: more)) ∧
      ∀ raw tail, Parser.regexOperand depth raw (tokens ++ tail) =
        Parser.regexOperand depth' (raw ++ String.ofList written) tail

/-- A text is read as its first piece is and then as the rest of it. -/
theorem ReadAs.cons {depth depth' : Nat} {text rest : List Char} {p : OperandPiece}
    {pieces : List OperandPiece}
    (hfirst : ReadAs depth text depth' rest (if p.isToken then 1 else 0) p.respelled)
    (hrest : ReadAs depth' rest 0 [] (pieces.countP isToken) (respelling pieces)) :
    ReadAs depth text 0 [] ((p :: pieces).countP isToken) (respelling (p :: pieces)) := by
  rw [respelling_cons]
  cases hp : p.respelled with
  | error cause =>
    rw [hp] at hfirst
    exact hfirst
  | ok written =>
    rw [hp] at hfirst
    obtain ⟨tokens, hcount, hreads, hoperand⟩ := hfirst
    cases hpieces : respelling pieces with
    | error cause =>
      rw [hpieces] at hrest
      intro s more hs
      obtain ⟨next, hgoes, hnext⟩ := hreads s more hs
      exact hgoes.run.trans (hrest next more hnext)
    | ok later =>
      rw [hpieces] at hrest
      obtain ⟨tokens', hcount', hreads', hoperand'⟩ := hrest
      refine ⟨tokens ++ tokens', ?_, fun s more hs => (hreads s more hs).trans fun next hnext =>
        hreads' next more hnext, fun raw tail => ?_⟩
      · rw [List.length_append, hcount, hcount', List.countP_cons, Nat.add_comm]
      · rw [List.append_assoc, hoperand, hoperand', String.append_assoc, ← String.ofList_append]

/-- A piece that is written as it stands is one token. -/
theorem ReadAs.token {depth depth' : Nat} {text rest written : List Char} (t : Token)
    (hreads : ∀ (s : Scanner) (more : List Char), s.rest = text ++ ' ' :: more →
      s.Reads [t] (rest ++ ' ' :: more))
    (hoperand : ∀ raw tail, Parser.regexOperand depth raw (t :: tail) =
      Parser.regexOperand depth' (raw ++ String.ofList written) tail) :
    ReadAs depth text depth' rest 1 (.ok written) :=
  ⟨[t], rfl, hreads, hoperand⟩

theorem readAs_blank (depth : Nat) {c : Char} (hc : (c == ' ' || c == '\t') = true)
    (rest : List Char) : ReadAs depth (c :: rest) depth rest 0 (respelled (.blank c)) :=
  ⟨[], rfl, fun _ _ hs => Scanner.reads_blank hc hs, fun raw tail => by simp⟩

/-- **The parenthesis that a text starts with closes** in it, whatever follows. -/
theorem exists_close_paren {depth : Nat} {text : List Char}
    (h : closesFrom depth ('(' :: text) = true) (hchars : ∀ c ∈ text, c ∉ Delimiter.marks) :
    ∃ content after, closesFrom depth after = true ∧
      ∀ more, Delimiter.close .paren (text ++ more) = .ok (content, after ++ more) := by
  have hinside : closesFrom (depth + 1) text = true := by simpa [closesFrom] using h
  obtain ⟨content, after, rfl, hbalanced, hafter⟩ := exists_close hinside hchars
  refine ⟨content, after, hafter, fun more => ?_⟩
  rw [List.append_assoc, List.cons_append, hbalanced.close]

/-- **Two pairs of parentheses** that hold nothing else are one token. -/
theorem readAs_doubled {depth : Nat} {text inner after : List Char}
    (hdoubled : doubled? text = some (inner, after)) (h : closesFrom depth text = true)
    (hchars : ∀ c ∈ text, c ∉ Delimiter.marks) :
    closesFrom depth after = true ∧ ReadAs depth text depth after 1 (respelled (.doubled inner)) := by
  obtain ⟨happend, content, hclose, hinner⟩ := doubled?_append hdoubled
  obtain ⟨more, rfl⟩ : ∃ more, text = '(' :: '(' :: more := ⟨_, happend.symm⟩
  obtain ⟨content', after', hafter, hclosed⟩ :=
    exists_close_paren h fun c hc => hchars c (List.mem_cons_of_mem _ hc)
  have hsame := hclosed []
  rw [List.append_nil, List.append_nil] at hsame
  obtain ⟨rfl, rfl⟩ := Prod.mk.inj (Except.ok.inj (hclose.symm.trans hsame))
  refine ⟨hafter, .token ⟨.arithmetic, String.ofList inner, 0, none, none⟩
    (fun s rest hs => Scanner.reads_arithmetic hs rfl (hclosed _) hinner) fun raw tail => ?_⟩
  have hsource : "((" ++ String.ofList inner ++ "))" = String.ofList (doubled inner).source :=
    String.toList_inj.1 (by simp [source])
  rw [Parser.regexOperand_arithmetic, hsource]

/-- Other parentheses are operators. -/
theorem reads_openParen_of_doubled {depth : Nat} {rest : List Char}
    (hdoubled : doubled? ('(' :: '(' :: rest) = none)
    (h : closesFrom depth ('(' :: '(' :: rest) = true)
    (hchars : ∀ c ∈ '(' :: rest, c ∉ Delimiter.marks) {s : Scanner} {more : List Char}
    (hs : s.rest = '(' :: '(' :: (rest ++ more)) :
    s.Reads [⟨.openParen, "(", 0, none, none⟩] ('(' :: (rest ++ more)) := by
  obtain ⟨content, after, -, hclosed⟩ := exists_close_paren h hchars
  refine Scanner.reads_openParen hs rfl (hclosed more) fun expression hinner => ?_
  have hclose := hclosed []
  rw [List.append_nil, List.append_nil] at hclose
  rw [doubled?, hclose] at hdoubled
  dsimp only at hdoubled
  rw [hinner] at hdoubled
  cases hdoubled

theorem readAs_plainOperator {depth : Nat} {c : Char} {rest after : List Char} {kind : TokenKind}
    (hdoubled : doubled? (c :: rest) = none)
    (hkind : TokenKind.operator? (c :: rest) = some (kind, after))
    (h : closesFrom depth (c :: rest) = true) (hchars : ∀ x ∈ c :: rest, x ∉ Delimiter.marks) :
    ∃ depth', closesFrom depth' after = true ∧
      ReadAs depth (c :: rest) depth' after 1 (respelled (.operator [] kind)) := by
  obtain ⟨depth', hafter, hoperand⟩ := exists_regexOperand_operator hkind h
  have hwritten : respelled (.operator [] kind) = .ok kind.spelling.toList := by
    simp [respelled, respelledDigits, Except.map]
  refine ⟨depth', hafter, hwritten ▸ .token ⟨kind, kind.spelling, 0, none, none⟩
    (fun s more hs => ?_) fun raw tail => by rw [hoperand, String.ofList_toList]⟩
  by_cases hparens : c = '(' ∧ rest.head? = some '('
  · obtain ⟨rfl, hhead⟩ := hparens
    obtain ⟨rest, rfl⟩ := List.head?_eq_some_iff.1 hhead
    cases hkind
    exact reads_openParen_of_doubled hdoubled h
      (fun x hx => hchars x (List.mem_cons_of_mem _ hx)) hs
  · have hended : TokenKind.operator? (c :: rest ++ ' ' :: more) = _ :=
      TokenKind.operator?_ended (by decide) (c :: rest)
    rw [hkind] at hended
    refine Scanner.reads_operator hs hended ?_
    cases rest <;> simp_all

/-- A descriptor is written as its number. -/
theorem readAs_descriptor {depth : Nat} {text ds operator after : List Char} {kind : TokenKind}
    (hdescriptor : Scanner.descriptor? text = some (ds, operator))
    (hkind : TokenKind.operator? operator = some (kind, after)) (h : closesFrom depth text = true) :
    closesFrom depth after = true ∧
      ReadAs depth text depth after 1 (respelled (.operator ds kind)) := by
  obtain ⟨op, rfl⟩ := Scanner.redirect_of_descriptor hdescriptor hkind
  obtain ⟨happend, hne, hdigits⟩ := Scanner.descriptor?_eq_some hdescriptor
  have hended (more : List Char) : Scanner.descriptor? (text ++ ' ' :: more) = _ :=
    Scanner.descriptor?_ended (Text.isDigit_of_ascii (by decide)) (by decide) (by decide) text
  have hended' (more : List Char) : TokenKind.operator? (operator ++ ' ' :: more) = _ :=
    TokenKind.operator?_ended (by decide) operator
  rw [hdescriptor] at hended
  rw [hkind] at hended'
  constructor
  · rw [← happend, ← TokenKind.operator?_append hkind, ← List.append_assoc] at h
    refine closesFrom_append h fun x hx => ?_
    have huncounted : x ∉ countedChars := (List.mem_append.1 hx).elim
      (fun hx => Scanner.digit_uncounted (hdigits x hx))
      (Scanner.spelling_uncounted (.redirect op) nofun nofun x)
    constructor <;> (rintro rfl; exact huncounted (by decide))
  · rw [respelled, respelledDigits, if_neg (by simpa using hne)]
    cases hread : Text.readDecimal (String.ofList ds) with
    | error cause =>
      exact fun s more hs => Scanner.run_descriptor (hs ▸ hended more) hread
    | ok n =>
      refine .token ⟨.redirect op, (TokenKind.redirect op).spelling, 0, some n.toNat, none⟩
        (fun s more hs => Scanner.reads_descriptor (hs ▸ hended more) hread (hended' more))
        fun raw tail => ?_
      have hput := @Parser.regexOperand_operator depth (.redirect op) nofun nofun nofun nofun nofun
        nofun raw
      rw [hput]
      simp only [Option.map_some, Option.getD_some, String.ofList_append, String.ofList_toList]

/-- **An operator** is one token. -/
theorem readAs_operator {depth : Nat} {c : Char} {rest after : List Char} {kind : TokenKind}
    (hdoubled : doubled? (c :: rest) = none)
    (hkind : TokenKind.operator? (digits (c :: rest)).2 = some (kind, after))
    (h : closesFrom depth (c :: rest) = true) (hchars : ∀ x ∈ c :: rest, x ∉ Delimiter.marks) :
    ∃ depth', closesFrom depth' after = true ∧
      ReadAs depth (c :: rest) depth' after 1 (respelled (.operator (digits (c :: rest)).1 kind)) := by
  cases hdescriptor : Scanner.descriptor? (c :: rest) with
  | none =>
    have hdigits : digits (c :: rest) = ([], c :: rest) := by rw [digits, hdescriptor]; rfl
    rw [hdigits] at hkind ⊢
    exact readAs_plainOperator hdoubled hkind h hchars
  | some found =>
    have hdigits : digits (c :: rest) = found := by rw [digits, hdescriptor]; rfl
    rw [hdigits] at hkind ⊢
    exact ⟨depth, readAs_descriptor hdescriptor hkind h⟩

/-- Without an operator after them digits are no descriptor. -/
theorem descriptor?_eq_none {text : List Char} (h : TokenKind.operator? (digits text).2 = none) :
    Scanner.descriptor? text = none := by
  cases hfound : Scanner.descriptor? text with
  | none => rfl
  | some found =>
    obtain ⟨kind, after, hoperator⟩ := Scanner.operator?_of_descriptor hfound
    rw [digits, hfound, Option.getD_some, hoperator] at h
    cases h

/-- A word ends in front of a character that ends words. -/
theorem isMetacharacter_of_mem_head? {text : List Char} {x : Char}
    (h : x ∈ (text.dropWhile (!isMetacharacter ·)).head?) : isMetacharacter x = true := by
  have hstop := List.head?_dropWhile_not (!isMetacharacter ·) text
  rw [Option.mem_def.1 h] at hstop
  simpa using hstop

/-- **A word** is one token. -/
theorem readAs_word {depth : Nat} {c : Char} {rest : List Char}
    (hblank : ¬ (c == ' ' || c == '\t') = true)
    (hkind : TokenKind.operator? (digits (c :: rest)).2 = none)
    (h : closesFrom depth (c :: rest) = true)
    (hchars : ∀ x ∈ c :: rest, x ∉ Delimiter.marks ∧ x ≠ '#' ∧ x ≠ '\n')
    (hbrackets : c :: rest.takeWhile (!isMetacharacter ·) ≠ [']', ']']) :
    closesFrom depth (rest.dropWhile (!isMetacharacter ·)) = true ∧
      ReadAs depth (c :: rest) depth (rest.dropWhile (!isMetacharacter ·)) 1
        (respelled (.word (c :: rest.takeWhile (!isMetacharacter ·)))) := by
  have hdescriptor := descriptor?_eq_none hkind
  have hdigits : digits (c :: rest) = ([], c :: rest) := by rw [digits, hdescriptor]; rfl
  rw [hdigits] at hkind
  have hc : isMetacharacter c = false := by
    simp only [Bool.or_eq_true, beq_iff_eq, not_or] at hblank
    exact TokenKind.not_metacharacter_of_operator?_eq_none hkind hblank.1 hblank.2
      (hchars c List.mem_cons_self).2.2
  have hword : ∀ x ∈ c :: rest.takeWhile (!isMetacharacter ·),
      isMetacharacter x = false ∧ x ∉ Delimiter.marks := by
    refine List.forall_mem_cons.2 ⟨⟨hc, (hchars c List.mem_cons_self).1⟩, fun x hx => ⟨?_, ?_⟩⟩
    · simpa using List.all_eq_true.1 List.all_takeWhile x hx
    · exact (hchars x (List.mem_cons_of_mem _ ((List.takeWhile_sublist _).subset hx))).1
  have hrest := List.takeWhile_append_dropWhile (p := (!isMetacharacter ·)) (l := rest)
  constructor
  · rw [← hrest, ← List.cons_append] at h
    refine closesFrom_append h fun x hx => ?_
    have hother := (hword x hx).1
    constructor <;> (rintro rfl; cases hother)
  · refine .token (.ofWord 0 (String.ofList (c :: rest.takeWhile (!isMetacharacter ·))))
      (fun s more hs => ?_) fun raw tail => Parser.regexOperand_word depth raw ?_ tail
    · have hescape : c ≠ '\\' := by
        rintro rfl
        exact (hchars _ List.mem_cons_self).1 (by decide)
      refine Scanner.reads_word ?_ hc (Delimiter.passes_of_plain hword) (by simp [hescape])
        (hchars c List.mem_cons_self).2.1 ?_ ?_
      · rw [hs, List.cons_append, List.cons_append, ← List.append_assoc, hrest]
      · have hended : Scanner.descriptor? (c :: rest ++ ' ' :: more) = _ :=
          Scanner.descriptor?_ended (Text.isDigit_of_ascii (by decide)) (by decide) (by decide) _
        rw [hs, hended, hdescriptor]
        rfl
      · intro x hx
        cases hdrop : rest.dropWhile (!isMetacharacter ·) with
        | nil =>
          rw [hdrop] at hx
          cases hx
          rfl
        | cons y tail =>
          rw [hdrop] at hx
          cases hx
          exact isMetacharacter_of_mem_head? (by rw [hdrop]; rfl)
    · exact fun heq => hbrackets (by simpa using congrArg String.toList heq)

/-- **An operand is read** as the tokens of its pieces, which are put together as they are written. -/
theorem readAs_cut {depth : Nat} {text : List Char} (h : closesFrom depth text = true)
    (hchars : ∀ c ∈ text, c ∉ Delimiter.marks ∧ c ≠ '#' ∧ c ≠ '\n')
    (hbrackets : .word [']', ']'] ∉ cut text) :
    ReadAs depth text 0 [] ((cut text).countP isToken) (respelling (cut text)) := by
  have hmarks {text : List Char} (hchars : ∀ c ∈ text, c ∉ Delimiter.marks ∧ c ≠ '#' ∧ c ≠ '\n') :
      ∀ c ∈ text, c ∉ Delimiter.marks := fun c hc => (hchars c hc).1
  fun_induction cut text generalizing depth with
  | case1 =>
    obtain rfl : depth = 0 := by simpa [closesFrom] using h
    exact ⟨[], rfl, fun s more hs => ⟨s, .refl s, hs⟩, fun raw tail => by simp⟩
  | case2 c rest hblank ih =>
    have hrest : closesFrom depth rest = true :=
      closesFrom_skip h (by rintro rfl; cases hblank) (by rintro rfl; cases hblank)
    exact (readAs_blank depth hblank rest).cons (ih hrest
      (fun x hx => hchars x (List.mem_cons_of_mem _ hx)) fun hmem => hbrackets (.tail _ hmem))
  | case3 c rest hblank inner after hdoubled hlt ih =>
    obtain ⟨hafter, hread⟩ := readAs_doubled hdoubled h (hmarks hchars)
    have hsuffix : after <:+ c :: rest := ⟨_, (doubled?_append hdoubled).1⟩
    exact hread.cons (ih hafter (fun x hx => hchars x (hsuffix.subset hx))
      fun hmem => hbrackets (.tail _ hmem))
  | case4 c rest hblank hdoubled kind after hkind hlt hle ih =>
    obtain ⟨depth', hafter, hread⟩ := readAs_operator hdoubled hkind h (hmarks hchars)
    have hsuffix : after <:+ c :: rest := by
      refine List.IsSuffix.trans ?_ ⟨_, digits_append (c :: rest)⟩
      exact ⟨_, TokenKind.operator?_append hkind⟩
    exact hread.cons (ih hafter (fun x hx => hchars x (hsuffix.subset hx))
      fun hmem => hbrackets (.tail _ hmem))
  | case5 c rest hblank hdoubled hkind hle ih =>
    have hword : c :: rest.takeWhile (!isMetacharacter ·) ≠ [']', ']'] := fun heq =>
      hbrackets (heq ▸ List.mem_cons_self)
    obtain ⟨hafter, hread⟩ := readAs_word hblank hkind h hchars hword
    have hsuffix : rest.dropWhile (!isMetacharacter ·) <:+ c :: rest :=
      (List.dropWhile_suffix _).trans (List.suffix_cons _ _)
    exact hread.cons (ih hafter (fun x hx => hchars x (hsuffix.subset hx))
      fun hmem => hbrackets (.tail _ hmem))

end OperandPiece

end VirtualShell
