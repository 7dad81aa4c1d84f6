import Mathlib.Data.List.Forall2
import VirtualShell.Proofs.Glob.Literal
import VirtualShell.Proofs.Quoting.Quotation
import VirtualShell.Proofs.Reading.Token
import VirtualShell.Proofs.Step.Basic

/-!
# A line of quoted texts is a command

Texts in quotes with single spaces between them are as many words, whatever the texts are: no
character of a text ends its word, and none starts a here-document or a comment. The words are read
as one simple command, and they expand to the texts again, whatever the state of the shell is.
Nothing in a text can add a word to the command or anything else to the script.

* `Quotation.line` — texts in quotes on a line.
* `Scanner.run_quote` — a quoted text is taken off the line as one word.
* `Quotation.tokens_line` — the tokens of the line are its words.
* `Word.Spells` — the pieces of a word stand for a text.
* `Parser.simpleCommand_words` — quoted texts are read as one simple command.
* `Word.Spells.fields_apply` — a word that spells a text expands to this text.
* **`Quotation.line_isSafe`** — a line of quoted texts means the texts.
-/

namespace VirtualShell

/-! ## Lines -/

/-- A quoted text, which is a word of a line. -/
abbrev QuotedText := Quotation × String

namespace QuotedText

/-- The word. -/
def word (t : QuotedText) : String := t.1.quote t.2

end QuotedText

/-- **Texts in quotes** with single spaces between them. -/
def Quotation.line (texts : List QuotedText) : String := " ".intercalate (texts.map QuotedText.word)

/-! ## Tokens -/

namespace Scanner

/-- A token that is a word and no more. -/
def IsWord (t : Token) : Prop := t.kind = .word ∧ t.hereDocument = none

/-- After words no here-document is due. -/
theorem noteDelimiter_of_words {s : Scanner} (h : ∀ t ∈ s.tokens, IsWord t) (word : List Char) :
    s.noteDelimiter word = s := by
  unfold noteDelimiter
  split
  · next op text line fd doc earlier htokens =>
    have hkind := (h _ (htokens ▸ List.mem_cons_self)).1
    cases hkind
  · rfl

/-- What starts with a quote is a word. -/
theorem step_mark (s : Scanner) (q : Quotation) (rest : List Char) :
    s.step q.mark rest = { s with rest := q.mark :: rest }.readWord := by
  have hdigit : Text.isDigit q.mark = false := by
    cases q <;> exact Text.isDigit_of_ascii (by decide)
  cases q <;> exact step_word s rfl hdigit (by decide) (by decide)

/-- The token of a quoted text. -/
def wordToken (text : QuotedText) (line : Nat) : Token := ⟨.word, text.word, line, none, none⟩

/-- **A quoted text is one word**, up to the end of the text or to a character that ends words. -/
theorem run_quote {s : Scanner} (h : ∀ t ∈ s.tokens, IsWord t) (text : QuotedText)
    {tail : List Char} (hs : s.rest = text.word.toList ++ tail)
    (htail : ∀ c ∈ tail.head?, isMetacharacter c = true) : ∃ line, s.run = run { s with
      rest := tail, line := line, tokens := wordToken text s.line :: s.tokens } := by
  obtain ⟨q, text⟩ := text
  have hchars : s.rest = q.chars text.toList ++ tail := by
    simpa [QuotedText.word, Quotation.quote] using hs
  have hscan : Delimiter.scan isMetacharacter [] [] s.rest =
      .ok ((q.chars text.toList).reverse, tail) := by
    rw [hchars, Quotation.scan_quote, List.append_nil]
    exact Delimiter.scan_stop _ htail
  have hread : s.readWord = .ok { s with
      rest := tail
      line := s.line + (q.chars text.toList).reverse.count '\n'
      tokens := wordToken (q, text) s.line :: s.tokens } := by
    simp only [readWord, hscan, List.reverse_reverse, noteDelimiter_of_words h]
    rfl
  refine ⟨s.line + (q.chars text.toList).reverse.count '\n', run_of_step hchars ?_⟩
  rw [step_mark, ← hread]
  exact congrArg readWord (congrArg (fun rest => { s with rest := rest }) hchars.symm)

/-- The tokens of quoted texts. -/
def Spells (tokens : List Token) (texts : List QuotedText) : Prop :=
  List.Forall₂ (fun t text => IsWord t ∧ t.text = text.word) tokens texts

/-- **The tokens of a line** are its words, whatever the texts are. -/
theorem run_line (texts : List QuotedText) (s : Scanner) (h : ∀ t ∈ s.tokens, IsWord t)
    (hs : s.rest = (Quotation.line texts).toList) : ∃ line tokens, Spells tokens texts ∧
      s.run = .ok { s with rest := [], line := line, tokens := tokens.reverse ++ s.tokens } := by
  induction texts generalizing s with
  | nil =>
    have hrest : s.rest = [] := by simpa [Quotation.line] using hs
    refine ⟨s.line, [], .nil, ?_⟩
    rw [run_of_nil hrest]
    exact congrArg Except.ok (congrArg (fun rest => ({ s with rest := rest } : Scanner)) hrest)
  | cons text texts ih =>
    have htokens : ∀ t ∈ wordToken text s.line :: s.tokens, IsWord t := by
      intro t ht
      rcases List.mem_cons.1 ht with rfl | ht
      · exact ⟨rfl, rfl⟩
      · exact h t ht
    -- After the last text the line ends, after every other one a blank ends the word.
    cases texts with
    | nil =>
      have hrest : s.rest = text.word.toList ++ [] := by simpa [Quotation.line] using hs
      obtain ⟨line, hrun⟩ := run_quote h text hrest nofun
      refine ⟨line, [wordToken text s.line], .cons ⟨⟨rfl, rfl⟩, rfl⟩ .nil, ?_⟩
      rw [hrun]
      exact run_of_nil rfl
    | cons next texts =>
      have hrest : s.rest = text.word.toList ++ ' ' :: (Quotation.line (next :: texts)).toList := by
        simpa [Quotation.line, String.intercalate_cons_cons] using hs
      obtain ⟨line, hrun⟩ := run_quote h text hrest (by simp [isMetacharacter])
      obtain ⟨lastLine, tokens, hspells, hlast⟩ := ih { s with
        rest := (Quotation.line (next :: texts)).toList
        line := line
        tokens := wordToken text s.line :: s.tokens } htokens rfl
      refine ⟨lastLine, wordToken text s.line :: tokens, .cons ⟨⟨rfl, rfl⟩, rfl⟩ hspells, ?_⟩
      rw [hrun, run_blank rfl, hlast]
      simp

end Scanner

/-- **The tokens of a line.** -/
theorem Quotation.tokens_line (texts : List QuotedText) : ∃ line tokens,
    Scanner.Spells tokens texts ∧
      TokenStream.ofText (Quotation.line texts) = .ok ⟨tokens, line⟩ := by
  obtain ⟨line, tokens, hspells, hrun⟩ :=
    Scanner.run_line texts ⟨(Quotation.line texts).toList, 1, [], [], []⟩ nofun rfl
  refine ⟨line, tokens, hspells, ?_⟩
  rw [TokenStream.ofText, hrun]
  simp [attachBodies_nil]

/-! ## Words -/

/-- **A word that stands for a text**: its pieces are quoted, and there is one at least. -/
def Word.Spells (word : Word) (text : String) : Prop :=
  ∃ texts, Part.Verbatim false word.parts texts ∧ texts ≠ [] ∧
    texts.flatMap String.toList = text.toList

/-- Words that stand for some quoted texts. -/
def Word.AllSpell (words : List Word) (texts : List QuotedText) : Prop :=
  List.Forall₂ (fun word text => word.Spells text.2) words texts

/-- A quoted text starts with a quote. -/
theorem QuotedText.head?_word (text : QuotedText) : text.word.toList.head? = some text.1.mark := by
  simp [word, Quotation.quote, Quotation.chars]

/-- So it is none of the words that mean something to the parser. -/
theorem QuotedText.word_ne (text : QuotedText) {other : String}
    (h : ∀ q : Quotation, other.toList.head? ≠ some q.mark) : text.word ≠ other := by
  intro heq
  have hhead := text.head?_word
  rw [heq] at hhead
  exact h text.1 hhead

/-- It assigns to no variable. -/
theorem QuotedText.readAssignment?_word (text : QuotedText) :
    readAssignment? text.word = none := by
  have hstart : Text.isNameStart text.1.mark = false := by
    cases text.1 <;> decide
  have hname : takeName text.word.toList = none := by
    have hhead := text.head?_word
    unfold takeName
    split
    · next c rest hchars =>
      rw [hchars] at hhead
      cases hhead
      exact if_neg (by simp [hstart])
    · rfl
  rw [readAssignment?, hname]

/-! ## Commands -/

/-- A reader that goes on after another one. -/
theorem Reader.bind_apply {ε τ α β : Type} (read : Reader ε τ α) (f : α → Reader ε τ β)
    (items : List τ) : (read >>= f) items =
      match read items with
      | Except.error e => Except.error e
      | Except.ok (a, ⟨rest, h⟩) =>
        match f a rest with
        | Except.error e => Except.error e
        | Except.ok (b, ⟨rest', h'⟩) => Except.ok (b, ⟨rest', Nat.le_trans h' h⟩) :=
  rfl

theorem Reader.pure_apply {ε τ α : Type} (a : α) (items : List τ) :
    (pure a : Reader ε τ α) items = Except.ok (a, .all items) :=
  rfl

namespace Parser

/-- A parser of commands whose words are read with some levels left. -/
structure ReadsQuotes (p : Parser) : Prop where
  levels : ∃ n, p.lower = .ofDepth (n + 2)

variable {p : Parser}

theorem word_quoted (hp : p.ReadsQuotes) (text : QuotedText) : ∃ word : Word, word.Spells text.2 ∧
    ∀ tokens, p.word text.word tokens = .ok (word, ⟨tokens, Nat.le_refl _⟩) := by
  obtain ⟨n, hlower⟩ := hp.levels
  obtain ⟨parts, texts, hparts, hverbatim, hne, hspell⟩ :=
    Quotation.parts_quote text.1 n text.2.toList
  refine ⟨⟨parts, text.word⟩, ⟨texts, hverbatim, hne, hspell⟩, fun tokens => ?_⟩
  have hchars : text.word.toList = text.1.chars text.2.toList := by
    simp [QuotedText.word, Quotation.quote]
  simp only [Parser.word, hlower, hchars, hparts]
  rfl

/-- **After a name every quoted text is an argument.** -/
theorem loop_words (hp : p.ReadsQuotes) {tokens start : List Token} {texts : List QuotedText}
    (h : Scanner.Spells tokens texts) (c : SimpleCommand) {name : Word} (hname : c.name = some name)
    (hle : tokens.length ≤ start.length) : ∃ words, Word.AllSpell words texts ∧
      Reader.loop p.simpleItem c (⟨tokens, hle⟩ : Tail start) =
        .ok ({ c with args := words.reverse ++ c.args }, ⟨[], Nat.zero_le _⟩) := by
  induction h generalizing c with
  | nil =>
    refine ⟨[], .nil, ?_⟩
    rw [Reader.loop]
    cases c
    rfl
  | @cons t text tokens texts ht _ ih =>
    obtain ⟨⟨hkind, -⟩, htext⟩ := ht
    obtain ⟨word, hspell, hword⟩ := word_quoted hp text
    have hitem : p.simpleItem c t = some (p.addWord c text.word) := by
      simp only [simpleItem, hkind, htext]
    have hadd : p.addWord c text.word tokens =
        .ok ({ c with args := word :: c.args }, ⟨tokens, Nat.le_refl _⟩) := by
      simp only [addWord, hname, Reader.bind_apply, hword, Reader.pure_apply]
      rfl
    obtain ⟨words, hwords, hloop⟩ := ih { c with args := word :: c.args } hname
      (Nat.le_of_succ_le hle)
    refine ⟨word :: words, .cons hspell hwords, ?_⟩
    rw [Reader.loop]
    simp only [hitem, hadd, hloop]
    simp

/-- The command of some words. -/
def commandOf (name : Word) (args : List Word) (line : Nat) : Command :=
  .simple ⟨[], some name, args, [], line⟩

/-- **Quoted texts are one simple command**: the first one is its name and the others are its
arguments. -/
theorem simpleCommand_words (hp : p.ReadsQuotes) {t : Token} {tokens : List Token}
    {text : QuotedText} {texts : List QuotedText} (ht : t.kind = .word ∧ t.text = text.word)
    (h : Scanner.Spells tokens texts) : ∃ name args, Word.AllSpell (name :: args) (text :: texts) ∧
      p.simpleCommand t tokens = .ok (commandOf name args t.line, ⟨[], Nat.zero_le _⟩) := by
  obtain ⟨name, hname, hword⟩ := word_quoted hp text
  have hassignment := text.readAssignment?_word
  have hitem : p.simpleItem ⟨[], none, [], [], t.line⟩ t =
      some (p.addWord ⟨[], none, [], [], t.line⟩ text.word) := by
    simp only [simpleItem, ht.1, ht.2]
  have hadd : p.addWord ⟨[], none, [], [], t.line⟩ text.word tokens =
      .ok (⟨[], some name, [], [], t.line⟩, ⟨tokens, Nat.le_refl _⟩) := by
    simp only [addWord, hassignment, Reader.bind_apply, hword, Reader.pure_apply]
    rfl
  obtain ⟨args, hargs, hloop⟩ :=
    loop_words hp h ⟨[], some name, [], [], t.line⟩ rfl (Nat.le_refl tokens.length)
  refine ⟨name, args, .cons hname hargs, ?_⟩
  rw [simpleCommand, hitem, Option.getD_some, Reader.bind_apply, hadd]
  simp only [Reader.bind_apply, Reader.repeatFrom, Tail.all, hloop, Reader.pure_apply]
  simp [commandOf]

/-- A quoted text starts no compound command, since a keyword stands without quotes. -/
theorem keywordCommand?_quoted {t : Token} (text : QuotedText) (htext : t.text = text.word) :
    p.keywordCommand? t = none := by
  unfold keywordCommand?
  rw [htext]
  split
  all_goals first
    | rfl
    | exact absurd ‹text.word = _› (text.word_ne (by intro q; cases q <;> decide))

theorem not_misplaced_quoted (text : QuotedText) :
    misplacedKeywords.contains text.word = false := by
  have hheads : ∀ keyword ∈ misplacedKeywords, ∀ q : Quotation,
      keyword.toList.head? ≠ some q.mark := by
    intro keyword hkeyword q
    revert keyword
    cases q <;> decide
  rw [Bool.eq_false_iff]
  intro hcontains
  exact text.word_ne (hheads _ (List.contains_iff_mem.1 hcontains)) rfl

/-- **A command of quoted texts** takes all of them. -/
theorem command_words (hp : p.ReadsQuotes) {t : Token} {tokens : List Token} {text : QuotedText}
    {texts : List QuotedText} (h : Scanner.Spells (t :: tokens) (text :: texts)) :
    ∃ name args, Word.AllSpell (name :: args) (text :: texts) ∧
      p.command (t :: tokens) = .ok (commandOf name args t.line, ⟨[], Nat.zero_lt_succ _⟩) := by
  cases h with
  | cons ht hrest =>
    obtain ⟨⟨hkind, -⟩, htext⟩ := ht
    obtain ⟨name, args, hwords, hcommand⟩ := simpleCommand_words hp ⟨hkind, htext⟩ hrest
    have hkeyword : p.keywordCommand? t = none := keywordCommand?_quoted text htext
    have hmisplaced : misplacedKeywords.contains t.text = false := by
      rw [htext]
      exact not_misplaced_quoted text
    have hafter : p.commandAfter t tokens = p.simpleCommand t := by
      unfold commandAfter
      simp only [hkind, hkeyword, hmisplaced, Bool.false_eq_true, if_false]
      split
      · cases hrest with
        | cons hnext _ => cases hnext.1.1
      · rfl
    refine ⟨name, args, hwords, ?_⟩
    rw [command, hafter]
    simp only [hcommand]

/-- A statement of one command. -/
def statementOf (command : Command) : Statement := ⟨⟨[command], false⟩, [], false⟩

section

variable (n lastLine : Nat) {t : Token} {tokens : List Token} {text : QuotedText}
  {texts : List QuotedText}

theorem pipeline_words (h : Scanner.Spells (t :: tokens) (text :: texts)) :
    ∃ name args, Word.AllSpell (name :: args) (text :: texts) ∧
      pipeline ⟨.ofDepth (n + 3), lastLine⟩ false (t :: tokens) =
        .ok (⟨[commandOf name args t.line], false⟩, ⟨[], Nat.zero_lt_succ _⟩) := by
  obtain ⟨name, args, hwords, hcommand⟩ :=
    command_words (p := ⟨.ofDepth (n + 2), lastLine⟩) ⟨n, rfl⟩ h
  have hnegation : (t.kind == .word && t.text == "!") = false := by
    cases h with
    | cons ht _ =>
      have hne : text.word ≠ "!" := text.word_ne (by intro q; cases q <;> decide)
      simp [ht.2, hne]
  have hstages (command : Command) : stages ⟨.ofDepth (n + 3), lastLine⟩ [command] [] =
      .ok ([command], ⟨[], Nat.le_refl _⟩) := by
    rw [stages, Reader.repeatFrom, Tail.all, Reader.loop]
  have hlower : (Level.ofDepth (n + 3)).command lastLine (t :: tokens) =
      Parser.command ⟨.ofDepth (n + 2), lastLine⟩ (t :: tokens) := rfl
  refine ⟨name, args, hwords, ?_⟩
  rw [pipeline, hnegation]
  simp only [Bool.false_eq_true, if_false, hlower, hcommand, hstages]
  simp

/-- The last statement of a list, with no separator after it. -/
theorem statements_of_statement {p : Parser} {stops : List String} {start next : List Token}
    {done : List Statement} {items : Tail start} {s : Statement} {h : ([] : List Token).length < _}
    (hnext : (items.1.dropWhile fun t => t.kind == .newline) = next)
    (hend : atListEnd stops next = false) (hs : p.statement next = .ok (s, ⟨[], h⟩)) :
    p.statements stops done items = .ok ((s :: done).reverse, ⟨[], Nat.zero_le _⟩) := by
  subst hnext
  rw [statements]
  simp only [hend, hs, Bool.false_eq_true, if_false]

/-- **A list of statements that is a line of quoted texts** is one statement. -/
theorem statementList_words (h : Scanner.Spells (t :: tokens) (text :: texts)) :
    ∃ name args, Word.AllSpell (name :: args) (text :: texts) ∧
      statementList ⟨.ofDepth (n + 3), lastLine⟩ [] (t :: tokens) =
        .ok ([statementOf (commandOf name args t.line)], ⟨[], Nat.zero_le _⟩) := by
  obtain ⟨name, args, hwords, hpipeline⟩ := pipeline_words n lastLine h
  have hkind : t.kind = .word := by
    cases h with
    | cons ht _ => exact ht.1.1
  have hlinks : links ⟨.ofDepth (n + 3), lastLine⟩ [] = .ok ([], ⟨[], Nat.le_refl _⟩) := by
    rw [links, Reader.repeatFrom, Tail.all, Reader.loop]
  have hstatement : statement ⟨.ofDepth (n + 3), lastLine⟩ (t :: tokens) =
      .ok (statementOf (commandOf name args t.line), ⟨[], Nat.zero_lt_succ _⟩) := by
    simp only [statement, hpipeline, hlinks]
    rfl
  refine ⟨name, args, hwords, ?_⟩
  refine statements_of_statement ?_ ?_ hstatement
  · exact List.dropWhile_cons_of_neg (by simp [hkind])
  · simp [atListEnd, hkind]

end

end Parser

/-- **A line of quoted texts is one command.** -/
theorem Quotation.parse_line (texts : List QuotedText) (hne : texts ≠ [])
    (hlength : (line texts).length ≤ maxScriptLength) (hcount : texts.length < maxTokenCount) :
    ∃ name args number, Word.AllSpell (name :: args) texts ∧
      Script.parse (line texts) = .ok ⟨[Parser.statementOf (Parser.commandOf name args number)]⟩ := by
  obtain ⟨lastLine, tokens, hspells, hstream⟩ := tokens_line texts
  have hsize : tokens.length = texts.length := hspells.length_eq
  cases hspells with
  | nil => exact absurd rfl hne
  | @cons t text tokens texts ht hrest =>
    obtain ⟨name, args, hwords, hlist⟩ :=
      Parser.statementList_words 61 lastLine (.cons ht hrest)
    refine ⟨name, args, t.line, hwords, ?_⟩
    change Level.script (.ofDepth (61 + 3)) (line (text :: texts)) = _
    rw [Level.script, if_neg (Nat.not_lt.2 hlength), hstream]
    dsimp only
    rw [if_neg (by omega), hlist]

/-! ## Fields -/

/-- The field of a quoted text. -/
def Field.ofQuoted (text : String) : Field := ⟨text, Glob.escape text⟩

/-- No file stands for a quoted text. -/
theorem Word.fieldPaths_ofQuoted (text : String) : fieldPaths (.ofQuoted text) = pure [text] := by
  rw [fieldPaths, Field.ofQuoted, Glob.hasWildcard_escape, if_neg Bool.false_ne_true]

namespace Field.Splitting

/-- Quoted texts are added as they are, whatever the separators are. -/
theorem foldl_literal (separators : List Char) (first : String) (texts : List String)
    (s : Splitting) : ((first :: texts).map (Segment.literal true)).foldl (segment separators) s =
      s.add ((first :: texts).flatMap String.toList)
        ((first :: texts).flatMap fun text => text.toList.flatMap Glob.escapeChar) := by
  have hfirst : segment separators s (Segment.literal true first) =
      s.add first.toList (first.toList.flatMap Glob.escapeChar) := by
    simp [segment, Segment.literal, Glob.escape]
  induction texts generalizing first s with
  | nil => simp [hfirst]
  | cons next texts ih =>
    rw [List.map_cons, List.foldl_cons, hfirst]
    rw [ih next _ (by simp [segment, Segment.literal, Glob.escape]), add_add]
    simp only [List.flatMap_cons]

end Field.Splitting

/-- **Quoted texts are one field.** -/
theorem Field.ofSegments_literal (separators : String) {texts : List String} (h : texts ≠ []) :
    ofSegments separators (texts.map (Segment.literal true)) =
      [.ofQuoted (String.ofList (texts.flatMap String.toList))] := by
  cases texts with
  | nil => exact absurd rfl h
  | cons first texts =>
    rw [ofSegments, Splitting.foldl_literal]
    simp [Splitting.fields, Splitting.finish, Splitting.add, Splitting.start, List.flatMap_assoc,
      ofQuoted, Glob.escape]

/-- **A word that is expanded to quoted texts** is one field. -/
theorem Word.fields_of_expand {word : Word} {x : Expander} {shell next : Shell}
    {texts : List String} (hne : texts ≠ [])
    (h : word.expand x false shell = (.ok (texts.map (Segment.literal true)), next)) :
    word.fields x shell = (.ok [String.ofList (texts.flatMap String.toList)], next) := by
  have hseparators : Run.variableOr "IFS" defaultSeparators next =
      (.ok ((next.variables.get? "IFS").getD defaultSeparators), next) := rfl
  rw [Word.fields, Run.bind_apply, h]
  dsimp only
  rw [Run.bind_apply, hseparators]
  simp only [Field.ofSegments_literal _ hne, List.mapM_cons, List.mapM_nil, fieldPaths_ofQuoted,
    pure_bind]
  rfl

/-- A text outside of quotes that no expansion brought in is not split either. -/
theorem Field.Splitting.foldl_char (separators : List Char) (first : Char) (text : List Char)
    (s : Splitting) :
    (first :: text).foldl (char separators false) s = s.add (first :: text) (first :: text) := by
  induction text generalizing first s with
  | nil => rfl
  | cons next text ih =>
    have hfirst : char separators false s first = s.add [first] [first] := rfl
    rw [List.foldl_cons, ih, hfirst, add_add, List.singleton_append]

/-- **A text without wildcards** is one field, whatever the separators are. -/
theorem Word.fields_ofLiteral (x : Expander) {text : String} (hne : text ≠ "")
    (hplain : Glob.hasWildcard text = false) (shell : Shell) :
    (ofLiteral text).fields x shell = (.ok [text], shell) := by
  have hfields (separators : String) :
      Field.ofSegments separators [.literal false text] = [⟨text, text⟩] := by
    obtain ⟨first, rest, hchars⟩ := List.exists_cons_of_ne_nil (String.toList_eq_nil_iff.not.2 hne)
    have hsegment : Field.Splitting.segment separators.toList .start (.literal false text) =
        Field.Splitting.add .start text.toList text.toList := by
      rw [hchars]
      exact (congrArg _ hchars).trans (Field.Splitting.foldl_char _ first rest _)
    rw [Field.ofSegments, List.foldl_cons, hsegment]
    simp [Field.Splitting.fields, Field.Splitting.finish, Field.Splitting.add,
      Field.Splitting.start]
  have hpaths : fieldPaths ⟨text, text⟩ = pure [text] := by
    simp [fieldPaths, hplain]
  have hexpand : (ofLiteral text).expand x false = pure [.literal false text] := rfl
  simp only [fields, hexpand, pure_bind, hfields, List.mapM_cons, List.mapM_nil, hpaths]
  rfl

namespace Word.Spells

variable {word : Word} {text : String}

/-- **A word that spells a text expands to this text**, in every shell, and changes nothing. -/
theorem fields_apply (h : word.Spells text) (x : Expander) (shell : Shell) :
    word.fields x shell = (.ok [text], shell) := by
  obtain ⟨texts, hverbatim, hne, hspell⟩ := h
  have hexpand : word.expand x false = pure (texts.map (Segment.literal true)) := by
    obtain ⟨parts, raw⟩ := word
    exact hverbatim.expand x
  rw [fields_of_expand hne (by rw [hexpand]; rfl), hspell, String.ofList_toList]

end Word.Spells

/-- The fields of some words, when the first one is expanded without a change. -/
theorem Word.allFields_cons {x : Expander} {word : Word} {words : List Word} {shell : Shell}
    {fields more : List String} (h : word.fields x shell = (.ok fields, shell))
    (hmore : allFields x words shell = (.ok more, shell)) :
    allFields x (word :: words) shell = (.ok (fields ++ more), shell) := by
  rw [allFields, Run.bind_apply] at hmore ⊢
  rw [List.mapM_cons, Run.bind_apply, h]
  dsimp only
  rw [Run.bind_apply]
  rcases hwords : words.mapM (Word.fields x) shell with ⟨i | found, next⟩
  · rw [hwords] at hmore
    cases hmore
  · rw [hwords] at hmore
    cases hmore
    rfl

theorem Word.AllSpell.allFields_apply {words : List Word} {texts : List QuotedText}
    (h : AllSpell words texts) (x : Expander) (shell : Shell) :
    allFields x words shell = (.ok (texts.map (·.2)), shell) := by
  induction h with
  | nil => rfl
  | cons hword _ ih => exact allFields_cons (hword.fields_apply x shell) ih

/-! ## The main statement -/

/-- **A line of quoted texts is safe.** Whatever the texts are, and whether each of them stands
between single or double quotes, the line is one simple command and nothing else, as long as it
keeps to the limits of the parser. In every shell its words expand to the texts, and the shell stays
as it is. -/
theorem Quotation.line_isSafe (texts : List QuotedText) (hne : texts ≠ [])
    (hlength : (line texts).length ≤ maxScriptLength) (hcount : texts.length < maxTokenCount) :
    ∃ (name : Word) (args : List Word) (number : Nat),
      Script.parse (line texts) =
        .ok ⟨[⟨⟨[.simple ⟨[], some name, args, [], number⟩], false⟩, [], false⟩]⟩ ∧
      ∀ (x : Expander) (shell : Shell),
        Word.allFields x (name :: args) shell = (.ok (texts.map (·.2)), shell) := by
  obtain ⟨name, args, number, hwords, hparse⟩ := parse_line texts hne hlength hcount
  exact ⟨name, args, number, hparse, hwords.allFields_apply⟩

/-- A keyword, an assignment, nothing, quotes, and what would be expanded outside of quotes. -/
theorem Quotation.line_isSafe_mixed :
    let texts : List QuotedText := [(.single, "if"), (.double, "x=1"), (.single, ""),
      (.single, "it's"), (.double, "$(y) \"*\" \\"), (.single, "a\nb; c")]
    ∃ (name : Word) (args : List Word) (number : Nat),
      Script.parse (line texts) =
        .ok ⟨[⟨⟨[.simple ⟨[], some name, args, [], number⟩], false⟩, [], false⟩]⟩ ∧
      ∀ (x : Expander) (shell : Shell), Word.allFields x (name :: args) shell =
        (.ok ["if", "x=1", "", "it's", "$(y) \"*\" \\", "a\nb; c"], shell) :=
  Quotation.line_isSafe _ nofun (by decide) (by decide)

end VirtualShell
