import VirtualShell.Expansion.Word

/-!
# Quoted texts

Any text can be written as one word of a script: between single quotes, where only the quote itself
has to be written in another way, or between double quotes, with a backslash before each character
that means something there.

* `Quotation.quote` — a text in quotes.
* **`Quotation.scan_quote`** — the scan of a word passes over a text in quotes as a whole.
* **`Quotation.parts_quote`** — a text in quotes is read as pieces that spell the text.
-/

namespace VirtualShell

/-! ## One step of a scan -/

namespace Delimiter

section

variable {stop : Char → Bool} {stack : List Delimiter} {c : Char} (read rest : List Char)

theorem scan_pass (hstop : (stack.isEmpty && stop c) = false)
    (hmove : move stack.head? c rest.head? = .pass) :
    scan stop stack read (c :: rest) = scan stop stack (c :: read) rest := by
  rw [scan.eq_def]
  simp only [hstop, hmove, Bool.false_eq_true, if_false]

theorem scan_enter {d : Delimiter} (hstop : (stack.isEmpty && stop c) = false)
    (hmove : move stack.head? c rest.head? = .enter d) :
    scan stop stack read (c :: rest) = scan stop (d :: stack) (c :: read) rest := by
  rw [scan.eq_def]
  simp only [hstop, hmove, Bool.false_eq_true, if_false]

theorem scan_leave (hstop : (stack.isEmpty && stop c) = false)
    (hmove : move stack.head? c rest.head? = .leave) :
    scan stop stack read (c :: rest) = scan stop stack.tail (c :: read) rest := by
  rw [scan.eq_def]
  simp only [hstop, hmove, Bool.false_eq_true, if_false]

theorem scan_escape (x : Char) (hstop : (stack.isEmpty && stop c) = false)
    (hmove : move stack.head? c (some x) = .escape) :
    scan stop stack read (c :: x :: rest) = scan stop stack (x :: c :: read) rest := by
  rw [scan.eq_def]
  simp only [hstop, List.head?_cons, hmove, Bool.false_eq_true, if_false]

/-- The scan stops at the end of the text, and where it is told to outside of all delimiters. -/
theorem scan_stop {rest : List Char} (h : ∀ c ∈ rest.head?, stop c = true) :
    scan stop [] read rest = .ok (read, rest) := by
  cases rest with
  | nil => rfl
  | cons c rest =>
    rw [scan.eq_def]
    simp only [List.isEmpty_nil, h c rfl, Bool.and_self, if_true]

end

end Delimiter

/-! ## Quotes -/

/-- The two kinds of quotes. -/
inductive Quotation where
  | single
  | double
  deriving DecidableEq, Repr

namespace Quotation

/-- The quote. -/
def mark : Quotation → Char
  | single => '\''
  | double => '"'

/-- What the quote opens. -/
def delimiter : Quotation → Delimiter
  | single => .single
  | double => .double

/-- The characters that mean something between double quotes. -/
def meaningful : List Char := ['$', '\x60', '"', '\\']

/-- A character between quotes. A single quote is written outside of them, after a backslash. -/
def char : Quotation → Char → List Char
  | single, c => if c = '\'' then ['\'', '\\', '\'', '\''] else [c]
  | double, c => if c ∈ meaningful then ['\\', c] else [c]

/-- The characters of a text in quotes. -/
def chars (q : Quotation) (text : List Char) : List Char :=
  q.mark :: (text.flatMap q.char ++ [q.mark])

/-- **A text in quotes.** -/
def quote (q : Quotation) (text : String) : String := String.ofList (q.chars text.toList)

/-! ## Scanning quotes -/

section

variable (stop : Char → Bool) (read rest : List Char)

theorem scan_single_char {c : Char} (hc : c ≠ '\'') :
    Delimiter.scan stop [.single] read (c :: rest) =
      Delimiter.scan stop [.single] (c :: read) rest := by
  refine Delimiter.scan_pass _ _ rfl ?_
  unfold Delimiter.move
  split <;> simp_all

theorem scan_double_char (c : Char) :
    Delimiter.scan stop [.double] read (double.char c ++ rest) =
      Delimiter.scan stop [.double] ((double.char c).reverse ++ read) rest := by
  by_cases hc : c ∈ meaningful
  · simp only [char, if_pos hc]
    exact Delimiter.scan_escape _ _ _ rfl rfl
  · simp only [char, if_neg hc]
    refine Delimiter.scan_pass _ _ rfl ?_
    simp only [meaningful, List.mem_cons, List.not_mem_nil, or_false, not_or] at hc
    unfold Delimiter.move
    split <;> simp_all

end

/-- Single quotes close at the next quote. -/
theorem close_single {text : List Char} (htext : '\'' ∉ text) (rest : List Char) :
    Delimiter.close .single (text ++ '\'' :: rest) = .ok (text, rest) := by
  have hscan (read : List Char) : Delimiter.scan (fun _ => true) [.single] read
      (text ++ '\'' :: rest) = .ok ('\'' :: (text.reverse ++ read), rest) := by
    induction text generalizing read with
    | nil =>
      rw [List.nil_append, Delimiter.scan_leave _ _ rfl rfl]
      exact Delimiter.scan_stop _ fun _ _ => rfl
    | cons c text ih =>
      rw [List.mem_cons, not_or] at htext
      rw [List.cons_append, scan_single_char _ _ _ (Ne.symm htext.1), ih htext.2]
      simp
  simp [Delimiter.close, hscan]

/-- Double quotes close at the next quote that no backslash stands before. -/
theorem close_double (text rest : List Char) :
    Delimiter.close .double (text.flatMap double.char ++ '"' :: rest) =
      .ok (text.flatMap double.char, rest) := by
  have hscan (read : List Char) : Delimiter.scan (fun _ => true) [.double] read
      (text.flatMap double.char ++ '"' :: rest) =
        .ok ('"' :: ((text.flatMap double.char).reverse ++ read), rest) := by
    induction text generalizing read with
    | nil =>
      rw [List.flatMap_nil, List.nil_append, Delimiter.scan_leave _ _ rfl rfl]
      exact Delimiter.scan_stop _ fun _ _ => rfl
    | cons c text ih =>
      rw [List.flatMap_cons, List.append_assoc, scan_double_char, ih]
      simp
  simp [Delimiter.close, hscan]

/-! ## One word -/

/-- What the scan of a word does with one character between quotes. -/
theorem scan_char (q : Quotation) (c : Char) (read rest : List Char) :
    Delimiter.scan isMetacharacter [q.delimiter] read (q.char c ++ rest) =
      Delimiter.scan isMetacharacter [q.delimiter] ((q.char c).reverse ++ read) rest := by
  cases q with
  | single =>
    by_cases hc : c = '\''
    · subst hc
      change Delimiter.scan isMetacharacter [.single] read ('\'' :: '\\' :: '\'' :: '\'' :: rest) = _
      rw [Delimiter.scan_leave _ _ rfl rfl, List.tail_cons, Delimiter.scan_escape _ _ _ rfl rfl,
        Delimiter.scan_enter _ _ rfl rfl]
      rfl
    · simp only [char, if_neg hc]
      exact scan_single_char _ _ _ hc
  | double => exact scan_double_char _ _ _ c

theorem scan_chars (q : Quotation) (text read rest : List Char) :
    Delimiter.scan isMetacharacter [q.delimiter] read (text.flatMap q.char ++ rest) =
      Delimiter.scan isMetacharacter [q.delimiter] ((text.flatMap q.char).reverse ++ read) rest := by
  induction text generalizing read with
  | nil => rfl
  | cons c text ih =>
    simp only [List.flatMap_cons, List.append_assoc, List.reverse_append]
    rw [scan_char, ih]

/-- **The scan of a word** passes over a text in quotes. -/
theorem scan_quote (q : Quotation) (text read rest : List Char) :
    Delimiter.scan isMetacharacter [] read (q.chars text ++ rest) =
      Delimiter.scan isMetacharacter [] ((q.chars text).reverse ++ read) rest := by
  have hopen (tail : List Char) : Delimiter.scan isMetacharacter [] read (q.mark :: tail) =
      Delimiter.scan isMetacharacter [q.delimiter] (q.mark :: read) tail := by
    cases q <;> exact Delimiter.scan_enter _ _ rfl rfl
  have hclose (read : List Char) :
      Delimiter.scan isMetacharacter [q.delimiter] read (q.mark :: rest) =
        Delimiter.scan isMetacharacter [] (q.mark :: read) rest := by
    cases q <;> exact Delimiter.scan_leave _ _ rfl rfl
  simp only [chars, List.cons_append, List.append_assoc, List.nil_append]
  rw [hopen, scan_chars, hclose]
  simp

end Quotation

/-! ## Pieces that stand for texts -/

theorem Part.expandAll_append (x : Expander) (parts more : List Part) (quoted : Bool) :
    expandAll x (parts ++ more) quoted = do
      let segments ← expandAll x parts quoted
      let others ← expandAll x more quoted
      return segments ++ others := by
  induction parts with
  | nil => simp [expandAll]
  | cons part parts ih =>
    simp only [List.cons_append, expandAll, ih, bind_assoc, pure_bind, List.append_assoc]

/-- **Pieces that are expanded to some quoted texts**, whatever they are expanded with. -/
structure Part.Verbatim (quoted : Bool) (parts : List Part) (texts : List String) : Prop where
  parameters : holdsAllParameters parts = false
  expand : ∀ x, Part.expandAll x parts quoted = pure (texts.map (Segment.literal true))

namespace Part.Verbatim

variable {quoted : Bool} {parts more : List Part} {texts others : List String}

theorem nil : Part.Verbatim quoted [] [] := ⟨rfl, fun _ => rfl⟩

theorem append (h : Part.Verbatim quoted parts texts) (hmore : Part.Verbatim quoted more others) :
    Part.Verbatim quoted (parts ++ more) (texts ++ others) := by
  refine ⟨?_, fun x => ?_⟩
  · rw [holdsAllParameters, List.any_append, Bool.or_eq_false_iff]
    exact ⟨h.parameters, hmore.parameters⟩
  · rw [expandAll_append, h.expand, hmore.expand]
    simp

theorem quotedText (text : String) : Part.Verbatim quoted [.quoted text] [text] :=
  ⟨rfl, fun _ => rfl⟩

theorem escaped (text : String) : Part.Verbatim quoted [.escaped text] [text] :=
  ⟨rfl, fun _ => rfl⟩

theorem literal (text : String) : Part.Verbatim true [.literal text] [text] :=
  ⟨rfl, fun _ => rfl⟩

/-- Double quotes make a text even when there is none between them. -/
theorem doubleQuoted (h : Part.Verbatim true parts texts) :
    Part.Verbatim quoted [.doubleQuoted parts] ("" :: texts) := by
  refine ⟨rfl, fun x => ?_⟩
  simp only [Part.expandAll, Part.expand, h.expand x, h.parameters, pure_bind]
  simp

end Part.Verbatim

namespace Quotation

/-! ## Reading single quotes -/

variable (l : Level)

/-- A text without a quote between single quotes is one piece. -/
theorem scanParts_single {text : List Char} (htext : '\'' ∉ text) (done : List Part)
    (rest : List Char) : l.scanParts .unquoted done [] ('\'' :: (text ++ '\'' :: rest)) =
      l.scanParts .unquoted (.quoted (String.ofList text) :: done) [] rest := by
  have hpart : ∃ h, l.part? .unquoted '\'' (text ++ '\'' :: rest) =
      .ok (some (.quoted (String.ofList text), ⟨rest, h⟩)) := by
    unfold Level.part?
    simp only [beq_self_eq_true, Bool.and_self, if_true]
    split
    · next d hclose =>
      rw [close_single htext] at hclose
      cases hclose
    · next inner after hclose =>
      rw [close_single htext] at hclose
      have hlength := Delimiter.close_length_lt (close_single htext rest)
      cases hclose
      exact ⟨Nat.le_of_lt hlength, rfl⟩
  obtain ⟨h, hpart⟩ := hpart
  rw [Level.scanParts]
  · simp only [hpart]
    rfl
  all_goals simp

/-- A quote after a backslash is a piece of its own. -/
theorem scanParts_escaped (done : List Part) (rest : List Char) :
    l.scanParts .unquoted done [] ('\\' :: '\'' :: rest) =
      l.scanParts .unquoted (.escaped (Char.toString '\'') :: done) [] rest := by
  rw [Level.scanParts]
  · rfl
  · simp

/-- A text without a quote stands between its quotes as it is. -/
theorem flatMap_single {text : List Char} (htext : '\'' ∉ text) :
    text.flatMap single.char = text := by
  induction text with
  | nil => rfl
  | cons c text ih =>
    rw [List.mem_cons, not_or] at htext
    rw [List.flatMap_cons, char, if_neg (Ne.symm htext.1), ih htext.2, List.singleton_append]

/-- **A text between single quotes** is read as its pieces without quotes and the quotes between
them. -/
theorem scanParts_single_chars (text : List Char) (done : List Part) : ∃ parts texts,
    l.scanParts .unquoted done [] (single.chars text) = .ok (done.reverse ++ parts) ∧
      Part.Verbatim false parts texts ∧ texts ≠ [] ∧ texts.flatMap String.toList = text := by
  by_cases htext : '\'' ∈ text
  -- The first quote ends a piece, stands escaped, and starts the quoted rest.
  · obtain ⟨front, back, hsplit, hfront⟩ := List.eq_append_cons_of_mem htext
    have hshorter : back.length < text.length := by
      rw [hsplit, List.length_append, List.length_cons]
      omega
    have hchars : single.chars text =
        '\'' :: (front ++ '\'' :: ('\\' :: '\'' :: single.chars back)) := by
      simp [hsplit, chars, flatMap_single hfront, char, mark]
    obtain ⟨parts, texts, hscan, hverbatim, -, hspell⟩ := scanParts_single_chars back
      (.escaped (Char.toString '\'') :: .quoted (String.ofList front) :: done)
    refine ⟨.quoted (String.ofList front) :: .escaped (Char.toString '\'') :: parts,
      String.ofList front :: Char.toString '\'' :: texts, ?_, ?_, nofun, ?_⟩
    · rw [hchars, scanParts_single l hfront, scanParts_escaped, hscan]
      simp
    · exact (Part.Verbatim.quotedText _).append ((Part.Verbatim.escaped _).append hverbatim)
    · simp [hspell, hsplit]
  · have hchars : single.chars text = '\'' :: (text ++ '\'' :: []) := by
      simp [chars, flatMap_single htext, mark]
    refine ⟨[.quoted (String.ofList text)], [String.ofList text], ?_, ?_, nofun, by simp⟩
    · rw [hchars, scanParts_single l htext, Level.scanParts]
      simp [Level.flush]
    · exact Part.Verbatim.quotedText _
termination_by text.length

/-! ## Reading double quotes -/

/-- The plain text before a piece. -/
theorem exists_flush (plain : List Char) (done : List Part) : ∃ parts texts,
    (Level.flush plain done).reverse = done.reverse ++ parts ∧ Part.Verbatim true parts texts ∧
      texts.flatMap String.toList = plain.reverse := by
  unfold Level.flush
  split
  · next hplain =>
    refine ⟨[], [], by simp, .nil, ?_⟩
    rw [List.isEmpty_iff.1 hplain]
    rfl
  · exact ⟨[.literal (String.ofList plain.reverse)], [String.ofList plain.reverse], by simp,
      .literal _, by simp⟩

/-- A character after a backslash is a piece of its own. -/
theorem scanParts_escape {c : Char} (hc : c ∈ meaningful) (done : List Part)
    (plain rest : List Char) : l.scanParts .double done plain ('\\' :: c :: rest) =
      l.scanParts .double (.escaped c.toString :: Level.flush plain done) [] rest := by
  simp only [meaningful, List.mem_cons, List.not_mem_nil, or_false] at hc
  rcases hc with rfl | rfl | rfl | rfl
  all_goals
    rw [Level.scanParts]
    · rfl
    · simp

/-- Other characters are plain. -/
theorem scanParts_plain {c : Char} (hc : c ∉ meaningful) (done : List Part)
    (plain rest : List Char) : l.scanParts .double done plain (c :: rest) =
      l.scanParts .double done (c :: plain) rest := by
  simp only [meaningful, List.mem_cons, List.not_mem_nil, or_false, not_or] at hc
  have hpart : l.part? .double c rest = .ok none := by
    simp [Level.part?, hc]
  rw [Level.scanParts]
  · simp only [hpart]
  all_goals simp [hc]

/-- The pieces between double quotes, with some plain text before them. -/
theorem scanParts_double (text : List Char) (done : List Part) (plain : List Char) :
    ∃ parts texts, l.scanParts .double done plain (text.flatMap double.char) =
      .ok (done.reverse ++ parts) ∧ Part.Verbatim true parts texts ∧
        texts.flatMap String.toList = plain.reverse ++ text := by
  induction text generalizing done plain with
  | nil =>
    obtain ⟨parts, texts, hflush, hverbatim, hspell⟩ := exists_flush plain done
    refine ⟨parts, texts, ?_, hverbatim, by simp [hspell]⟩
    rw [List.flatMap_nil, Level.scanParts, hflush]
  | cons c text ih =>
    by_cases hc : c ∈ meaningful
    · obtain ⟨before, texts, hflush, hbefore, hspell⟩ := exists_flush plain done
      obtain ⟨parts, others, hscan, hparts, hothers⟩ :=
        ih (.escaped c.toString :: Level.flush plain done) []
      refine ⟨before ++ .escaped c.toString :: parts, texts ++ c.toString :: others, ?_, ?_, ?_⟩
      · rw [List.flatMap_cons, char, if_pos hc, List.cons_append, List.singleton_append,
          scanParts_escape l hc, hscan]
        simp [hflush]
      · exact hbefore.append ((Part.Verbatim.escaped c.toString).append hparts)
      · simp [hspell, hothers]
    · obtain ⟨parts, texts, hscan, hparts, hspell⟩ := ih done (c :: plain)
      refine ⟨parts, texts, ?_, hparts, by simp [hspell]⟩
      rw [List.flatMap_cons, char, if_neg hc, List.singleton_append, scanParts_plain l hc, hscan]

/-- What stands between double quotes is one piece, when the level further in reads it. -/
theorem scanParts_enclosed {inner : List Char} {parts : List Part}
    (hclose : Delimiter.close .double (inner ++ ['"']) = .ok (inner, []))
    (hparts : l.parts .double inner = .ok parts) :
    l.scanParts .unquoted [] [] ('"' :: (inner ++ ['"'])) = .ok [.doubleQuoted parts] := by
  have hpart : ∃ h, l.part? .unquoted '"' (inner ++ ['"']) =
      .ok (some (.doubleQuoted parts, ⟨[], h⟩)) := by
    unfold Level.part?
    rw [if_neg (by simp), if_pos (by simp)]
    split
    · next d hfail =>
      rw [hclose] at hfail
      cases hfail
    · next inner' after hfound =>
      have hlength := Delimiter.close_length_lt hclose
      rw [hclose] at hfound
      cases hfound
      rw [hparts]
      exact ⟨Nat.le_of_lt hlength, rfl⟩
  obtain ⟨h, hpart⟩ := hpart
  rw [Level.scanParts]
  · simp only [hpart]
    rw [Level.scanParts]
    rfl
  all_goals simp

/-- **A text between double quotes** is one piece. -/
theorem scanParts_double_chars (text : List Char) {parts : List Part}
    (hparts : l.parts .double (text.flatMap double.char) = .ok parts) :
    l.scanParts .unquoted [] [] (double.chars text) = .ok [.doubleQuoted parts] :=
  scanParts_enclosed l (close_double text []) hparts

/-- **A text in quotes** is read as pieces that spell the text. -/
theorem parts_quote (q : Quotation) (n : Nat) (text : List Char) : ∃ parts texts,
    (Level.ofDepth (n + 2)).parts .unquoted (q.chars text) = .ok parts ∧
      Part.Verbatim false parts texts ∧ texts ≠ [] ∧ texts.flatMap String.toList = text := by
  change ∃ parts texts, (Level.ofDepth (n + 1)).partsOf .unquoted (q.chars text) = .ok parts ∧ _
  cases q with
  | single => exact scanParts_single_chars (.ofDepth (n + 1)) text []
  | double =>
    obtain ⟨parts, texts, hscan, hverbatim, hspell⟩ := scanParts_double (.ofDepth n) text [] []
    refine ⟨[.doubleQuoted parts], "" :: texts, ?_, hverbatim.doubleQuoted, nofun, by simpa using hspell⟩
    exact scanParts_double_chars (.ofDepth (n + 1)) text hscan

end Quotation

end VirtualShell
