import VirtualShell.Proofs.Quoting.Substitution

/-!
# All positional parameters between quotes

Between double quotes all positional parameters are fields of their own, each as it is. What stands
before them goes to the first one and what stands after them to the last one; without parameters the
two are one field, or none if they are empty too. Separators and files make no difference.

* `enclose` — some texts with one before the first and one after the last.
* `Word.parse_enclosing` — how all positional parameters are read between quotes.
* `Field.ofSegments_enclosing` — borders between quoted segments make fields.
* **`Word.fields_enclosing`** — the fields of all positional parameters between quotes.
-/

namespace VirtualShell

/-- **Some texts with one before the first and one after the last.** Where there is none, the two
are one, unless they are empty. -/
def enclose (before behind : String) : List String → List String
  | [] => if before = "" ∧ behind = "" then [] else [before ++ behind]
  | [text] => [before ++ text ++ behind]
  | text :: next :: rest => (before ++ text) :: enclose "" behind (next :: rest)

theorem enclose_empty (texts : List String) : enclose "" "" texts = texts := by
  induction texts with
  | nil => rfl
  | cons text rest ih =>
    cases rest with
    | nil => simp [enclose]
    | cons next rest => rw [enclose, ih, String.empty_append]

/-! ## Reading -/

/-- A text as pieces between double quotes. -/
def Part.plain (text : String) : List Part := if text = "" then [] else [.literal text]

/-- All positional parameters between double quotes, with a text before and one behind them. -/
def Word.enclosing (before behind : String) : Word :=
  ⟨[.doubleQuoted (Part.plain before ++ .parameter "@" none :: Part.plain behind)],
    "\"" ++ before ++ "$@" ++ behind ++ "\""⟩

namespace Quotation

/-- A text that stands for itself between double quotes. -/
def IsPlain (text : String) : Prop := ∀ c ∈ text.toList, c ∉ meaningful

theorem isPlain_empty : IsPlain "" := List.forall_mem_nil _

section

variable {text : List Char} (h : ∀ c ∈ text, c ∉ meaningful)

include h

theorem scan_plain (stop : Char → Bool) (read rest : List Char) :
    Delimiter.scan stop [.double] read (text ++ rest) =
      Delimiter.scan stop [.double] (text.reverse ++ read) rest := by
  induction text generalizing read with
  | nil => rfl
  | cons c text ih =>
    obtain ⟨hc, htext⟩ := List.forall_mem_cons.1 h
    have hchar := scan_double_char stop read (text ++ rest) c
    rw [char, if_neg hc] at hchar
    rw [List.cons_append, List.reverse_cons, List.append_assoc, ← ih htext]
    exact hchar

theorem scanParts_plain_text (l : Level) (done : List Part) (plain rest : List Char) :
    l.scanParts .double done plain (text ++ rest) =
      l.scanParts .double done (text.reverse ++ plain) rest := by
  induction text generalizing plain with
  | nil => rfl
  | cons c text ih =>
    obtain ⟨hc, htext⟩ := List.forall_mem_cons.1 h
    rw [List.cons_append, scanParts_plain l hc, ih htext, List.reverse_cons, List.append_assoc]
    rfl

end

theorem flush_plain (text : String) (done : List Part) :
    Level.flush text.toList.reverse done = (Part.plain text).reverse ++ done := by
  by_cases htext : text = ""
  · simp [Level.flush, Part.plain, htext]
  · simp [Level.flush, Part.plain, htext]

theorem scanParts_all (l : Level) (done : List Part) (plain rest : List Char) :
    l.scanParts .double done plain ('$' :: '@' :: rest) =
      l.scanParts .double (.parameter "@" none :: Level.flush plain done) [] rest := by
  rw [Level.scanParts]
  · rfl
  all_goals simp

section

variable {before behind : String} (hbefore : IsPlain before) (hbehind : IsPlain behind)

include hbefore hbehind

theorem scanParts_enclosing (l : Level) :
    l.scanParts .double [] [] (before.toList ++ '$' :: '@' :: behind.toList) =
      .ok (Part.plain before ++ .parameter "@" none :: Part.plain behind) := by
  rw [scanParts_plain_text hbefore, scanParts_all, ← List.append_nil behind.toList,
    scanParts_plain_text hbehind, List.append_nil, List.append_nil, Level.scanParts, flush_plain,
    flush_plain]
  simp

/-- The quotes close behind the last text. -/
theorem close_enclosing : Delimiter.close .double
    (before.toList ++ '$' :: '@' :: behind.toList ++ ['"']) =
      .ok (before.toList ++ '$' :: '@' :: behind.toList, []) := by
  have hrest : ∀ c ∈ '@' :: behind.toList, c ∉ meaningful :=
    List.forall_mem_cons.2 ⟨by decide, hbehind⟩
  rw [Delimiter.close, List.append_assoc, scan_plain hbefore, List.cons_append,
    Delimiter.scan_pass _ _ rfl rfl, scan_plain hrest, Delimiter.scan_leave _ _ rfl rfl,
    List.tail_cons, Delimiter.scan_stop _ fun _ _ => rfl]
  simp

end

end Quotation

/-- **All positional parameters between quotes** are read as one piece between plain texts. -/
theorem Word.parse_enclosing {before behind : String} (hbefore : Quotation.IsPlain before)
    (hbehind : Quotation.IsPlain behind) :
    Word.parse (enclosing before behind).raw = .ok (.enclosing before behind) := by
  have hchars : (enclosing before behind).raw.toList =
      '"' :: (before.toList ++ '$' :: '@' :: behind.toList ++ ['"']) := by
    simp [enclosing]
  have hparts : (Level.ofDepth (maxNesting - 1)).parts .double
      (before.toList ++ '$' :: '@' :: behind.toList) =
        .ok (Part.plain before ++ .parameter "@" none :: Part.plain behind) :=
    Quotation.scanParts_enclosing hbefore hbehind (.ofDepth (maxNesting - 2))
  have hscan := Quotation.scanParts_enclosed (.ofDepth (maxNesting - 1))
    (Quotation.close_enclosing hbefore hbehind) hparts
  rw [Word.parse_eq, hchars, Level.partsOf]
  exact congrArg (Except.map (Word.mk · (enclosing before behind).raw)) hscan

/-! ## Splitting -/

namespace Segment

/-- A text as segments between double quotes. -/
def plain (text : String) : List Segment := if text = "" then [] else [.literal true text]

/-- Texts as segments with borders between them. -/
def separate (texts : List String) : List Segment :=
  (texts.map (literal true)).intersperse .border

end Segment

theorem Glob.escape_append (text more : String) :
    escape (text ++ more) = escape text ++ escape more := by
  simp [escape]

namespace Field.Splitting

/-- A field that holds a quoted text so far, after other fields. -/
def holding (done : List Field) (text : String) (begun : Bool) : Splitting where
  done := done
  text := text.toList.reverse
  pattern := (Glob.escape text).toList.reverse
  begun := begun
  afterBlank := false

variable (separators : List Char) (done : List Field) (text : String) (begun : Bool)

theorem segment_literal (more : String) :
    segment separators (holding done text begun) (.literal true more) =
      holding done (text ++ more) true := by
  simp [segment, Segment.literal, holding, add, Glob.escape_append]

theorem segment_border : segment separators (holding done text begun) .border =
    holding (.ofQuoted text :: done) "" false := by
  simp [segment, Segment.border, holding, finish, ofQuoted, Glob.escape]

theorem foldl_plain (more : String) :
    (Segment.plain more).foldl (segment separators) (holding done text begun) =
      holding done (text ++ more) (begun || more ≠ "") := by
  by_cases hmore : more = ""
  · simp [Segment.plain, hmore]
  · simp [Segment.plain, hmore, segment_literal]

theorem fields_holding : (holding done text true).fields = done.reverse ++ [.ofQuoted text] := by
  simp [fields, holding, finish, ofQuoted]

/-- **One text after another**, the first one added to what a field holds already. -/
theorem fields_foldl_separate (behind first : String) (rest : List String) :
    ((Segment.separate (first :: rest) ++ Segment.plain behind).foldl (segment separators)
      (holding done text begun)).fields =
      done.reverse ++ (enclose text behind (first :: rest)).map .ofQuoted := by
  induction rest generalizing done text begun first with
  | nil =>
    change ((.literal true first :: Segment.plain behind).foldl (segment separators)
      (holding done text begun)).fields = _
    rw [List.foldl_cons, segment_literal, foldl_plain, Bool.true_or, fields_holding]
    rfl
  | cons next rest ih =>
    change ((.literal true first :: .border :: (Segment.separate (next :: rest) ++
      Segment.plain behind)).foldl (segment separators) (holding done text begun)).fields = _
    rw [List.foldl_cons, List.foldl_cons, segment_literal, segment_border, ih]
    simp [enclose]

end Field.Splitting

/-- **Borders make fields**, whatever the separators are. -/
theorem Field.ofSegments_enclosing (separators before behind : String) (texts : List String) :
    ofSegments separators
      (Segment.plain before ++ (Segment.separate texts ++ Segment.plain behind)) =
        (enclose before behind texts).map .ofQuoted := by
  have hstart : Splitting.start = .holding [] "" false := rfl
  rw [ofSegments, List.foldl_append, hstart, Splitting.foldl_plain, String.empty_append]
  cases texts with
  | nil =>
    change ((Segment.plain behind).foldl (Splitting.segment separators.toList) _).fields = _
    rw [Splitting.foldl_plain]
    by_cases hnone : before = "" ∧ behind = ""
    · obtain ⟨rfl, rfl⟩ := hnone
      rfl
    · have hbegun : (false || decide (before ≠ "") || decide (behind ≠ "")) = true := by
        simpa [imp_iff_not_or] using hnone
      rw [hbegun, Splitting.fields_holding, enclose, if_neg hnone]
      rfl
  | cons first rest => exact Splitting.fields_foldl_separate _ [] before _ behind first rest

/-! ## Expansion -/

theorem Part.expandAll_plain (x : Expander) (text : String) :
    expandAll x (plain text) true = pure (Segment.plain text) := by
  unfold plain Segment.plain
  split <;> rfl

theorem Word.expand_enclosing (x : Expander) (before behind : String) (shell : Shell) :
    (enclosing before behind).expand x false shell =
      (.ok (Segment.plain before ++ (Segment.separate shell.parameters ++ Segment.plain behind)),
        shell) := by
  have hholds : holdsAllParameters
      (Part.plain before ++ .parameter "@" none :: Part.plain behind) = true := by
    simp [holdsAllParameters]
  have hparameters : Part.expand x (.parameter "@" none) true =
      (do return Segment.separate (← get).parameters) := rfl
  have hinner : Part.expandAll x (Part.plain before ++ .parameter "@" none :: Part.plain behind)
      true shell = (.ok (Segment.plain before ++
        (Segment.separate shell.parameters ++ Segment.plain behind)), shell) := by
    simp only [Part.expandAll_append, Part.expandAll, Part.expandAll_plain, hparameters, pure_bind,
      bind_assoc]
    rfl
  rw [enclosing, expand, Part.expandAll, Part.expand, hholds, Run.bind_apply, Run.bind_apply,
    hinner]
  exact congrArg (fun segments => (Except.ok segments, shell)) (List.append_nil _)

theorem Word.mapM_fieldPaths_ofQuoted (texts : List String) :
    (texts.map Field.ofQuoted).mapM fieldPaths = pure (texts.map ([·])) := by
  induction texts with
  | nil => rfl
  | cons text texts ih =>
    rw [List.map_cons, List.mapM_cons, ih, fieldPaths_ofQuoted, pure_bind, pure_bind]
    rfl

/-- **All positional parameters between quotes** are the fields of the word, with the texts around
them. -/
theorem Word.fields_enclosing (x : Expander) (before behind : String) (shell : Shell) :
    (enclosing before behind).fields x shell =
      (.ok (enclose before behind shell.parameters), shell) := by
  have hseparators : Run.variableOr "IFS" defaultSeparators shell =
      (.ok ((shell.variables.get? "IFS").getD defaultSeparators), shell) := rfl
  have hflatten (texts : List String) : (texts.map ([·])).flatten = texts :=
    (List.flatMap_def.symm.trans List.map_eq_flatMap.symm).trans (List.map_id texts)
  rw [fields, Run.bind_apply, expand_enclosing]
  dsimp only
  rw [Run.bind_apply, hseparators]
  simp only [Field.ofSegments_enclosing, mapM_fieldPaths_ofQuoted, pure_bind, hflatten]
  rfl

end VirtualShell
