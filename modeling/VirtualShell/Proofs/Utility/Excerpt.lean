import Mathlib.Data.List.TakeDrop
import VirtualShell.Proofs.Arith.Token
import VirtualShell.Proofs.Utility.Basic
import VirtualShell.Proofs.Utility.Lines
import VirtualShell.Utility.Excerpt

/-!
# The two halves of a file

`head` and `tail` count the same lines, so what one of them leaves out is what the other one writes,
if they are given numbers that fit together. The numbers are read as numerals, and a numeral of more
than 4300 digits is refused; then nothing is written.

* `Utility.Excerpt.LineCount.read?_spelling` — which numbers of lines are read.
* `Utility.Excerpt.run_counted` — what an excerpt of one text is.
* **`Utility.Excerpt.head_append_tail`** — the two excerpts together are the text.
-/

namespace VirtualShell

/-! ## Numerals with a sign -/

namespace Text

/-- A sign that may stand before a numeral. -/
def IsSign (c : Char) : Prop := c = '-' ∨ c = '+'

/-- **A numeral with a sign**, or without one, is read unless it has too many digits. -/
theorem readDecimal_signed {sign : Option Char} (hsign : ∀ c ∈ sign, IsSign c) (n : Nat) :
    readDecimal (String.ofList (sign.toList ++ (toString n).toList)) =
      if (toString n).length ≤ maxDecimalDigits then
        .ok (if sign = some '-' then -(n : Int) else n)
      else .error (.tooManyDigits (toString n).length) := by
  have hdigits : ∀ c ∈ (toString n).toList, c.isDigit = true := fun _ => isDigit_of_mem_toString
  have hread := readDigits_of_isDigit hdigits true (by simp) 0 0
  obtain ⟨c, rest, hlist⟩ := exists_cons_toString n
  have hc : isDecimal c = true := isDecimal_of_isDigit (hdigits c (hlist ▸ List.mem_cons_self))
  have hne {d : Char} (hd : isDecimal d = false) : c ≠ d := by
    rintro rfl
    rw [hc] at hd
    cases hd
  -- No blank stands in front, and the sign is told from the first digit.
  have hblank : (sign.toList ++ (toString n).toList).dropWhile isNumeralBlank =
      sign.toList ++ (toString n).toList := by
    rcases sign with - | d
    · rw [hlist]
      exact List.dropWhile_cons_of_neg (by simp [isNumeralBlank_of_isDecimal hc])
    · rcases hsign d rfl with rfl | rfl <;> exact List.dropWhile_cons_of_neg (by decide)
  have hsplit : readSign (sign.toList ++ (toString n).toList) =
      (decide (sign = some '-'), (toString n).toList) := by
    rcases sign with - | d
    · rw [hlist, Option.toList_none, List.nil_append, readSign]
      · rfl
      · exact fun _ heq => hne (by decide) (List.cons.inj heq).1
      · exact fun _ heq => hne (by decide) (List.cons.inj heq).1
    · rcases hsign d rfl with rfl | rfl <;> rfl
  rw [ofDigitChars_toString, Nat.zero_add, String.length_toList] at hread
  rw [readDecimal, readInteger, String.toList_ofList, hblank, hsplit]
  dsimp only
  rw [dropRadixMark_ten, hread]
  dsimp only [bind, Except.bind]
  by_cases hfew : (toString n).length ≤ maxDecimalDigits
  · rw [if_pos hfew, if_neg (by simpa using hfew)]
    simp
  · rw [if_neg hfew, if_pos (by simpa using hfew)]

theorem length_toString_le_iff (n : Nat) :
    (toString n).length ≤ maxDecimalDigits ↔ n < 10 ^ maxDecimalDigits := by
  rw [Nat.toString_eq_repr, Nat.length_repr_le_iff (by decide)]

end Text

namespace Utility.Excerpt

variable {call : Call} {files : FileSystem}

/-! ## Numbers of lines -/

/-- A number of lines as it is written: its sign, and its numeral. -/
def LineCount.spelling (count : LineCount) : String :=
  String.ofList (count.sign.toList ++ (toString count.size).toList)

theorem LineCount.spelling_plain (n : Nat) : spelling ⟨none, n⟩ = toString n :=
  String.ofList_toList

theorem LineCount.spelling_signed (c : Char) (n : Nat) :
    spelling ⟨some c, n⟩ = String.singleton c ++ toString n := by
  rw [spelling, ← String.toList_inj, String.toList_ofList, String.toList_append,
    String.toList_singleton]
  rfl

/-- **A number of lines is read** unless it has too many digits. -/
theorem LineCount.read?_spelling {count : LineCount} (hsign : ∀ c ∈ count.sign, Text.IsSign c) :
    read? count.spelling =
      if count.size < 10 ^ Text.maxDecimalDigits then some count else none := by
  obtain ⟨sign, size⟩ := count
  have hhead : (sign.toList ++ (toString size).toList).head?.filter
      (fun c => c == '-' || c == '+') = sign := by
    rcases sign with - | d
    · obtain ⟨c, rest, hlist⟩ := Text.exists_cons_toString size
      have hc : c.isDigit = true := Text.isDigit_of_mem_toString (hlist ▸ List.mem_cons_self)
      have hnone : ¬ (c = '-' ∨ c = '+') := by
        rintro (rfl | rfl) <;> exact absurd hc (by decide)
      rw [Option.toList_none, List.nil_append, hlist, List.head?_cons]
      simpa using hnone
    · rcases hsign d rfl with rfl | rfl <;> rfl
  rw [read?, spelling, Text.readDecimal_signed hsign, String.toList_ofList, hhead]
  by_cases hsize : size < 10 ^ Text.maxDecimalDigits
  · rw [if_pos ((Text.length_toString_le_iff size).2 hsize), if_pos hsize]
    dsimp only
    split <;> simp
  · rw [if_neg (mt (Text.length_toString_le_iff size).1 hsize), if_neg hsize]

/-! ## One text -/

/-- **The operands stand for a text**: there are none and it is the input, or it is that of the one
operand there is, which is no word of options. -/
inductive Source (call : Call) (files : FileSystem) (text : String) : List String → Prop
  | input : call.input = text → Source call files text []
  | file {operand : String} : isOption operand = false →
      textOf call operand files = (.ok (.ok text), files) → Source call files text [operand]

/-- The arguments are not looked at for the text of an operand. -/
theorem textOf_arguments (call : Call) (arguments : List String) (operand : String) :
    textOf { call with arguments } operand = textOf call operand := by
  simp only [textOf, pathOf]

theorem Source.withArguments {text : String} {operands : List String}
    (h : Source call files text operands) (arguments : List String) :
    Source { call with arguments } files text operands := by
  cases h with
  | input hinput => exact .input hinput
  | file hoption hread => exact .file hoption (by rw [textOf_arguments, hread])

/-- What is no word of options writes no number of lines. -/
theorem countIn?_eq_none {word : String} (h : isOption word = false) : countIn? word = none := by
  rw [isOption, Bool.and_eq_false_iff, bne_eq_false_iff_eq] at h
  rcases h with h | rfl
  · have hdash (rest : String) (hrest : rest.toList.head? = some '-') :
        word.startsWith rest = false := by
      rw [Bool.eq_false_iff] at h ⊢
      refine mt (fun hstarts => ?_) h
      obtain ⟨tail, htail⟩ := List.head?_eq_some_iff.1 hrest
      rw [String.startsWith_string_iff, htail] at hstarts
      exact String.startsWith_string_iff.2 (List.IsPrefix.trans ⟨tail, rfl⟩ hstarts)
    rw [countIn?, hdash "--lines=" rfl, hdash "-n" rfl, h]
    rfl
  · cbv

theorem readArguments_counted {text : String} {operands : List String}
    (h : Source call files text operands) (count : String) :
    readArguments none ("-n" :: count :: operands) = .ok (some count, operands) := by
  rw [readArguments]
  cases h with
  | input => rfl
  | @file operand hoption =>
    have hdash {word : String} (hword : isOption word = true) : operand ≠ word := by
      rintro rfl
      rw [hoption] at hword
      cases hword
    rw [readArguments, countIn?_eq_none hoption]
    · dsimp only
      rw [hoption]
      rfl
    · exact hdash (by cbv)
    · exact hdash (by cbv)

/-- What is written of the one text. -/
theorem writeFiles_source {text : String} {operands : List String}
    (h : Source call files text operands) (name : String) (select : List String → List String) :
    writeFiles name select call
        ((if operands.isEmpty then ["-"] else operands).length > 1) true .success
        (if operands.isEmpty then ["-"] else operands) files =
      (.ok (.ofText (String.join (select (Text.linesWithEnds text)))), files) := by
  have hone {operand : String} (hread : textOf call operand files = (.ok (.ok text), files)) :
      writeFiles name select call false true .success [operand] files =
        (.ok (.ofText (String.join (select (Text.linesWithEnds text)))), files) := by
    rw [writeFiles, bind_apply, hread]
    rfl
  cases h with
  | input hinput => exact hone (by rw [textOf, if_pos rfl, hinput]; rfl)
  | file _ hread => exact hone hread

/-- **A call with a number of lines** in front of its operands. -/
def counting (call : Call) (count : String) (operands : List String) : Call :=
  { call with arguments := "-n" :: count :: operands }

/-- What is written about a number of lines that is refused. -/
def refusal (name count : String) : Outcome :=
  .failure (name ++ ": invalid number of lines: '" ++ count ++ "'\n") 1

/-- **An excerpt of one text**: the lines that are selected, or nothing when the number of lines is
refused. -/
theorem run_counted {text : String} {operands : List String} (h : Source call files text operands)
    (name : String) (select : LineCount → List String → List String) {count : LineCount}
    (hsign : ∀ c ∈ count.sign, Text.IsSign c) :
    run name select (counting call count.spelling operands) files =
      (.ok (if count.size < 10 ^ Text.maxDecimalDigits then
          .ofText (String.join (select count (Text.linesWithEnds text)))
        else refusal name count.spelling), files) := by
  rw [run]
  dsimp only [counting]
  rw [readArguments_counted h]
  dsimp only [Option.elim_some]
  rw [LineCount.read?_spelling hsign]
  by_cases hsize : count.size < 10 ^ Text.maxDecimalDigits
  · rw [if_pos hsize, if_pos hsize]
    exact writeFiles_source (h.withArguments _) name (select count)
  · rw [if_neg hsize, if_neg hsize]
    rfl

/-- What is written of one text. -/
theorem writes_counted {text : String} {operands : List String}
    (h : Source call files text operands) (name : String)
    (select : LineCount → List String → List String) {count : LineCount}
    (hsign : ∀ c ∈ count.sign, Text.IsSign c) :
    Writes (run name select (counting call count.spelling operands)) files
      (if count.size < 10 ^ Text.maxDecimalDigits then
        String.join (select count (Text.linesWithEnds text)) else "") := by
  refine ⟨_, run_counted h name select hsign, ?_⟩
  split <;> rfl

/-- **A number of lines is refused** when it has too many digits. -/
theorem run_refused {text : String} {operands : List String} (h : Source call files text operands)
    (name : String) (select : LineCount → List String → List String) (count : LineCount)
    (hsign : ∀ c ∈ count.sign, Text.IsSign c) (hsize : 10 ^ Text.maxDecimalDigits ≤ count.size) :
    run name select (counting call count.spelling operands) files =
      (.ok (refusal name count.spelling), files) := by
  rw [run_counted h name select hsign, if_neg (Nat.not_lt.2 hsize)]

/-! ## Both halves -/

/-- **The two excerpts together are the text.** What the first lines leave out, the lines from the
next one on make up; what all but the last lines leave out, the last ones do. A number of lines with
too many digits is refused by name and nothing is written, which is right only if there is nothing to
write. -/
theorem head_append_tail {text : String} {operands : List String}
    (h : Source call files text operands) (k : Nat) :
    ∃ first rest butLast last : String,
      Writes (head (counting call (toString k) operands)) files first ∧
      Writes (tail (counting call ("+" ++ toString (k + 1)) operands)) files rest ∧
      Writes (head (counting call ("-" ++ toString k) operands)) files butLast ∧
      Writes (tail (counting call (toString k) operands)) files last ∧
      (first ++ rest = text ↔ k + 1 < 10 ^ Text.maxDecimalDigits ∨
        k < 10 ^ Text.maxDecimalDigits ∧ (Text.linesWithEnds text).length ≤ k ∨ text = "") ∧
      (butLast ++ last = text ↔ k < 10 ^ Text.maxDecimalDigits ∨ text = "") ∧
      (10 ^ Text.maxDecimalDigits ≤ k →
        head (counting call (toString k) operands) files =
          (.ok (refusal "head" (toString k)), files) ∧
        head (counting call ("-" ++ toString k) operands) files =
          (.ok (refusal "head" ("-" ++ toString k)), files) ∧
        tail (counting call (toString k) operands) files =
          (.ok (refusal "tail" (toString k)), files)) ∧
      (10 ^ Text.maxDecimalDigits ≤ k + 1 →
        tail (counting call ("+" ++ toString (k + 1)) operands) files =
          (.ok (refusal "tail" ("+" ++ toString (k + 1))), files)) := by
  have hplus : "+" ++ toString (k + 1) = LineCount.spelling ⟨some '+', k + 1⟩ :=
    (LineCount.spelling_signed '+' (k + 1)).symm
  have hminus : "-" ++ toString k = LineCount.spelling ⟨some '-', k⟩ :=
    (LineCount.spelling_signed '-' k).symm
  rw [hplus, hminus, ← LineCount.spelling_plain]
  refine ⟨_, _, _, _, writes_counted h "head" first nofun,
    writes_counted h "tail" last (by simp [Text.IsSign]),
    writes_counted h "head" first (by simp [Text.IsSign]),
    writes_counted h "tail" last nofun, ?_⟩
  refine and_assoc.1 ⟨?_, fun hk => ⟨run_refused h "head" first ⟨none, k⟩ nofun hk,
    run_refused h "head" first ⟨some '-', k⟩ (by simp [Text.IsSign]) hk,
    run_refused h "tail" last ⟨none, k⟩ nofun hk⟩,
    run_refused h "tail" last ⟨some '+', k + 1⟩ (by simp [Text.IsSign])⟩
  generalize 10 ^ Text.maxDecimalDigits = limit
  dsimp only
  constructor
  · have hempty : text = "" → (Text.linesWithEnds text).length ≤ k := by
      rintro rfl
      exact Nat.zero_le k
    by_cases hnext : k + 1 < limit
    · rw [if_pos (Nat.lt_of_succ_lt hnext), if_pos hnext]
      exact iff_of_true (Text.join_take_append_join_drop text k) (.inl hnext)
    · rw [if_neg hnext, String.append_empty]
      by_cases hk : k < limit
      · rw [if_pos hk]
        refine Text.join_take_eq_iff.trans ?_
        tauto
      · rw [if_neg hk, eq_comm]
        tauto
  · by_cases hk : k < limit
    · rw [if_pos hk, if_pos hk]
      exact iff_of_true (Text.join_take_append_join_drop text _) (.inl hk)
    · rw [if_neg hk, if_neg hk, String.append_empty, eq_comm]
      tauto

/-- A file with two lines, the last of which has no end. -/
def twoLines : FileSystem := (FileSystem.Change.write "/f" "a\nb").apply (.ofClock ⟨0, 0⟩)

/-- Its first line and the others. -/
theorem head_append_tail_twoLines :
    Source ⟨[], "", "/", .empty, .bare⟩ twoLines "a\nb" ["f"] ∧
      ∃ first rest, Writes (head ⟨["-n", "1", "f"], "", "/", .empty, .bare⟩) twoLines first ∧
        Writes (tail ⟨["-n", "+2", "f"], "", "/", .empty, .bare⟩) twoLines rest ∧
        first ++ rest = "a\nb" := by
  have hread : twoLines.read (pathOf ⟨[], "", "/", .empty, .bare⟩ "f") = .ok "a\nb" := by cbv
  have hsource : Source ⟨[], "", "/", .empty, .bare⟩ twoLines "a\nb" ["f"] :=
    .file (by cbv) (textOf_of_read (by decide) hread)
  obtain ⟨first, rest, -, -, hfirst, hrest, -, -, hboth, -⟩ := head_append_tail hsource 1
  have htwo : "+" ++ toString (1 + 1) = "+2" := by cbv
  rw [htwo] at hrest
  have hfew : 1 + 1 < 10 ^ Text.maxDecimalDigits :=
    (Text.length_toString_le_iff 2).1 (by decide)
  exact ⟨hsource, first, rest, hfirst, hrest, hboth.2 (.inl hfew)⟩

/-- **The least number of lines that is refused**: neither excerpt has the one line. -/
theorem head_append_tail_ne :
    ∃ first rest : String,
      Writes (head ⟨["-n", toString (10 ^ Text.maxDecimalDigits)], "x\n", "/", .empty, .bare⟩)
        (.ofClock ⟨0, 0⟩) first ∧
      Writes (tail ⟨["-n", "+" ++ toString (10 ^ Text.maxDecimalDigits + 1)], "x\n", "/", .empty,
        .bare⟩) (.ofClock ⟨0, 0⟩) rest ∧
      first ++ rest ≠ "x\n" := by
  have hsource : Source ⟨[], "x\n", "/", .empty, .bare⟩ (.ofClock ⟨0, 0⟩) "x\n" [] := .input rfl
  have hplus : ∀ c ∈ some '+', Text.IsSign c := by
    rintro _ ⟨⟩
    exact .inr rfl
  generalize hlimit : 10 ^ Text.maxDecimalDigits = limit
  have hfirst : Writes _ _ _ := writes_counted hsource "head" Excerpt.first
    (show ∀ c ∈ LineCount.sign ⟨none, limit⟩, Text.IsSign c from nofun)
  have hrest : Writes _ _ _ := writes_counted hsource "tail" Excerpt.last
    (show ∀ c ∈ LineCount.sign ⟨some '+', limit + 1⟩, Text.IsSign c from hplus)
  rw [hlimit, LineCount.spelling_plain, if_neg (Nat.lt_irrefl _)] at hfirst
  rw [hlimit, LineCount.spelling_signed, if_neg (Nat.not_lt.2 (Nat.le_succ _))] at hrest
  exact ⟨"", "", hfirst, hrest, by decide⟩

end Utility.Excerpt

end VirtualShell
