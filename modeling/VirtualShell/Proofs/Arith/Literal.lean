import Mathlib
import VirtualShell.Proofs.Arith.Token

/-!
# Literals that cannot be read

Some errors of arithmetic are faults: they are about a numeral that cannot be read, and not about
the expression. While a text is read there are two places for a fault. A token may start with a
digit of another script, and a run of decimal digits may be too long for a number to be made of it.
No other literal can bring one, since the tokens of a text are made so that each literal has one of
three forms: a run of digits, such a run with a number sign and more behind it, or the mark of a
hexadecimal literal and a run of hexadecimal digits.

* `IsLiteral.hasLongRun` — a literal of one of these forms brings a fault only if a run in it is too
  long.
* `tokensFrom_cases` — the literals among the tokens of a text have these forms and stand in it.
* `isFrom_readComma` — the reader hands on the faults of literals and has none of its own. Each
  function of the reader keeps to that if those that it calls do.
* **`Expr.isFault_of_parse`** — so a text that writes no expression is malformed or brings a fault,
  and then it has the digits for it.
-/

namespace VirtualShell.Arith

/-- **Faults** are the errors about numerals that are none. The others are reported as errors of the
expression. -/
def Error.isFault : Error → Bool
  | .numeral _ | .foreignDigit => true
  | .malformed _ | .divisionByZero | .negativeExponent | .tooManyReferences => false

/-- The error is that of a text that writes no expression. -/
def Error.isMalformed : Error → Bool
  | .malformed _ => true
  | _ => false

theorem Error.isMalformed_of_isFault {e : Error} (h : e.isFault = true) : e.isMalformed = false := by
  cases e <;> first | rfl | cases h

/-! ## Runs of digits -/

/-- A run of characters of some kind, which is not empty. -/
structure IsRun (kind : Char → Bool) (chars : List Char) : Prop where
  ne_nil : chars ≠ []
  of_mem : ∀ c ∈ chars, kind c = true

/-- A run of digits that is too long stands in the text. -/
def HasLongRun (text : List Char) : Prop :=
  ∃ digits, digits <:+: text ∧ IsRun Text.isAsciiDigit digits ∧
    Text.maxDecimalDigits < digits.length

theorem HasLongRun.mono {text whole : List Char} (h : HasLongRun text)
    (hwhole : text <:+: whole) : HasLongRun whole := by
  obtain ⟨digits, hdigits, hrun, hmany⟩ := h
  exact ⟨digits, hdigits.trans hwhole, hrun, hmany⟩

theorem IsRun.not_mem {kind : Char → Bool} {chars : List Char} (h : IsRun kind chars) {c : Char}
    (hc : kind c = false) : c ∉ chars := by
  intro hmem
  rw [h.of_mem c hmem] at hc
  cases hc

/-- A run of digits is a numeral, or it is too long. -/
theorem IsRun.readNumeral_cases {digits : List Char} (h : IsRun Text.isAsciiDigit digits) :
    (∃ n : Nat, readNumeral 10 digits = .ok n) ∨ HasLongRun digits := by
  rcases Nat.lt_or_ge Text.maxDecimalDigits digits.length with hmany | hmany
  · exact .inr ⟨digits, List.infix_refl _, h, hmany⟩
  · obtain ⟨n, -, hread⟩ := Text.readDecimal_of_digits
      (fun c hc => Text.isDecimal_of_isDigit (h.of_mem c hc)) h.ne_nil hmany
    rw [Text.readDecimal] at hread
    exact .inl ⟨n, by rw [readNumeral, hread]⟩

/-! ### Hexadecimal digits -/

/-- A hexadecimal digit is one of the ten digits or one of twelve letters. -/
theorem isDigit_or_of_isHexDigit {c : Char} (h : isHexDigit c = true) :
    c.isDigit = true ∨ 97 ≤ c.toNat ∧ c.toNat ≤ 102 ∨ 65 ≤ c.toNat ∧ c.toNat ≤ 70 := by
  have hle (a b : Char) : a ≤ b ↔ a.toNat ≤ b.toNat := UInt32.le_iff_toNat_le
  obtain ⟨d, hd⟩ := Option.isSome_iff_exists.1 h
  rw [digitValue?, Option.filter_eq_some_iff, decide_eq_true_eq] at hd
  obtain ⟨hd, hlt⟩ := hd
  simp only [Bool.and_eq_true, decide_eq_true_eq, beq_iff_eq, hle] at hd
  split_ifs at hd with hdigit hsmall hlarge _ hat hunderscore <;> cases hd
  · have hascii : Text.isAsciiDigit c = true := by simpa [Text.isAsciiDigit, hle] using hdigit
    exact .inl hascii
  · have hsmall : 97 ≤ c.toNat ∧ c.toNat ≤ 122 := hsmall
    omega
  · have hlarge : 65 ≤ c.toNat ∧ c.toNat ≤ 90 := hlarge
    omega
  all_goals omega

theorem digitValue?_of_isHexDigit {c : Char} (h : isHexDigit c = true) :
    ∃ d < 16, Text.digitValue? c = some d := by
  have hle (a b : Char) : a ≤ b ↔ a.toNat ≤ b.toNat := UInt32.le_iff_toNat_le
  rcases isDigit_or_of_isHexDigit h with hdigit | ⟨hsmall, hsmall'⟩ | ⟨hlarge, hlarge'⟩
  · have hcode := Text.toNat_of_isDigit hdigit
    exact ⟨_, by omega, Text.digitValue?_of_isDigit hdigit⟩
  · exact ⟨c.toNat - 87, by omega, by rw [Text.digitValue?, if_pos (by simp [hle]; omega)]⟩
  · refine ⟨c.toNat - 55, by omega, ?_⟩
    rw [Text.digitValue?, if_neg (by simp [hle]; omega), if_pos (by simp [hle]; omega)]

theorem isNumeralBlank_of_isHexDigit {c : Char} (h : isHexDigit c = true) :
    Text.isNumeralBlank c = false := by
  have hcode : 48 ≤ c.toNat ∧ c.toNat ≤ 102 := by
    rcases isDigit_or_of_isHexDigit h with hdigit | hletter
    · have := Text.toNat_of_isDigit hdigit
      omega
    · omega
  have hapart : ∀ r ∈ Text.blankRanges, r.2 < 48 ∨ 102 < r.1 := by decide
  have hblank : Text.isBlank c = false := by
    rw [Text.isBlank, Bool.eq_false_iff, ne_eq, Text.Ranges.holds_iff]
    rintro ⟨r, hr, hle, hge⟩
    have := hapart r hr
    omega
  rw [Text.isNumeralBlank, hblank, Bool.false_and]

/-- A run of hexadecimal digits has no radix mark. -/
theorem IsRun.dropRadixMark {digits : List Char} (h : IsRun isHexDigit digits) (base : Nat) :
    Text.dropRadixMark base digits = digits := by
  unfold Text.dropRadixMark
  split
  · next c rest =>
    have hc : isHexDigit c = true := h.of_mem c (by simp)
    have hne {mark : Char} (hmark : isHexDigit mark = false) : c ≠ mark := by
      rintro rfl
      rw [hc] at hmark
      cases hmark
    rw [if_neg (by simp [hne (show isHexDigit 'x' = false by decide),
      hne (show isHexDigit 'X' = false by decide), hne (show isHexDigit 'o' = false by decide),
      hne (show isHexDigit 'O' = false by decide)])]
  · rfl

/-- **A run of hexadecimal digits** is read from its start, in any base. -/
theorem IsRun.readInteger_eq {digits : List Char} (h : IsRun isHexDigit digits) (base : Nat) :
    Text.readInteger base (String.ofList digits) =
      match Text.readDigits base true 0 0 digits with
      | none => .error (.malformed base (String.ofList digits))
      | some (count, value, rest) =>
        if base == 10 && count > Text.maxDecimalDigits then .error (.tooManyDigits count)
        else if rest.all Text.isNumeralBlank then .ok (value : Int)
        else .error (.malformed base (String.ofList digits)) := by
  obtain ⟨c, rest, rfl⟩ := List.exists_cons_of_ne_nil h.ne_nil
  have hne {d : Char} (hd : isHexDigit d = false) : c ≠ d := by
    rintro rfl
    exact h.not_mem hd List.mem_cons_self
  exact Text.readInteger_of_front (isNumeralBlank_of_isHexDigit (h.of_mem c List.mem_cons_self))
    (hne (by decide)) (hne (by decide)) (h.dropRadixMark base)

/-- **A run of hexadecimal digits is a numeral**, however long it is. -/
theorem IsRun.readNumeral_hexadecimal {digits : List Char} (h : IsRun isHexDigit digits) :
    ∃ n : Nat, readNumeral 16 digits = .ok n := by
  have hvalues : ∀ c ∈ digits, c ≠ '_' ∧ ∃ d < 16, Text.digitValue? c = some d := by
    refine fun c hc => ⟨?_, digitValue?_of_isHexDigit (h.of_mem c hc)⟩
    rintro rfl
    exact absurd hc (h.not_mem (by decide))
  have hread := Text.readDigits_run hvalues true (fun hnil => absurd hnil h.ne_nil) 0 0
  refine ⟨Text.runValue 16 digits 0, ?_⟩
  rw [readNumeral, h.readInteger_eq, hread]
  rfl

/-! ## Literals -/

/-- **Literals** as they stand in a text: a run of digits, such a run with a number sign and more
behind it, or the mark of a hexadecimal literal and a run of hexadecimal digits. -/
inductive IsLiteral : List Char → Prop
  | decimal {digits : List Char} (h : IsRun Text.isAsciiDigit digits) : IsLiteral digits
  | based {base digits : List Char} (h : IsRun Text.isAsciiDigit base) :
      IsLiteral (base ++ '#' :: digits)
  | hexadecimal {mark : Char} {digits : List Char} (hmark : mark = 'x' ∨ mark = 'X')
      (h : IsRun isHexDigit digits) : IsLiteral ('0' :: mark :: digits)

section

variable {text base digits : List Char} {e : Error}

theorem IsLiteral.ne_nil (h : IsLiteral text) : text ≠ [] := by
  cases h with
  | decimal h => exact h.ne_nil
  | based h => simp
  | hexadecimal hmark h => simp

theorem dropWhile_of_not_mem (h : '#' ∉ text) : text.dropWhile (· ≠ '#') = [] := by
  rw [List.dropWhile_eq_nil_iff]
  intro c hc
  rw [decide_eq_true_eq]
  rintro rfl
  exact h hc

theorem readLiteral_based (h : '#' ∉ base) :
    readLiteral (base ++ '#' :: digits) = readBased (base ++ '#' :: digits) base digits := by
  have hbefore : ∀ c ∈ base, decide (c ≠ '#') = true := by
    intro c hc
    rw [decide_eq_true_eq]
    rintro rfl
    exact h hc
  rw [readLiteral.eq_def, List.dropWhile_append_of_pos hbefore,
    List.dropWhile_cons_of_neg (by simp), List.takeWhile_append_of_pos hbefore,
    List.takeWhile_cons_of_neg (by simp), List.append_nil]

/-- Behind a base there is no fault. -/
theorem isMalformed_of_readBased {n : Int} (hn : readNumeral 10 base = .ok n)
    (h : readBased text base digits = .error e) : e.isMalformed = true := by
  rw [readBased, hn] at h
  simp only [bind, Except.bind] at h
  split at h
  · split at h <;> cases h
    rfl
  · cases h
    rfl

/-- A literal is malformed, or it brings a fault. -/
theorem isFault_of_readLiteral (h : readLiteral text = .error e) (hform : e.isMalformed = false) :
    e.isFault = true := by
  have hnumeral (radix : Nat) (digits : List Char) (h : readNumeral radix digits = .error e) :
      e.isFault = true := by
    rw [readNumeral] at h
    split at h <;> cases h
    rfl
  rw [readLiteral.eq_def] at h
  split at h
  · rw [readBased] at h
    rcases hbase : readNumeral 10 (text.takeWhile (· ≠ '#')) with cause | n
    · rw [hbase] at h
      cases h
      exact hnumeral _ _ hbase
    · rw [isMalformed_of_readBased hbase h] at hform
      cases hform
  · split at h
    · exact hnumeral _ _ h
    · exact hnumeral _ _ h
    · split at h <;> cases h
      cases hform
    · exact hnumeral _ _ h

/-- **A literal brings a fault** only if a run of digits in it is too long. -/
theorem IsLiteral.hasLongRun (h : IsLiteral text) (he : readLiteral text = .error e)
    (hfault : e.isFault = true) : HasLongRun text := by
  cases h with
  | decimal h =>
    rw [readLiteral.eq_def, dropWhile_of_not_mem (h.not_mem (by decide))] at he
    dsimp only at he
    split at he
    · exact absurd (by simp) (h.not_mem (show Text.isAsciiDigit 'x' = false by decide))
    · exact absurd (by simp) (h.not_mem (show Text.isAsciiDigit 'X' = false by decide))
    · -- what is wrong with an octal literal is reported
      split at he <;> cases he
      cases hfault
    · rcases h.readNumeral_cases with ⟨n, hn⟩ | hlong
      · rw [hn] at he
        cases he
      · exact hlong
  | based h =>
    rw [readLiteral_based (h.not_mem (by decide))] at he
    rcases h.readNumeral_cases with ⟨n, hn⟩ | hlong
    · have hform := isMalformed_of_readBased hn he
      rw [Error.isMalformed_of_isFault hfault] at hform
      cases hform
    · exact hlong.mono (List.prefix_append _ _).isInfix
  | @hexadecimal mark digits hmark h =>
    have hplain : '#' ∉ '0' :: mark :: digits := by
      rcases hmark with rfl | rfl <;> simpa using h.not_mem (by decide)
    rw [readLiteral.eq_def, dropWhile_of_not_mem hplain] at he
    obtain ⟨n, hn⟩ := h.readNumeral_hexadecimal
    have hread : readNumeral 16 digits = .error e := by
      rcases hmark with rfl | rfl <;> exact he
    rw [hn] at hread
    cases hread

end

/-! ## Tokens -/

/-- A digit of another script, or a character that is like one. -/
def isForeignDigit (c : Char) : Bool := Text.isDigit c && !Text.isAsciiDigit c

/-- The literal at the front of a text has one of the three forms. -/
theorem isLiteral_literalLength {c : Char} {rest : List Char} (hc : Text.isAsciiDigit c = true) :
    IsLiteral ((c :: rest).take (literalLength (c :: rest))) := by
  have htake (p : Char → Bool) (chars : List Char) :
      chars.take (chars.takeWhile p).length = chars.takeWhile p :=
    (List.prefix_iff_eq_take.1 (List.takeWhile_prefix p)).symm
  generalize htext : c :: rest = text
  have hrun : IsRun Text.isAsciiDigit (text.takeWhile Text.isAsciiDigit) := by
    refine ⟨?_, fun _ => List.mem_takeWhile_imp⟩
    rw [← htext, List.takeWhile_cons_of_pos hc]
    exact List.cons_ne_nil _ _
  have hwhole := List.take_append_drop (text.takeWhile Text.isAsciiDigit).length text
  rw [htake] at hwhole
  have hdecimal : IsLiteral (text.take (text.takeWhile Text.isAsciiDigit).length) := by
    rw [htake]
    exact .decimal hrun
  unfold literalLength
  dsimp only
  split
  · next digits hdrop =>
    split
    · exact hdecimal
    · rw [hdrop] at hwhole
      generalize text.takeWhile Text.isAsciiDigit = run at hrun hwhole
      rw [← hwhole, Nat.add_assoc, List.take_length_add_append, Nat.add_comm, List.take_succ_cons]
      exact .based hrun
  · split
    · next mark digits _ =>
      split
      · next hmark =>
        split
        · exact hdecimal
        · next hne =>
          rw [Nat.add_comm, List.take_succ_cons, List.take_succ_cons, htake]
          refine .hexadecimal (by simpa using hmark) ⟨?_, fun _ => List.mem_takeWhile_imp⟩
          exact fun hnil => hne (List.length_eq_zero_iff.2 hnil)
      · exact hdecimal
    · exact hdecimal

/-- A literal that stands in a text. -/
structure Token.StandsIn (whole : List Char) (literal : String) : Prop where
  isInfix : literal.toList <:+: whole
  isLiteral : IsLiteral literal.toList

/-- Unless it is malformed, a token brings a fault, and only where it starts with a digit of another
script. -/
theorem Token.exists_isForeignDigit {text : List Char} {e : Error}
    (h : Token.first text = .error e) (hform : e.isMalformed = false) :
    e.isFault = true ∧ ∃ c ∈ text, isForeignDigit c = true := by
  unfold Token.first at h
  split at h
  · cases h
    cases hform
  · next c rest =>
    split at h
    · next hdigit =>
      split at h
      · dsimp only at h
        split at h <;> cases h
        cases hform
      · next hascii =>
        cases h
        exact ⟨rfl, c, List.mem_cons_self, by simp [isForeignDigit, hdigit, hascii]⟩
    · split at h
      · cases h
      · split at h <;> cases h
        cases hform

theorem Token.standsIn_of_first {text : List Char} {taken : String} {n : Nat}
    (h : Token.first text = .ok (.literal taken, n)) : StandsIn text taken := by
  unfold Token.first at h
  split at h
  · cases h
  · next c rest =>
    split at h
    · split at h
      · next hascii =>
        dsimp only at h
        split at h <;> cases h
        constructor <;> rw [String.toList_ofList]
        · exact (List.take_prefix _ _).isInfix
        · exact isLiteral_literalLength hascii
      · cases h
    · split at h
      · cases h
      · split at h <;> cases h

/-- **The literals among the tokens of a text** stand in it, and a fault comes from a digit that
stands in it. -/
theorem tokensFrom_cases {whole : List Char} (found : List Token) (text : List Char)
    (htext : text <:+ whole)
    (hfound : ∀ literal, Token.literal literal ∈ found → Token.StandsIn whole literal) :
    match tokensFrom found text with
    | .error e => e.isMalformed = false →
        e.isFault = true ∧ ∃ c ∈ whole, isForeignDigit c = true
    | .ok tokens => ∀ literal, Token.literal literal ∈ tokens → Token.StandsIn whole literal := by
  fun_induction tokensFrom found text with
  | case1 found => simpa using hfound
  | case2 found c rest _ ih => exact ih ((List.suffix_cons c rest).trans htext) hfound
  | case3 found c rest _ e he =>
    intro hform
    obtain ⟨hfault, d, hd, hforeign⟩ := Token.exists_isForeignDigit he hform
    exact ⟨hfault, d, htext.subset hd, hforeign⟩
  | case4 found c rest _ token n htoken ih =>
    refine ih (((List.drop_suffix _ _).trans (List.suffix_cons c rest)).trans htext) ?_
    intro literal hliteral
    rcases List.mem_cons.1 hliteral with rfl | hliteral
    · obtain ⟨hwithin, hform⟩ := Token.standsIn_of_first htoken
      exact ⟨hwithin.trans htext.isInfix, hform⟩
    · exact hfound literal hliteral

/-! ## The reader

What is left of the tokens need not be followed as it gets shorter: it is enough that it is among
all the tokens.
-/

/-- **What comes of some tokens**: unless they are malformed, an error is that of a literal among
them, and what is left is among them. -/
def Reading.IsFrom (tokens : List Token) {start : List Token} (r : Reading start) : Prop :=
  match r with
  | .error e => e.isMalformed = false →
      ∃ text, Token.literal text ∈ tokens ∧ readLiteral text.toList = .error e
  | .ok (_, rest) => rest.1 ⊆ tokens

section

variable {all : List Token}

theorem isMalformed_of_failAt {α : Type} {tokens : List Token} {e : Error}
    (h : (failAt tokens : Except Error α) = .error e) : e.isMalformed = true := by
  cases tokens <;> cases h <;> rfl

theorem isFrom_failAt {start : List Token} (tokens : List Token) :
    Reading.IsFrom all (failAt tokens : Reading start) := by
  cases tokens <;> nofun

theorem isFrom_readStepAfter {start : List Token} (e : Expr) (tokens : Rest start)
    (h : tokens.1 ⊆ all) : Reading.IsFrom all (readStepAfter e tokens) := by
  unfold readStepAfter
  split
  · exact List.subset_of_cons_subset h
  · exact h

mutual

theorem isFrom_readComma (tokens : List Token) (h : tokens ⊆ all) :
    Reading.IsFrom all (readComma tokens) := by
  have hfirst := isFrom_readAssignment tokens h
  rw [readComma]
  generalize readAssignment tokens = r at hfirst
  rcases r with e | ⟨e, rest, hlt⟩
  · exact hfirst
  · exact isFrom_readCommaFrom e ⟨rest, hlt⟩ hfirst
termination_by (tokens.length, loosestTier + 5)

theorem isFrom_readCommaFrom {start : List Token} (left : Expr) (tokens : Rest start)
    (h : tokens.1 ⊆ all) : Reading.IsFrom all (readCommaFrom left tokens) := by
  rw [readCommaFrom.eq_def]
  split
  · next rest hrest =>
    have hright := isFrom_readAssignment rest (List.subset_of_cons_subset h)
    generalize readAssignment rest = r at hright
    rcases r with e | ⟨right, rest', hlt⟩
    · exact hright
    · exact isFrom_readCommaFrom (.binary .comma left right) ⟨rest', _⟩ hright
  · exact h
termination_by (tokens.1.length, 0)
decreasing_by all_goals (subst_vars; decreasing_tactic)

theorem isFrom_readAssignment (tokens : List Token) (h : tokens ⊆ all) :
    Reading.IsFrom all (readAssignment tokens) := by
  rw [readAssignment.eq_def]
  split
  · next name op rest =>
    have hvalue := isFrom_readAssignment rest fun t ht => h (by simp [ht])
    generalize readAssignment rest = r at hvalue
    rcases r with e | ⟨value, rest', hlt⟩ <;> exact hvalue
  · exact isFrom_readConditional _ h
termination_by (tokens.length, loosestTier + 4)

theorem isFrom_readConditional (tokens : List Token) (h : tokens ⊆ all) :
    Reading.IsFrom all (readConditional tokens) := by
  have hcondition := isFrom_readTier loosestTier tokens h
  rw [readConditional.eq_def]
  generalize readTier loosestTier tokens = r at hcondition
  split
  · exact hcondition
  · next condition rest hlt =>
    have hrest : rest.length < tokens.length := Nat.lt_of_succ_lt hlt
    have hyes := isFrom_readAssignment rest (List.subset_of_cons_subset hcondition)
    generalize readAssignment rest = r at hyes
    split
    · exact hyes
    · next yes rest' hlt' =>
      have hrest' : rest'.length < tokens.length := (Nat.lt_of_succ_lt hlt').trans hrest
      have hno := isFrom_readAssignment rest' (List.subset_of_cons_subset hyes)
      generalize readAssignment rest' = r at hno
      rcases r with e | ⟨no, rest₃, h₃⟩ <;> exact hno
    · exact isFrom_failAt _
  · exact hcondition
termination_by (tokens.length, loosestTier + 3)

theorem isFrom_readTier (tier : Nat) (tokens : List Token) (h : tokens ⊆ all) :
    Reading.IsFrom all (readTier tier tokens) := by
  rw [readTier.eq_def]
  cases tier with
  | zero => exact isFrom_readPower tokens h
  | succ tier =>
    have hfirst := isFrom_readTier tier tokens h
    dsimp only
    generalize readTier tier tokens = r at hfirst
    rcases r with e | ⟨e, rest, hlt⟩
    · exact hfirst
    · exact isFrom_readTierFrom tier e ⟨rest, hlt⟩ hfirst
termination_by (tokens.length, tier + 2)

theorem isFrom_readTierFrom {start : List Token} (tier : Nat) (left : Expr) (tokens : Rest start)
    (h : tokens.1 ⊆ all) : Reading.IsFrom all (readTierFrom tier left tokens) := by
  rw [readTierFrom.eq_def]
  split
  · next op rest hrest =>
    split
    · have hright := isFrom_readTier tier rest (List.subset_of_cons_subset h)
      generalize readTier tier rest = r at hright
      rcases r with e | ⟨right, rest', hlt⟩
      · exact hright
      · exact isFrom_readTierFrom tier (.binary op left right) ⟨rest', _⟩ hright
    · exact h
  · exact h
termination_by (tokens.1.length, 0)
decreasing_by all_goals (subst_vars; decreasing_tactic)

theorem isFrom_readPower (tokens : List Token) (h : tokens ⊆ all) :
    Reading.IsFrom all (readPower tokens) := by
  have hbase := isFrom_readUnary tokens h
  rw [readPower.eq_def]
  generalize readUnary tokens = r at hbase
  split
  · exact hbase
  · next base rest hlt =>
    have hrest : rest.length < tokens.length := Nat.lt_of_succ_lt hlt
    have hexponent := isFrom_readPower rest (List.subset_of_cons_subset hbase)
    generalize readPower rest = r at hexponent
    rcases r with e | ⟨exponent, rest', hlt'⟩ <;> exact hexponent
  · exact hbase
termination_by (tokens.length, 1)

theorem isFrom_readUnary (tokens : List Token) (h : tokens ⊆ all) :
    Reading.IsFrom all (readUnary tokens) := by
  rw [readUnary.eq_def]
  split
  · split
    · exact fun t ht => h (by simp [ht])
    · exact isFrom_failAt _
  · next symbol rest _ =>
    have hrest : rest ⊆ all := List.subset_of_cons_subset h
    split
    · have hoperand := isFrom_readUnary rest hrest
      generalize readUnary rest = r at hoperand
      rcases r with e | ⟨e, rest', hlt⟩ <;> exact hoperand
    · split
      · have hinner := isFrom_readComma rest hrest
        generalize readComma rest = r at hinner
        split
        · exact hinner
        · exact isFrom_readStepAfter _ _ (List.subset_of_cons_subset hinner)
        · exact isFrom_failAt _
      · exact isFrom_failAt _
  · next text rest =>
    split
    · next e heq => exact fun _ => ⟨text, h List.mem_cons_self, heq⟩
    · exact List.subset_of_cons_subset h
  · exact isFrom_readStepAfter _ _ (List.subset_of_cons_subset h)
  · exact isFrom_failAt _
termination_by (tokens.length, 0)

end

/-- Unless an expression is malformed, its error is that of a literal among its tokens. -/
theorem Expr.exists_literal_of_ofTokens {tokens : List Token} {e : Error}
    (h : Expr.ofTokens tokens = .error e) (hform : e.isMalformed = false) :
    ∃ text, Token.literal text ∈ tokens ∧ readLiteral text.toList = .error e := by
  have hread := isFrom_readComma tokens fun _ => id
  unfold Expr.ofTokens at h
  split at h
  · cases h
  · generalize readComma _ = r at h hread
    split at h
    · cases h
      exact hread hform
    · cases h
    · rw [isMalformed_of_failAt h] at hform
      cases hform

end

/-! ## The digits of a text -/

/-- **What can be wrong with the digits of a text**: one is of another script, or a run of them is
too long. -/
def HasFaultyDigits (text : List Char) : Prop :=
  (∃ c ∈ text, isForeignDigit c = true) ∨ HasLongRun text

theorem HasFaultyDigits.mono {text whole : List Char} (h : HasFaultyDigits text)
    (hwhole : text <:+: whole) : HasFaultyDigits whole := by
  rcases h with ⟨c, hc, hforeign⟩ | hlong
  · exact .inl ⟨c, hwhole.subset hc, hforeign⟩
  · exact .inr (hlong.mono hwhole)

/-- **Reading brings a fault** unless the text is malformed, and only where there are digits for
it. -/
theorem Expr.isFault_of_parse {text : String} {e : Error} (h : Expr.parse text = .error e)
    (hform : e.isMalformed = false) : e.isFault = true ∧ HasFaultyDigits text.toList := by
  have htokens := tokensFrom_cases [] text.toList (List.suffix_refl _) nofun
  rw [← tokens] at htokens
  rw [Expr.parse] at h
  rcases htext : tokens text with cause | ts <;> rw [htext] at h htokens
  · obtain rfl : cause = e := Except.error.inj h
    obtain ⟨hfault, hforeign⟩ := htokens hform
    exact ⟨hfault, .inl hforeign⟩
  · obtain ⟨taken, hmem, htaken⟩ := Expr.exists_literal_of_ofTokens h hform
    obtain ⟨hwithin, hliteral⟩ := htokens taken hmem
    have hfault : e.isFault = true := isFault_of_readLiteral htaken hform
    have hlong : HasLongRun taken.toList := hliteral.hasLongRun htaken hfault
    exact ⟨hfault, .inr (hlong.mono hwithin)⟩

theorem Expr.hasFaultyDigits_of_parse {text : String} {e : Error} (h : Expr.parse text = .error e)
    (hfault : e.isFault = true) : HasFaultyDigits text.toList :=
  (Expr.isFault_of_parse h (Error.isMalformed_of_isFault hfault)).2

end VirtualShell.Arith
