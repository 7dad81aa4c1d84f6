import Mathlib
import VirtualShell.Arith.Parser
import VirtualShell.Proofs.Reading.Numeral

/-!
# Tokens with spaces between them

When spaces stand between the tokens of an arithmetic text, no token can run into the next one, and
each is found again as it is written: a numeral with its value, a name, and a symbol even where it
is the front of a longer one.

* `Text.readInteger_toString` — a number is read back from its decimal numeral.
* `Arith.Token.first_spelling` — a token in front of a space is found.
* **`Arith.tokens_spaced`** — so all of them are found.
-/

namespace VirtualShell

/-! ## Decimal numerals -/

namespace Text

theorem toNat_of_isDigit {c : Char} (h : c.isDigit = true) : 48 ≤ c.toNat ∧ c.toNat ≤ 57 := by
  rw [Char.isDigit, Bool.and_eq_true, decide_eq_true_eq, decide_eq_true_eq] at h
  exact ⟨UInt32.le_iff_toNat_le.1 h.1, UInt32.le_iff_toNat_le.1 h.2⟩

theorem isDecimal_of_isDigit {c : Char} (h : c.isDigit = true) : isDecimal c = true :=
  (Ranges.holds_iff _ _).2 ⟨(48, 57), List.mem_cons_self, toNat_of_isDigit h⟩

theorem isAsciiDigit_of_isDigit {c : Char} (h : c.isDigit = true) : isAsciiDigit c = true := h

theorem isDigit_of_isAsciiDigit {c : Char} (h : isAsciiDigit c = true) : isDigit c = true := by
  rw [isDigit, isDecimal_of_isDigit h, Bool.true_or]

/-- The value of one of the ten digits. -/
theorem digitValue?_of_isDigit {c : Char} (h : c.isDigit = true) :
    digitValue? c = some (c.toNat - 48) := by
  obtain ⟨hle, hge⟩ := toNat_of_isDigit h
  have hsmall : ¬ ('a' ≤ c ∧ c ≤ 'z') := fun hc => by
    have : 97 ≤ c.toNat := UInt32.le_iff_toNat_le.1 hc.1
    omega
  have hlarge : ¬ ('A' ≤ c ∧ c ≤ 'Z') := fun hc => by
    have : 65 ≤ c.toNat := UInt32.le_iff_toNat_le.1 hc.1
    omega
  have hfirst : decimalValue? c = some ((c.toNat - 48) % 10) := by
    rw [decimalValue?, decimalRanges, List.find?_cons_of_pos (by simp [hle, hge])]
    rfl
  simp only [digitValue?, Bool.and_eq_true, decide_eq_true_eq]
  rw [if_neg hsmall, if_neg hlarge, hfirst, Nat.mod_eq_of_lt (by omega)]

/-- A run of the ten digits is read to its end, as the number it writes. -/
theorem readDigits_of_isDigit {digits : List Char} (h : ∀ c ∈ digits, c.isDigit = true)
    (apart : Bool) (hapart : digits = [] → apart = false) (count value : Nat) :
    readDigits 10 apart count value digits =
      some (count + digits.length, Nat.ofDigitChars 10 digits value, []) := by
  have hvalue : runValue 10 digits value = Nat.ofDigitChars 10 digits value := by
    refine List.foldl_ext _ _ _ fun value c hc => ?_
    rw [digitValue?_of_isDigit (h c hc), Option.getD_some, Nat.mul_comm]
    rfl
  rw [← hvalue]
  refine readDigits_run (fun c hc => ?_) apart hapart count value
  have hcode := toNat_of_isDigit (h c hc)
  refine ⟨?_, _, by omega, digitValue?_of_isDigit (h c hc)⟩
  rintro rfl
  exact absurd (h _ hc) (by decide)

/-- The numeral of a number consists of digits. -/
theorem isDigit_of_mem_toString {n : Nat} {c : Char} (h : c ∈ (toString n).toList) :
    c.isDigit = true := by
  rw [Nat.toString_eq_repr, Nat.toList_repr] at h
  exact Nat.isDigit_of_mem_toDigits (by decide) (by decide) h

/-- It starts with one. -/
theorem exists_cons_toString (n : Nat) : ∃ c rest, (toString n).toList = c :: rest := by
  rw [Nat.toString_eq_repr, Nat.toList_repr]
  exact List.exists_cons_of_ne_nil (Nat.toDigits_ne_nil)

/-- Only the numeral of zero starts with a zero. -/
theorem head?_toString {n : Nat} (h : n ≠ 0) : (toString n).toList.head? ≠ some '0' := by
  rw [Nat.toString_eq_repr, Nat.toList_repr]
  induction n using Nat.strongRecOn with
  | ind n ih =>
    by_cases hn : n < 10
    · rw [Nat.toDigits_of_lt_base hn]
      interval_cases n <;> first | exact absurd rfl h | decide
    · have hlower := ih (n / 10) (by omega) (by omega)
      rw [Nat.toDigits_of_base_le (by decide) (by omega)]
      obtain ⟨c, rest, hdigits⟩ :=
        List.exists_cons_of_ne_nil (Nat.toDigits_ne_nil (b := 10) (n := n / 10))
      rw [hdigits] at hlower ⊢
      exact hlower

/-- The numerals of the numbers up to two to the sixty-fourth are not too long. -/
theorem length_toString_le {n : Nat} (h : n ≤ 2 ^ 64) : (toString n).length ≤ maxDecimalDigits := by
  rw [Nat.toString_eq_repr]
  refine Nat.le_trans ((Nat.length_repr_le_iff (k := 20) (by decide)).2 ?_) (by decide)
  omega

/-- **A run of the ten digits is a numeral** with the number it writes, unless it is too long. -/
theorem readInteger_of_isDigit {digits : List Char} (h : ∀ c ∈ digits, c.isDigit = true)
    (hne : digits ≠ []) :
    readInteger 10 (String.ofList digits) =
      if maxDecimalDigits < digits.length then .error (.tooManyDigits digits.length)
      else .ok (Nat.ofDigitChars 10 digits 0 : Int) := by
  have hread := readDigits_of_isDigit h true (fun hnil => absurd hnil hne) 0 0
  rw [Nat.zero_add] at hread
  obtain ⟨c, rest, rfl⟩ := List.exists_cons_of_ne_nil hne
  exact readInteger_of_readDigits (isDecimal_of_isDigit (h c List.mem_cons_self)) hread

/-- The numeral of a number writes that number. -/
theorem ofDigitChars_toString (n : Nat) : Nat.ofDigitChars 10 (toString n).toList 0 = n := by
  rw [Nat.toString_eq_repr, Nat.toList_repr]
  exact Nat.ofDigitChars_toDigits (by decide) (by decide)

/-- **A number is read back** from its decimal numeral, if that is not too long. -/
theorem readInteger_toString {n : Nat} (h : (toString n).length ≤ maxDecimalDigits) :
    readInteger 10 (toString n) = .ok (n : Int) := by
  have hdigits : ∀ c ∈ (toString n).toList, c.isDigit = true := fun _ => isDigit_of_mem_toString
  have hread := readInteger_of_isDigit hdigits (by simp)
  rwa [String.ofList_toList, String.length_toList, if_neg (Nat.not_lt.2 h),
    ofDigitChars_toString] at hread

end Text

namespace Arith

/-- The decimal numeral of a number is a literal with that value. -/
theorem readLiteral_toString {n : Nat} (h : (toString n).length ≤ Text.maxDecimalDigits) :
    readLiteral (toString n).toList = .ok (n : Int) := by
  have hmark : (toString n).toList.dropWhile (· ≠ '#') = [] := by
    rw [List.dropWhile_eq_nil_iff]
    intro c hc
    rw [decide_eq_true_eq]
    rintro rfl
    exact absurd (Text.isDigit_of_mem_toString hc) (by decide)
  have hread : readNumeral 10 (toString n).toList = .ok (n : Int) := by
    rw [readNumeral, String.ofList_toList, Text.readInteger_toString h]
  unfold readLiteral
  rw [hmark]
  dsimp only
  split
  · next digits hlist =>
    have hx := Text.isDigit_of_mem_toString (n := n) (c := 'x') (by rw [hlist]; simp)
    exact absurd hx (by decide)
  · next digits hlist =>
    have hx := Text.isDigit_of_mem_toString (n := n) (c := 'X') (by rw [hlist]; simp)
    exact absurd hx (by decide)
  · next hlist =>
    have hzero : n ≠ 0 := by
      rintro rfl
      simp at hlist
    exact absurd (by rw [hlist]; rfl) (Text.head?_toString hzero)
  · exact hread

/-! ## Tokens as they are written -/

/-- A letter or an underscore, followed by letters, digits and underscores. -/
def isName (text : String) : Bool :=
  match text.toList with
  | c :: rest => Text.isNameStart c && rest.all Text.isNameChar
  | [] => false

theorem exists_cons_of_isName {text : String} (h : isName text = true) :
    ∃ c rest, text.toList = c :: rest ∧ Text.isNameStart c = true ∧
      ∀ c ∈ rest, Text.isNameChar c = true := by
  unfold isName at h
  split at h
  · next c rest hlist =>
    rw [Bool.and_eq_true, List.all_eq_true] at h
    exact ⟨c, rest, hlist, h⟩
  · cases h

/-- The token is written as a token of its kind: a literal with digits only. -/
def Token.IsSpelled : Token → Prop
  | .literal text => text ≠ "" ∧ ∀ c ∈ text.toList, c.isDigit = true
  | .name text => isName text = true
  | .symbol s => s ∈ symbols

/-- Nothing follows, or a space does. -/
def Apart (rest : List Char) : Prop := rest = [] ∨ ∃ after, rest = ' ' :: after

theorem Apart.takeWhile {rest : List Char} (h : Apart rest) {p : Char → Bool}
    (hp : p ' ' = false) : rest.takeWhile p = [] := by
  rcases h with rfl | ⟨after, rfl⟩
  · rfl
  · exact List.takeWhile_cons_of_neg (by simp [hp])

/-- A run of characters is taken off in front of a space. -/
theorem takeWhile_apart {p : Char → Bool} {run rest : List Char} (hrun : ∀ c ∈ run, p c = true)
    (hp : p ' ' = false) (hrest : Apart rest) : (run ++ rest).takeWhile p = run := by
  rw [List.takeWhile_append_of_pos hrun, hrest.takeWhile hp, List.append_nil]

/-! ### Literals -/

theorem literalLength_digits {c : Char} {digits rest : List Char} (hc : c.isDigit = true)
    (hdigits : ∀ c ∈ digits, c.isDigit = true) (hrest : Apart rest) :
    literalLength (c :: (digits ++ rest)) = digits.length + 1 := by
  have hrun : (c :: digits ++ rest).takeWhile Text.isAsciiDigit = c :: digits :=
    takeWhile_apart (by simpa using ⟨hc, hdigits⟩) (by decide) hrest
  unfold literalLength
  rw [← List.cons_append, hrun]
  dsimp only
  rw [List.drop_left]
  have hplain : ∀ x ∈ (digits ++ rest).head?, x ≠ 'x' ∧ x ≠ 'X' := by
    intro x hx
    cases digits with
    | cons d digits =>
      obtain rfl : d = x := by simpa using hx
      constructor <;> rintro rfl <;> exact absurd (hdigits _ List.mem_cons_self) (by decide)
    | nil =>
      rcases hrest with rfl | ⟨after, rfl⟩
      · simp at hx
      · obtain rfl : ' ' = x := by simpa using hx
        decide
  split
  · rcases hrest with hnil | ⟨after, hspace⟩
    · cases hnil
    · cases hspace
  · split
    · next x more heq =>
      have htail : digits ++ rest = x :: more := (List.cons.inj heq).2
      have hx := hplain x (by rw [htail]; rfl)
      rw [if_neg (by simp [hx])]
      rfl
    · rfl

theorem first_literal {text : String} {rest : List Char} (h : (Token.literal text).IsSpelled)
    (hrest : Apart rest) :
    Token.first (text.toList ++ rest) = .ok (.literal text, text.length) := by
  obtain ⟨hne, hdigits⟩ := h
  have hlength := String.length_toList (s := text)
  have hofList := String.ofList_toList (s := text)
  obtain ⟨c, digits, hlist⟩ := List.exists_cons_of_ne_nil (mt String.toList_eq_nil_iff.1 hne)
  rw [hlist] at hdigits hlength hofList
  have hc := hdigits c List.mem_cons_self
  have htake : literalLength (c :: (digits ++ rest)) = (c :: digits).length :=
    literalLength_digits hc (fun d hd => hdigits d (List.mem_cons_of_mem _ hd)) hrest
  rw [hlist, List.cons_append, Token.first, if_pos (Text.isDigit_of_isAsciiDigit hc),
    if_pos (Text.isAsciiDigit_of_isDigit hc), htake]
  dsimp only
  rw [← List.cons_append, List.drop_left, List.take_left, if_neg, hofList, hlength]
  rcases hrest with rfl | ⟨after, rfl⟩
  · simp
  · rw [List.head?_cons, Option.any_some]
    decide +kernel

/-! ### Names -/

theorem toNat_of_isNameStart {c : Char} (h : Text.isNameStart c = true) :
    c.toNat < 128 ∧ 57 < c.toNat := by
  rw [Text.isNameStart, Bool.or_eq_true, Bool.or_eq_true, Bool.and_eq_true, Bool.and_eq_true,
    beq_iff_eq] at h
  simp only [decide_eq_true_eq] at h
  rcases h with (⟨hle, hge⟩ | ⟨hle, hge⟩) | rfl
  · have hle : 65 ≤ c.toNat := UInt32.le_iff_toNat_le.1 hle
    have hge : c.toNat ≤ 90 := UInt32.le_iff_toNat_le.1 hge
    omega
  · have hle : 97 ≤ c.toNat := UInt32.le_iff_toNat_le.1 hle
    have hge : c.toNat ≤ 122 := UInt32.le_iff_toNat_le.1 hge
    omega
  · decide

theorem isDigit_of_isNameStart {c : Char} (h : Text.isNameStart c = true) :
    Text.isDigit c = false := by
  have hcode := toNat_of_isNameStart h
  rw [Text.isDigit_of_ascii hcode.1]
  simp [Nat.not_le.2 hcode.2]

theorem first_name {text : String} {rest : List Char} (h : isName text = true)
    (hrest : Apart rest) :
    Token.first (text.toList ++ rest) = .ok (.name text, text.length) := by
  obtain ⟨c, chars, hlist, hc, hchars⟩ := exists_cons_of_isName h
  have hlength := String.length_toList (s := text)
  have hofList := String.ofList_toList (s := text)
  rw [hlist] at hlength hofList
  have htake : ∃ after, takeName (c :: (chars ++ rest)) = some (c :: chars, after) := by
    rw [takeName, if_pos hc, takeWhile_apart hchars (by decide) hrest]
    exact ⟨_, rfl⟩
  obtain ⟨after, htake⟩ := htake
  rw [hlist, List.cons_append, Token.first, isDigit_of_isNameStart hc, if_neg Bool.false_ne_true,
    htake]
  dsimp only
  rw [hofList, hlength]

/-! ### Symbols -/

/-- **No symbol goes on** into the text: it starts with a character that is in none. -/
def EndsSymbols (rest : List Char) : Prop :=
  ∀ c ∈ rest.head?, ∀ s ∈ symbols, c ∉ s.spelling.toList

theorem Apart.endsSymbols {rest : List Char} (h : Apart rest) : EndsSymbols rest := by
  rcases h with rfl | ⟨after, rfl⟩
  · rintro c ⟨⟩
  · rintro c ⟨⟩
    decide

theorem endsSymbols_of_isDigit {c : Char} (h : c.isDigit = true) (rest : List Char) :
    EndsSymbols (c :: rest) := by
  have hsymbols : (symbols.all fun s => s.spelling.toList.all fun c => !c.isDigit) = true := by
    decide
  rintro _ ⟨⟩ s hs hc
  have hnone := List.all_eq_true.1 (List.all_eq_true.1 hsymbols s hs) c hc
  rw [h] at hnone
  cases hnone

/-- A symbol that stands at the front of another one and of what follows it stands at the front of
the other one alone. -/
theorem isPrefixOf_append {part whole rest : List Char} (h : ∀ c ∈ rest.head?, c ∉ part) :
    part.isPrefixOf (whole ++ rest) = part.isPrefixOf whole := by
  induction part generalizing whole with
  | nil => simp
  | cons c part ih =>
    have hpart : ∀ d ∈ rest.head?, d ∉ part := fun d hd hmem => h d hd (List.mem_cons_of_mem _ hmem)
    cases whole with
    | cons d whole => simp [List.isPrefixOf, ih hpart]
    | nil =>
      cases rest with
      | nil => rfl
      | cons d rest =>
        have hne : c ≠ d := fun heq => h d rfl (heq ▸ List.mem_cons_self)
        simp [List.isPrefixOf, hne]

/-- **The longest symbol.** Each symbol is the first of those at the front of it. -/
theorem find?_spelling : ∀ s ∈ symbols,
    symbols.find? (fun s' => s'.spelling.toList.isPrefixOf s.spelling.toList) = some s := by
  decide

theorem exists_cons_symbol : ∀ s ∈ symbols, ∃ c rest, s.spelling.toList = c :: rest ∧
    c.toNat < 128 ∧ (c.toNat < 48 ∨ 57 < c.toNat) ∧ Text.isNameStart c = false := by
  intro s hs
  have hfine : ∀ s ∈ symbols, s.spelling.toList.head?.any fun c =>
      c.toNat < 128 && !(48 ≤ c.toNat && c.toNat ≤ 57) && !Text.isNameStart c := by decide
  have hs := hfine s hs
  cases hlist : s.spelling.toList with
  | nil => simp [hlist] at hs
  | cons c rest => exact ⟨c, rest, rfl, by simpa [hlist, and_assoc] using hs⟩

theorem first_symbol {s : Symbol} {rest : List Char} (hs : s ∈ symbols) (hrest : EndsSymbols rest) :
    Token.first (s.spelling.toList ++ rest) = .ok (.symbol s, s.spelling.length) := by
  obtain ⟨c, chars, hlist, hascii, hdigit, hname⟩ := exists_cons_symbol s hs
  have hfind : symbols.find? (fun s' => s'.spelling.toList.isPrefixOf (s.spelling.toList ++ rest)) =
      some s := by
    rw [← find?_spelling s hs]
    exact List.find?_congr fun s' hs' => isPrefixOf_append fun c hc => hrest c hc s' hs'
  have hfirst : Text.isDigit c = false := by
    rw [Text.isDigit_of_ascii hascii, Bool.eq_false_iff, ne_eq, Bool.and_eq_true,
      decide_eq_true_eq, decide_eq_true_eq]
    omega
  rw [hlist, List.cons_append] at hfind ⊢
  rw [Token.first, hfirst, if_neg Bool.false_ne_true, takeName, hname, if_neg Bool.false_ne_true]
  dsimp only
  rw [hfind]

/-! ## All tokens -/

/-- **A token in front of a space** is found. -/
theorem Token.first_spelling {t : Token} {rest : List Char} (h : t.IsSpelled)
    (hrest : Apart rest) :
    Token.first (t.spelling.toList ++ rest) = .ok (t, t.spelling.length) := by
  cases t with
  | literal text => exact first_literal h hrest
  | name text => exact first_name h hrest
  | symbol s => exact first_symbol h hrest.endsSymbols

theorem isSeparator_of_lt {c : Char} (h : 32 < c.toNat) : isSeparator c = false := by
  rw [isSeparator, Bool.or_eq_false_iff, Bool.or_eq_false_iff]
  refine ⟨⟨?_, ?_⟩, ?_⟩ <;> rw [beq_eq_false_iff_ne] <;> rintro rfl <;> exact absurd h (by decide)

/-- No token starts with a separator. -/
theorem Token.exists_cons_spelling {t : Token} (h : t.IsSpelled) :
    ∃ c chars, t.spelling.toList = c :: chars ∧ isSeparator c = false := by
  cases t with
  | literal text =>
    obtain ⟨c, chars, hlist⟩ := List.exists_cons_of_ne_nil (mt String.toList_eq_nil_iff.1 h.1)
    have hcode := Text.toNat_of_isDigit (h.2 c (hlist ▸ List.mem_cons_self))
    exact ⟨c, chars, hlist, isSeparator_of_lt (by omega)⟩
  | name text =>
    obtain ⟨c, chars, hlist, hc, -⟩ := exists_cons_of_isName h
    have hcode := toNat_of_isNameStart hc
    exact ⟨c, chars, hlist, isSeparator_of_lt (by omega)⟩
  | symbol s =>
    have hfine : ∀ s ∈ symbols, s.spelling.toList.head?.any fun c => 32 < c.toNat := by decide
    have hs := hfine s h
    cases hlist : s.spelling.toList with
    | nil => simp [hlist] at hs
    | cons c chars => exact ⟨c, chars, hlist, isSeparator_of_lt (by simpa [hlist] using hs)⟩

theorem tokensFrom_token {t : Token} {rest : List Char} (found : List Token) (h : t.IsSpelled)
    (hfirst : Token.first (t.spelling.toList ++ rest) = .ok (t, t.spelling.length)) :
    tokensFrom found (t.spelling.toList ++ rest) = tokensFrom (t :: found) rest := by
  obtain ⟨c, chars, hlist, hc⟩ := t.exists_cons_spelling h
  have hlength := String.length_toList (s := t.spelling)
  rw [hlist, List.cons_append] at hfirst ⊢
  rw [tokensFrom, if_neg (by simp [hc]), hfirst]
  dsimp only
  rw [← hlength, hlist, List.length_cons, Nat.add_sub_cancel, List.drop_left]

theorem tokensFrom_space (found : List Token) (rest : List Char) :
    tokensFrom found (' ' :: rest) = tokensFrom found rest := by
  rw [tokensFrom, if_pos (by decide)]

theorem tokensFrom_spaced (found ts : List Token) (h : ∀ t ∈ ts, t.IsSpelled) :
    tokensFrom found ([' '].intercalate (ts.map (·.spelling.toList))) =
      .ok (found.reverse ++ ts) := by
  induction ts generalizing found with
  | nil => simp [List.intercalate, tokensFrom]
  | cons t ts ih =>
    have ht := h t List.mem_cons_self
    have ih := ih (t :: found) fun t ht => h t (List.mem_cons_of_mem _ ht)
    rw [List.reverse_cons, List.append_assoc, List.singleton_append] at ih
    cases ts with
    | nil =>
      rw [List.map_singleton, List.intercalate_singleton,
        ← List.append_nil (t.spelling.toList),
        tokensFrom_token found ht (t.first_spelling ht (.inl rfl))]
      exact ih
    | cons t' ts =>
      rw [List.map_cons, List.map_cons, List.intercalate_cons_cons, List.append_assoc,
        List.singleton_append, tokensFrom_token found ht (t.first_spelling ht (.inr ⟨_, rfl⟩)),
        tokensFrom_space]
      exact ih

/-- **Tokens with spaces between them** are found as they are. -/
theorem tokens_spaced {ts : List Token} (h : ∀ t ∈ ts, t.IsSpelled) :
    tokens (" ".intercalate (ts.map Token.spelling)) = .ok ts := by
  rw [tokens, String.toList_intercalate, List.map_map]
  exact tokensFrom_spaced [] ts h

/-- The token of a number. -/
theorem isSpelled_toString (n : Nat) : Token.IsSpelled (.literal (toString n)) := by
  obtain ⟨c, rest, hlist⟩ := Text.exists_cons_toString n
  exact ⟨fun heq => by simp [heq] at hlist, fun _ => Text.isDigit_of_mem_toString⟩

/-- **A negative number** is a sign and a literal, with no space between them. -/
theorem tokens_negative (n : Nat) :
    tokens ("-" ++ toString n) = .ok [.symbol (.binary .subtract), .literal (toString n)] := by
  have hsign : Token.IsSpelled (.symbol (.binary .subtract)) :=
    show Symbol.binary .subtract ∈ symbols by decide
  have hends : EndsSymbols (toString n).toList := by
    obtain ⟨c, rest, hlist⟩ := Text.exists_cons_toString n
    have hc : c.isDigit = true := Text.isDigit_of_mem_toString (n := n) (hlist ▸ List.mem_cons_self)
    exact hlist ▸ endsSymbols_of_isDigit hc rest
  have hlast := tokensFrom_token [.symbol (.binary .subtract)] (isSpelled_toString n)
    (first_literal (isSpelled_toString n) (.inl rfl))
  rw [tokens, String.toList_append]
  change tokensFrom [] ((Token.symbol (.binary .subtract)).spelling.toList ++ _) = _
  rw [tokensFrom_token [] hsign (first_symbol hsign hends)]
  change tokensFrom _ ((Token.literal (toString n)).spelling.toList) = _
  rw [← List.append_nil (Token.literal (toString n)).spelling.toList, hlast, tokensFrom]
  rfl

end Arith

end VirtualShell
