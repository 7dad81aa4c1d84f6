import Mathlib
import VirtualShell.Proofs.Arith.Failure

/-!
# The values of literals

A number is written in a base, with digits in the order of the ten digits, the small letters, the
capital letters, the at sign and the underscore. Up to base thirty-six a capital letter counts as the
small one. There are four forms: the base and a number sign stand in front of the digits, or the mark
of a hexadecimal literal does, or the zero of an octal one, or nothing does and the base is ten.

Three routines read the digits. The lexer decides where a literal ends, by the digits of base
sixty-four, of base sixteen and of base ten; behind a base there is a reader that knows the whole
order; and the other forms go through the reader of integers, which knows other digits and
underscores as well. They agree on the digits of each base, and that is all that the lexer leaves to
them. What it does not take into a literal is an error at once.

* `digitValue?_eq_some_iff` — a digit has the value of its place in the order.
* `IsNumeral.readBaseDigits`, `IsNumeral.readNumeral` — a numeral is read as the number it writes.
* `isLiteral_or_malformed` — a text of digits is one literal, or it is malformed.
* **`LiteralForm.evaluate_front_append`** — a literal has the value of its numeral, cut to sixty-four
  bits, and with a digit that its base does not have it is malformed.
-/

namespace VirtualShell.Arith

/-! ## Digits -/

/-- **The digits of all bases**, each at the place of its value. -/
def digitOrder : List Char := [
  '0', '1', '2', '3', '4', '5', '6', '7', '8', '9',
  'a', 'b', 'c', 'd', 'e', 'f', 'g', 'h', 'i', 'j', 'k', 'l', 'm',
  'n', 'o', 'p', 'q', 'r', 's', 't', 'u', 'v', 'w', 'x', 'y', 'z',
  'A', 'B', 'C', 'D', 'E', 'F', 'G', 'H', 'I', 'J', 'K', 'L', 'M',
  'N', 'O', 'P', 'Q', 'R', 'S', 'T', 'U', 'V', 'W', 'X', 'Y', 'Z',
  '@', '_']

/-- **The character writes the digit** in the base: it stands at that place of the order, and up to
base thirty-six it may be the capital letter instead of the small one. -/
def Writes (base d : Nat) (c : Char) : Prop :=
  d < base ∧ (digitOrder[d]? = some c ∨ base ≤ 36 ∧ digitOrder[d]?.map Char.toUpper = some c)

instance (base d : Nat) (c : Char) : Decidable (Writes base d c) :=
  inferInstanceAs (Decidable (_ ∧ (_ ∨ _ ∧ _)))

/-- A digit is one of every larger base where the case of a letter does not count. -/
theorem Writes.mono {base whole d : Nat} {c : Char} (h : Writes base d c) (hle : base ≤ whole)
    (hwhole : whole ≤ 36) : Writes whole d c :=
  ⟨Nat.lt_of_lt_of_le h.1 hle, h.2.imp_right fun h => ⟨hwhole, h.2⟩⟩

/-- Besides the bound on its value, a digit knows of its base only whether the case of a letter
counts. -/
theorem digitValue?_eq_filter {base whole : Nat} (hle : base ≤ whole)
    (hcase : base ≤ 36 ↔ whole ≤ 36) (c : Char) :
    digitValue? base c = (digitValue? whole c).filter (· < base) := by
  simp only [digitValue?, hcase, Option.filter_filter]
  congr 1
  funext d
  rw [← Bool.decide_and, decide_eq_decide]
  omega

/-- **A digit at its place** has the place as its value in the largest base. In base thirty-six a
capital letter counts as the small one, twenty-six places before it, and the reader of integers knows
the digits of that base and no more of the order. -/
theorem digitValue?_of_place {c : Char} {place : Nat} (h : digitOrder[place]? = some c) :
    digitValue? 64 c = some place ∧
      digitValue? 36 c =
        (if place < 36 then some place else if place < 62 then some (place - 26) else none) ∧
      Text.digitValue? c = digitValue? 36 c := by
  have hall : ∀ digit ∈ digitOrder.zipIdx, digitValue? 64 digit.1 = some digit.2 ∧
      digitValue? 36 digit.1 =
        (if digit.2 < 36 then some digit.2
          else if digit.2 < 62 then some (digit.2 - 26) else none) ∧
      Text.digitValue? digit.1 = digitValue? 36 digit.1 := by decide +kernel
  exact hall (c, place) (List.mk_mem_zipIdx_iff_getElem?.2 h)

/-- The capital letters stand behind the small ones. -/
theorem map_toUpper_digitOrder {d : Nat} (hd : d < 64) : digitOrder[d]?.map Char.toUpper =
    if 10 ≤ d ∧ d < 36 then digitOrder[d + 26]? else digitOrder[d]? := by
  have hall : ∀ d ∈ List.range 64, digitOrder[d]?.map Char.toUpper =
      if 10 ≤ d ∧ d < 36 then digitOrder[d + 26]? else digitOrder[d]? := by decide +kernel
  exact hall d (List.mem_range.2 hd)

/-- The digits of the largest base where the case of a letter does not count, and of the largest one
of all. -/
theorem digitValue?_digitOrder : ∀ base ∈ [36, 64], ∀ c ∈ digitOrder, ∀ d < base,
    (digitValue? base c = some d ↔ Writes base d c) := by
  intro base hbase c hc d hd
  obtain ⟨place, hplace⟩ := List.mem_iff_getElem?.1 hc
  obtain ⟨hlarge, hsmall, -⟩ := digitValue?_of_place hplace
  simp only [List.mem_cons, List.not_mem_nil, or_false] at hbase
  rcases hbase with rfl | rfl
  · rw [Writes, map_toUpper_digitOrder (by omega)]
    constructor
    · intro h
      rw [hsmall] at h
      refine ⟨hd, ?_⟩
      split at h
      · cases h
        exact .inl hplace
      split at h
      · cases h
        refine .inr ⟨Nat.le_refl 36, ?_⟩
        rw [if_pos (by omega), Nat.sub_add_cancel (by omega), hplace]
      · cases h
    · rintro ⟨-, h | ⟨-, h⟩⟩
      · rw [(digitValue?_of_place h).2.1, if_pos hd]
      · split at h
        · rw [(digitValue?_of_place h).2.1, if_neg (by omega), if_pos (by omega),
            Nat.add_sub_cancel]
        · rw [(digitValue?_of_place h).2.1, if_pos hd]
  · constructor
    · intro h
      obtain rfl : place = d := Option.some.inj (hlarge.symm.trans h)
      exact ⟨hd, .inl hplace⟩
    · rintro ⟨-, h | ⟨hle, -⟩⟩
      · exact (digitValue?_of_place h).1
      · omega

/-- **A digit has the value of its place.** -/
theorem digitValue?_eq_some_iff {base d : Nat} {c : Char} (hbase : base ≤ 64)
    (hc : c ∈ digitOrder) : digitValue? base c = some d ↔ Writes base d c := by
  obtain ⟨whole, hwhole, hle, hcase⟩ :
      ∃ whole ∈ [36, 64], base ≤ whole ∧ (base ≤ 36 ↔ whole ≤ 36) := by
    by_cases h : base ≤ 36
    · exact ⟨36, by simp, h, by simp [h]⟩
    · exact ⟨64, by simp, hbase, by simp [h]⟩
  rw [digitValue?_eq_filter hle hcase, Option.filter_eq_some_iff, decide_eq_true_eq, and_comm]
  refine and_congr_right fun hd => ?_
  have hd' : d < whole := Nat.lt_of_lt_of_le hd hle
  rw [digitValue?_digitOrder whole hwhole c hc d hd', Writes, hcase]
  exact and_iff_right hd'

/-- The reader of integers knows the digits up to base thirty-six, and no more of the order. -/
theorem text_digitValue?_eq {c : Char} (h : c ∈ digitOrder) :
    Text.digitValue? c = digitValue? 36 c := by
  obtain ⟨place, hplace⟩ := List.mem_iff_getElem?.1 h
  exact (digitValue?_of_place hplace).2.2

/-- So it gives them the same values. -/
theorem writes_iff_text_digitValue? {base d : Nat} {c : Char} (hbase : base ≤ 36)
    (hc : c ∈ digitOrder) : Writes base d c ↔ d < base ∧ Text.digitValue? c = some d := by
  rw [text_digitValue?_eq hc, digitValue?_eq_some_iff (by decide) hc]
  constructor
  · exact fun h => ⟨h.1, h.mono hbase (Nat.le_refl 36)⟩
  · exact fun ⟨hd, h⟩ => ⟨hd, h.2.imp_right fun h => ⟨hbase, h.2⟩⟩

theorem toUpper_mem_digitOrder {c : Char} (h : c ∈ digitOrder) : c.toUpper ∈ digitOrder := by
  obtain ⟨place, hlt, hplace⟩ := List.getElem_of_mem h
  have hupper := map_toUpper_digitOrder hlt
  rw [List.getElem?_eq_getElem hlt, hplace, Option.map_some] at hupper
  split at hupper
  · exact List.mem_of_getElem? hupper.symm
  · rwa [Option.some.inj hupper]

theorem isBaseDigit_of_mem_digitOrder {c : Char} (h : c ∈ digitOrder) : isBaseDigit c = true := by
  obtain ⟨place, hplace⟩ := List.mem_iff_getElem?.1 h
  rw [isBaseDigit, (digitValue?_of_place hplace).1, Option.isSome_some]

theorem isHexDigit_of_isAsciiDigit {c : Char} (h : Text.isAsciiDigit c = true) :
    isHexDigit c = true := by
  have hle (a b : Char) : a ≤ b ↔ a.toNat ≤ b.toNat := UInt32.le_iff_toNat_le
  have hcode := Text.toNat_of_isDigit h
  rw [isHexDigit, digitValue?, if_pos (by simp [hle]; omega), Option.filter_some_pos]
  · rfl
  · rw [decide_eq_true_eq]
    omega

namespace Writes

variable {base d : Nat} {c : Char}

theorem mem_digitOrder (h : Writes base d c) : c ∈ digitOrder := by
  rcases h.2 with h | ⟨-, h⟩
  · exact List.mem_of_getElem? h
  · obtain ⟨small, hsmall, rfl⟩ := Option.map_eq_some_iff.1 h
    exact toUpper_mem_digitOrder (List.mem_of_getElem? hsmall)

theorem digitValue?_eq (h : Writes base d c) (hbase : base ≤ 64) : digitValue? base c = some d :=
  (digitValue?_eq_some_iff hbase h.mem_digitOrder).2 h

theorem text_digitValue?_eq (h : Writes base d c) (hbase : base ≤ 36) :
    Text.digitValue? c = some d :=
  ((writes_iff_text_digitValue? hbase h.mem_digitOrder).1 h).2

/-- The underscore is a digit of the largest base only. -/
theorem ne_underscore (h : Writes base d c) (hbase : base ≤ 36) : c ≠ '_' := by
  rintro rfl
  have hvalue := h.text_digitValue?_eq hbase
  rw [show Text.digitValue? '_' = none by decide] at hvalue
  cases hvalue

theorem isHexDigit (h : Writes base d c) (hbase : base ≤ 16) : isHexDigit c = true := by
  rw [Arith.isHexDigit, (h.mono hbase (by decide)).digitValue?_eq (by decide)]
  rfl

theorem isAsciiDigit (h : Writes base d c) (hbase : base ≤ 10) : Text.isAsciiDigit c = true := by
  have hall : (digitOrder.take 10).all Text.isAsciiDigit = true := rfl
  have hd : d < 10 := Nat.lt_of_lt_of_le h.1 hbase
  have hplace : digitOrder[d]? = some c := by
    rcases h.2 with h | ⟨-, h⟩
    · exact h
    · rwa [map_toUpper_digitOrder (by omega), if_neg (by omega)] at h
  exact List.all_eq_true.1 hall c
    (List.mem_of_getElem? ((List.getElem?_take_of_lt hd).trans hplace))

end Writes

/-! ## Numerals -/

/-- **The text writes the number** in the base, with zeros in front of its digits or without. -/
def IsNumeral (base v : Nat) (text : List Char) : Prop :=
  ∃ digits, digits ≠ [] ∧ List.Forall₂ (Writes base) digits text ∧
    Nat.ofDigits base digits.reverse = v

/-- **The text is made of digits**, and one of them is not below the base. -/
def IsMisspelt (base : Nat) (text : List Char) : Prop :=
  (∀ c ∈ text, c ∈ digitOrder) ∧ ∃ c ∈ text, ∀ d, ¬ Writes base d c

/-- Digits are read from the first one on. -/
theorem foldl_eq_ofDigits (base : Nat) (digits : List Nat) :
    digits.foldl (fun value d => value * base + d) 0 = Nat.ofDigits base digits.reverse := by
  rw [Nat.ofDigits_eq_foldr, List.foldr_reverse]
  simp only [Nat.cast_id, Nat.mul_comm base, Nat.add_comm]

section

variable {base : Nat} {digits : List Nat} {text : List Char} {c : Char}

theorem readBaseDigits_of_writes (hbase : base ≤ 64)
    (h : List.Forall₂ (Writes base) digits text) (value : Nat) :
    readBaseDigits base value text =
      some (digits.foldl (fun value d => value * base + d) value) := by
  induction h generalizing value with
  | nil => rfl
  | cons hc _ ih =>
    rw [readBaseDigits, hc.digitValue?_eq hbase]
    exact ih _

theorem runValue_of_writes (hbase : base ≤ 36) (h : List.Forall₂ (Writes base) digits text)
    (value : Nat) :
    Text.runValue base text value = digits.foldl (fun value d => value * base + d) value := by
  induction h generalizing value with
  | nil => rfl
  | cons hc _ ih =>
    rw [Text.runValue, List.foldl_cons, hc.text_digitValue?_eq hbase]
    exact ih _

theorem exists_writes_of_mem (h : List.Forall₂ (Writes base) digits text) (hc : c ∈ text) :
    ∃ d, Writes base d c := by
  induction h with
  | nil => cases hc
  | cons hd _ ih =>
    rcases List.mem_cons.1 hc with rfl | hc
    · exact ⟨_, hd⟩
    · exact ih hc

/-- A digit that the base does not have is found wherever it stands. -/
theorem readBaseDigits_eq_none (hc : c ∈ text) (h : digitValue? base c = none) (value : Nat) :
    readBaseDigits base value text = none := by
  induction text generalizing value with
  | nil => cases hc
  | cons x text ih =>
    rw [readBaseDigits]
    rcases hx : digitValue? base x with _ | d
    · rfl
    · refine ih ((List.mem_cons.1 hc).resolve_left ?_) _
      rintro rfl
      rw [h] at hx
      cases hx

theorem hash_not_mem (h : ∀ c ∈ text, c ∈ digitOrder) : '#' ∉ text :=
  fun hmem => absurd (h _ hmem) (by decide)

end

namespace IsNumeral

variable {base v : Nat} {text : List Char}

theorem exists_writes (h : IsNumeral base v text) {c : Char} (hc : c ∈ text) :
    ∃ d, Writes base d c := by
  obtain ⟨digits, -, hdigits, -⟩ := h
  exact exists_writes_of_mem hdigits hc

theorem mem_digitOrder (h : IsNumeral base v text) : ∀ c ∈ text, c ∈ digitOrder :=
  fun _ hc => (h.exists_writes hc).elim fun _ hd => hd.mem_digitOrder

theorem ne_nil (h : IsNumeral base v text) : text ≠ [] := by
  rintro rfl
  obtain ⟨digits, hne, hdigits, -⟩ := h
  exact hne (List.forall₂_nil_right_iff.1 hdigits)

/-- The digits of a numeral are a run of the digits of its base. -/
theorem isRun {kind : Char → Bool} (h : IsNumeral base v text)
    (hkind : ∀ d c, Writes base d c → kind c = true) : IsRun kind text :=
  ⟨h.ne_nil, fun _ hc => (h.exists_writes hc).elim fun d hd => hkind d _ hd⟩

/-- A zero in front changes nothing. -/
theorem zero_cons (h : IsNumeral base v text) (hbase : 0 < base) :
    IsNumeral base v ('0' :: text) := by
  obtain ⟨digits, -, hdigits, hvalue⟩ := h
  refine ⟨0 :: digits, List.cons_ne_nil _ _, .cons ⟨hbase, .inl rfl⟩ hdigits, ?_⟩
  rw [List.reverse_cons, Nat.ofDigits_append_zero, hvalue]

/-- **Behind a base** a numeral is read as its number. -/
theorem readBaseDigits (h : IsNumeral base v text) (hbase : base ≤ 64) :
    readBaseDigits base 0 text = some v := by
  obtain ⟨digits, -, hdigits, hvalue⟩ := h
  rw [readBaseDigits_of_writes hbase hdigits, foldl_eq_ofDigits, hvalue]

/-- **As an integer** it is read as its number too. -/
theorem readNumeral (h : IsNumeral base v text) (hbase : base ≤ 16)
    (hmany : base = 10 → text.length ≤ Text.maxDecimalDigits) :
    readNumeral base text = .ok (v : Int) := by
  have hrun := h.isRun (fun _ _ hd => hd.isHexDigit hbase)
  have hvalues : ∀ c ∈ text, c ≠ '_' ∧ ∃ d < base, Text.digitValue? c = some d := by
    intro c hc
    obtain ⟨d, hd⟩ := h.exists_writes hc
    exact ⟨hd.ne_underscore (by omega), d, hd.1, hd.text_digitValue?_eq (by omega)⟩
  have hread := Text.readDigits_run hvalues true (fun hnil => absurd hnil hrun.ne_nil) 0 0
  obtain ⟨digits, -, hdigits, hvalue⟩ := h
  rw [runValue_of_writes (by omega) hdigits, foldl_eq_ofDigits, hvalue, Nat.zero_add] at hread
  rw [Arith.readNumeral, hrun.readInteger_eq, hread]
  dsimp only
  rw [if_neg (by simpa using hmany)]
  rfl

end IsNumeral

/-! ### Digits that are not below the base -/

/-- **No integer** is read of a run of digits when the base does not have one of them. -/
theorem IsRun.exists_readNumeral_eq_error {base : Nat} {text : List Char}
    (h : IsRun isHexDigit text) {c : Char} (hc : c ∈ text)
    (hbad : ∀ d < base, Text.digitValue? c ≠ some d) :
    ∃ e, readNumeral base text = .error e := by
  rcases hread : readNumeral base text with e | n
  · exact ⟨e, rfl⟩
  rw [readNumeral, h.readInteger_eq] at hread
  rcases hdigits : Text.readDigits base true 0 0 text with _ | ⟨count, value, rest⟩ <;>
    rw [hdigits] at hread <;> dsimp only at hread
  · cases hread
  -- the digit is neither among those that were read nor a blank behind them
  obtain ⟨run, hrun, hvalues⟩ := Text.exists_append_of_readDigits hdigits
  dsimp only at hrun
  have hblank : rest.all Text.isNumeralBlank = true := by
    by_contra hblank
    rw [if_neg hblank] at hread
    split_ifs at hread
  have hhex := h.of_mem c hc
  rw [hrun] at hc
  rcases List.mem_append.1 hc with hc | hc
  · rcases hvalues c hc with rfl | ⟨d, hd, hvalue⟩
    · exact absurd hhex (by decide)
    · exact absurd hvalue (hbad d hd)
  · have hc := List.all_eq_true.1 hblank c hc
    rw [isNumeralBlank_of_isHexDigit hhex] at hc
    cases hc

namespace IsMisspelt

variable {base : Nat} {text : List Char}

theorem ne_nil (h : IsMisspelt base text) : text ≠ [] := by
  rintro rfl
  obtain ⟨-, c, hc, -⟩ := h
  cases hc

theorem exists_text_digitValue? (h : IsMisspelt base text) (hbase : base ≤ 36) :
    ∃ c ∈ text, ∀ d < base, Text.digitValue? c ≠ some d := by
  obtain ⟨hdigits, c, hc, hbad⟩ := h
  exact ⟨c, hc, fun d hd hvalue =>
    hbad d ((writes_iff_text_digitValue? hbase (hdigits c hc)).2 ⟨hd, hvalue⟩)⟩

theorem not_isAsciiDigit (h : IsMisspelt 10 text) :
    ¬ ∀ c ∈ text, Text.isAsciiDigit c = true := fun hall => by
  obtain ⟨c, hc, hbad⟩ := h.exists_text_digitValue? (by decide)
  have hcode := Text.toNat_of_isDigit (hall c hc)
  exact hbad _ (by omega) (Text.digitValue?_of_isDigit (hall c hc))

theorem not_isHexDigit (h : IsMisspelt 16 text) :
    ¬ ∀ c ∈ text, isHexDigit c = true := fun hall => by
  obtain ⟨c, hc, hbad⟩ := h.exists_text_digitValue? (by decide)
  obtain ⟨d, hd, hvalue⟩ := digitValue?_of_isHexDigit (hall c hc)
  exact hbad d hd hvalue

end IsMisspelt

/-! ## Where a literal ends -/

theorem literalLength_based {base digits : List Char} (hbase : IsRun Text.isAsciiDigit base)
    (hdigits : IsRun isBaseDigit digits) :
    literalLength (base ++ '#' :: digits) = (base ++ '#' :: digits).length := by
  unfold literalLength
  rw [List.takeWhile_append_of_pos hbase.of_mem, List.takeWhile_cons_of_neg (by decide),
    List.append_nil]
  dsimp only
  rw [List.drop_left]
  split
  · next digits' heq =>
    obtain rfl : digits = digits' := (List.cons.inj heq).2
    rw [List.takeWhile_eq_self_iff.2 hdigits.of_mem]
    split
    · next hnil => exact absurd (List.length_eq_zero_iff.1 hnil) hdigits.ne_nil
    · rw [List.length_append, List.length_cons, Nat.add_assoc, Nat.add_comm 1]
  · next hnot => exact absurd rfl (hnot digits)

theorem literalLength_hexadecimal {mark : Char} {digits : List Char}
    (hmark : mark = 'x' ∨ mark = 'X') (h : IsRun isHexDigit digits) :
    literalLength ('0' :: mark :: digits) = ('0' :: mark :: digits).length := by
  have hrun : ('0' :: mark :: digits).takeWhile Text.isAsciiDigit = ['0'] := by
    rw [List.takeWhile_cons_of_pos (by decide), List.takeWhile_cons_of_neg]
    rcases hmark with rfl | rfl <;> decide
  unfold literalLength
  rw [hrun]
  dsimp only [List.length_singleton, List.drop_succ_cons, List.drop_zero]
  split
  · next heq => rcases hmark with rfl | rfl <;> cases heq
  · split
    · next mark' digits' heq =>
      obtain ⟨rfl, rfl⟩ : mark = mark' ∧ digits = digits' := by simpa using heq
      rw [if_pos (by simpa using hmark), List.takeWhile_eq_self_iff.2 h.of_mem]
      split
      · next hnil => exact absurd (List.length_eq_zero_iff.1 hnil) h.ne_nil
      · simp only [List.length_cons]
        omega
    · next hnot => exact absurd rfl (hnot mark digits)

section

variable {text : String} {c : Char} {rest : List Char}

theorem isSeparator_of_isAsciiDigit (hc : Text.isAsciiDigit c = true) : isSeparator c = false := by
  have hcode := Text.toNat_of_isDigit hc
  exact isSeparator_of_lt (by omega)

/-- **A literal to the end of the text** is the only token. -/
theorem tokens_of_literalLength (htext : text.toList = c :: rest) (hc : Text.isAsciiDigit c = true)
    (hlength : (c :: rest).length ≤ literalLength (c :: rest)) :
    tokens text = .ok [.literal text] := by
  have hfirst : Token.first (c :: rest) = .ok (.literal text, literalLength (c :: rest)) := by
    rw [Token.first, if_pos (Text.isDigit_of_isAsciiDigit hc), if_pos hc]
    dsimp only
    rw [List.drop_eq_nil_of_le hlength, List.take_of_length_le hlength, ← htext,
      String.ofList_toList]
    rfl
  rw [tokens, htext, tokensFrom, if_neg (by simp [isSeparator_of_isAsciiDigit hc]), hfirst]
  dsimp only
  rw [List.drop_eq_nil_of_le (Nat.le_sub_one_of_lt hlength), tokensFrom]
  rfl

/-- A run of the ten digits is one literal. -/
theorem tokens_of_isRun (h : IsRun Text.isAsciiDigit text.toList) :
    tokens text = .ok [.literal text] := by
  obtain ⟨c, rest, htext⟩ := List.exists_cons_of_ne_nil h.ne_nil
  rw [htext] at h
  have hc := h.of_mem c List.mem_cons_self
  have hlength : literalLength (c :: (rest ++ [])) = rest.length + 1 :=
    literalLength_digits hc (fun d hd => h.of_mem d (List.mem_cons_of_mem _ hd)) (.inl rfl)
  rw [List.append_nil] at hlength
  exact tokens_of_literalLength htext hc (Nat.le_of_eq hlength.symm)

/-- No token starts with an at sign. -/
theorem Token.first_at (rest : List Char) :
    Token.first ('@' :: rest) =
      .error (.malformed (.badOperator (String.ofList ('@' :: rest)))) := by
  rw [Token.first, if_neg (by decide), takeName, if_neg (by decide)]
  rfl

/-- **Digits right behind a literal** are an error: with an at sign no token starts, and the others
are letters, digits or underscores. -/
theorem tokens_of_literalLength_lt (htext : text.toList = c :: rest)
    (hc : Text.isAsciiDigit c = true) (hdigits : ∀ x ∈ c :: rest, x ∈ digitOrder)
    (hlength : literalLength (c :: rest) < (c :: rest).length) :
    ∃ flaw, tokens text = .error (.malformed flaw) := by
  have hliteral : IsLiteral ((c :: rest).take (literalLength (c :: rest))) :=
    isLiteral_literalLength hc
  generalize hn : literalLength (c :: rest) = n at hlength hliteral
  obtain ⟨m, rfl⟩ : ∃ m, n = m + 1 := by
    refine Nat.exists_eq_succ_of_ne_zero ?_
    rintro rfl
    exact hliteral.ne_nil rfl
  obtain ⟨x, after, hafter⟩ : ∃ x after, (c :: rest).drop (m + 1) = x :: after :=
    List.exists_cons_of_ne_nil (by simpa [List.drop_eq_nil_iff] using hlength)
  have hx : x ∈ digitOrder := hdigits x (List.mem_of_mem_drop (hafter ▸ List.mem_cons_self))
  have hkind : (digitOrder.all fun x => (Text.isAlphanumeric x || x == '_') || x == '@') = true := by
    decide +kernel
  rw [tokens, htext, tokensFrom, if_neg (by simp [isSeparator_of_isAsciiDigit hc]), Token.first,
    if_pos (Text.isDigit_of_isAsciiDigit hc), if_pos hc, hn]
  dsimp only
  rw [hafter, List.head?_cons, Option.any_some]
  by_cases hword : (Text.isAlphanumeric x || x == '_') = true
  · rw [if_pos hword]
    exact ⟨_, rfl⟩
  · have hat := List.all_eq_true.1 hkind x hx
    rw [Bool.or_eq_true, or_iff_right hword, beq_iff_eq] at hat
    subst hat
    rw [if_neg hword]
    dsimp only
    rw [List.drop_succ_cons] at hafter
    rw [Nat.add_sub_cancel, hafter, tokensFrom, if_neg (by decide), Token.first_at]
    exact ⟨_, rfl⟩

/-- **A text of digits** is one literal of one of the forms, or it is malformed. -/
theorem isLiteral_or_malformed (htext : text.toList = c :: rest) (hc : Text.isAsciiDigit c = true)
    (hdigits : ∀ x ∈ text.toList, x ∈ digitOrder) :
    IsLiteral text.toList ∧ tokens text = .ok [.literal text] ∨
      ∃ flaw, tokens text = .error (.malformed flaw) := by
  rw [htext] at hdigits ⊢
  rcases Nat.lt_or_ge (literalLength (c :: rest)) (c :: rest).length with hlength | hlength
  · exact .inr (tokens_of_literalLength_lt htext hc hdigits hlength)
  · have hliteral : IsLiteral ((c :: rest).take (literalLength (c :: rest))) :=
      isLiteral_literalLength hc
    rw [List.take_of_length_le hlength] at hliteral
    exact .inl ⟨hliteral, tokens_of_literalLength htext hc hlength⟩

end

/-! ## What is read of a literal -/

section

variable {text : List Char} {mark c : Char}

theorem readLiteral_hexadecimal (hmark : mark = 'x' ∨ mark = 'X') (h : '#' ∉ text) :
    readLiteral ('0' :: mark :: text) = readNumeral 16 text := by
  have hplain : '#' ∉ '0' :: mark :: text := by
    rcases hmark with rfl | rfl <;> simpa using h
  rw [readLiteral.eq_def, dropWhile_of_not_mem hplain]
  rcases hmark with rfl | rfl <;> rfl

theorem readLiteral_octal (h : '#' ∉ c :: text) (hc : c ≠ 'x' ∧ c ≠ 'X') :
    readLiteral ('0' :: c :: text) =
      match readNumeral 8 ('0' :: c :: text) with
      | .ok n => .ok n
      | .error _ => .error (.malformed (.badDigit (String.ofList ('0' :: c :: text)))) := by
  have hplain : '#' ∉ '0' :: c :: text := by simpa using h
  rw [readLiteral.eq_def, dropWhile_of_not_mem hplain]
  dsimp only
  split
  · next heq => exact absurd (List.cons.inj (List.cons.inj heq).2).1 hc.1
  · next heq => exact absurd (List.cons.inj (List.cons.inj heq).2).1 hc.2
  · rfl
  · next hnot => exact absurd rfl (hnot c text)

theorem readLiteral_decimal (h : '#' ∉ text) (hfront : text = ['0'] ∨ text.head? ≠ some '0') :
    readLiteral text = readNumeral 10 text := by
  have hzero (c : Char) (rest : List Char) : text ≠ '0' :: c :: rest := by
    rintro rfl
    rcases hfront with heq | hhead
    · cases heq
    · exact hhead rfl
  rw [readLiteral.eq_def, dropWhile_of_not_mem h]
  dsimp only
  split
  · exact absurd rfl (hzero _ _)
  · exact absurd rfl (hzero _ _)
  · exact absurd rfl (hzero _ _)
  · rfl

end

/-! ## The value of a text that is one literal -/

/-- Without operators every tier of the reader hands the literal on. -/
theorem Expr.ofTokens_literal (text : String) :
    Expr.ofTokens [.literal text] = (readLiteral text.toList).map .number := by
  have hunary : readUnary [.literal text] =
      (readLiteral text.toList).map fun value => (.number value, ⟨[], by simp⟩) := by
    rcases hread : readLiteral text.toList with e | value <;> rw [readUnary, hread] <;> rfl
  have htier (tier : Nat) : readTier tier [.literal text] = readUnary [.literal text] := by
    induction tier with
    | zero =>
      rw [readTier, readPower, hunary]
      rcases readLiteral text.toList with e | value <;> rfl
    | succ tier ih =>
      rw [readTier, ih, hunary]
      rcases readLiteral text.toList with e | value
      · rfl
      · simp [Except.map, readTierFrom]
  rw [Expr.ofTokens, readComma, readAssignment, readConditional, htier, hunary]
  rcases readLiteral text.toList with e | value
  · rfl
  · simp [Except.map, readCommaFrom]
  all_goals simp

section

variable {text : String} {e : Error} (vars : Variables)

theorem Expr.parse_literal (h : tokens text = .ok [.literal text]) :
    Expr.parse text = (readLiteral text.toList).map .number := by
  rw [← Expr.ofTokens_literal]
  change tokens text >>= Expr.ofTokens = _
  rw [h]
  rfl

/-- **A literal has the value that is read of it**, cut to sixty-four bits. -/
theorem evaluate_of_readLiteral {n : Int} (htokens : tokens text = .ok [.literal text])
    (hread : readLiteral text.toList = .ok n) : evaluate text vars = (.ok (wrap n), vars) := by
  have hparse : Expr.parse text = .ok (.number n) := by
    rw [Expr.parse_literal htokens, hread]
    rfl
  rw [evaluate_of_parse hparse]
  rfl

theorem evaluate_of_readLiteral_error (htokens : tokens text = .ok [.literal text])
    (hread : readLiteral text.toList = .error e) : evaluate text vars = (.error e, vars) := by
  refine evaluate_of_parse_error ?_ vars
  rw [Expr.parse_literal htokens, hread]
  rfl

theorem evaluate_of_tokens_error (h : tokens text = .error e) :
    evaluate text vars = (.error e, vars) := by
  refine evaluate_of_parse_error ?_ vars
  change tokens text >>= Expr.ofTokens = _
  rw [h]
  rfl

/-- **Digits behind a base**, of whatever value, are read by the digits of the base alone. -/
theorem evaluate_based {base : Nat} (hbase : 2 ≤ base ∧ base ≤ 64) (hne : text.toList ≠ [])
    (hdigits : ∀ c ∈ text.toList, c ∈ digitOrder) :
    let literal := toString base ++ "#" ++ text
    evaluate literal vars =
      match readBaseDigits base 0 text.toList with
      | some v => (.ok (wrap v), vars)
      | none => (.error (.malformed (.badDigit literal)), vars) := by
  intro literal
  obtain ⟨c, rest, hcons⟩ := Text.exists_cons_toString base
  have hlist : literal.toList = (toString base).toList ++ '#' :: text.toList := by simp [literal]
  have hrun : IsRun Text.isAsciiDigit (toString base).toList :=
    ⟨by simp, fun _ => Text.isDigit_of_mem_toString⟩
  have htokens : tokens literal = .ok [.literal literal] := by
    have hlength := literalLength_based hrun
      ⟨hne, fun c hc => isBaseDigit_of_mem_digitOrder (hdigits c hc)⟩
    have hc := hrun.of_mem c (hcons ▸ List.mem_cons_self)
    rw [hcons] at hlist hlength
    exact tokens_of_literalLength hlist hc (Nat.le_of_eq hlength.symm)
  have hread : readLiteral literal.toList =
      match readBaseDigits base 0 text.toList with
      | some v => .ok (v : Int)
      | none => .error (.malformed (.badDigit literal)) := by
    have hnumeral : readNumeral 10 (toString base).toList = .ok (base : Int) := by
      have hshort : (toString base).length ≤ Text.maxDecimalDigits :=
        Text.length_toString_le (by omega)
      rw [readNumeral, String.ofList_toList, Text.readInteger_toString hshort]
    rw [hlist, readLiteral_based (hrun.not_mem (by decide)), readBased, hnumeral, ← hlist,
      String.ofList_toList]
    change (if 2 ≤ (base : Int) && (base : Int) ≤ 64 then _ else _) = _
    rw [if_pos (by simp; omega)]
    rfl
  rcases hvalue : readBaseDigits base 0 text.toList with _ | v <;> rw [hvalue] at hread
  · exact evaluate_of_readLiteral_error vars htokens hread
  · exact evaluate_of_readLiteral vars htokens hread

/-- **A text of digits is malformed** unless it is a hexadecimal literal or a run of the ten digits;
and such a run is if it cannot be read. -/
theorem exists_malformed (hfront : ∃ c ∈ text.toList.head?, Text.isAsciiDigit c = true)
    (hdigits : ∀ c ∈ text.toList, c ∈ digitOrder)
    (hhexadecimal : ∀ mark rest, text.toList = '0' :: mark :: rest → mark = 'x' ∨ mark = 'X' →
      ¬ ∀ c ∈ rest, isHexDigit c = true)
    (hdecimal : (∀ c ∈ text.toList, Text.isAsciiDigit c = true) →
      ∃ flaw, readLiteral text.toList = .error (.malformed flaw)) :
    ∃ flaw, evaluate text vars = (.error (.malformed flaw), vars) := by
  obtain ⟨c, hhead, hc⟩ := hfront
  obtain ⟨rest, htext⟩ := List.head?_eq_some_iff.1 hhead
  have hplain := hash_not_mem hdigits
  rcases isLiteral_or_malformed htext hc hdigits with ⟨hliteral, htokens⟩ | ⟨flaw, htokens⟩
  · generalize hlist : text.toList = chars at hliteral hplain
    cases hliteral with
    | decimal h =>
      obtain ⟨flaw, hread⟩ := hdecimal (hlist ▸ h.of_mem)
      exact ⟨flaw, evaluate_of_readLiteral_error vars htokens hread⟩
    | based h => simp at hplain
    | hexadecimal hmark h => exact absurd h.of_mem (hhexadecimal _ _ hlist hmark)
  · exact ⟨flaw, evaluate_of_tokens_error vars htokens⟩

end

/-! ## The forms of a literal -/

/-- **The ways to write a number**: with its base in front, or in one of the three bases that have a
form of their own. -/
inductive LiteralForm where
  | based (base : Nat)
  | hexadecimal (capital : Bool)
  | octal
  | decimal

namespace LiteralForm

/-- The base of the digits. -/
def base : LiteralForm → Nat
  | .based base => base
  | .hexadecimal _ => 16
  | .octal => 8
  | .decimal => 10

/-- What stands in front of the digits. -/
def front : LiteralForm → String
  | .based base => toString base ++ "#"
  | .hexadecimal capital => if capital then "0X" else "0x"
  | .octal => "0"
  | .decimal => ""

/-- **The text may stand there** in this form: a base is between two and sixty-four, behind the zero
of an octal literal there is no mark of a hexadecimal one, and a decimal literal starts with one of
the ten digits, which is not zero unless nothing follows it. -/
def Admits (form : LiteralForm) (text : List Char) : Prop :=
  match form with
  | .based base => 2 ≤ base ∧ base ≤ 64
  | .hexadecimal _ => True
  | .octal => ∀ c ∈ text.head?, c ≠ 'x' ∧ c ≠ 'X'
  | .decimal => text = ['0'] ∨ ∃ c ∈ text.head?, Text.isAsciiDigit c = true ∧ c ≠ '0'

variable (form : LiteralForm) {text : String} (vars : Variables)

theorem toList_hexadecimal (capital : Bool) (text : String) :
    ∃ mark, (mark = 'x' ∨ mark = 'X') ∧
      ((hexadecimal capital).front ++ text).toList = '0' :: mark :: text.toList := by
  cases capital <;> simp [front]

theorem toList_octal (text : String) : (octal.front ++ text).toList = '0' :: text.toList := by
  simp [front]

theorem decimal_append (text : String) : decimal.front ++ text = text := by simp [front]

theorem evaluate_isNumeral {v : Nat} (h : form.Admits text.toList)
    (hv : IsNumeral form.base v text.toList)
    (hmany : form = .decimal → text.length ≤ Text.maxDecimalDigits) :
    evaluate (form.front ++ text) vars = (.ok (wrap v), vars) := by
  have hplain := hash_not_mem hv.mem_digitOrder
  cases form with
  | based base =>
    replace hv : IsNumeral base v text.toList := hv
    rw [front, evaluate_based vars h hv.ne_nil hv.mem_digitOrder, hv.readBaseDigits h.2]
  | hexadecimal capital =>
    replace hv : IsNumeral 16 v text.toList := hv
    obtain ⟨mark, hmark, hlist⟩ := toList_hexadecimal capital text
    have hlength := literalLength_hexadecimal hmark
      (hv.isRun fun _ _ hd => hd.isHexDigit (Nat.le_refl 16))
    refine evaluate_of_readLiteral vars
      (tokens_of_literalLength hlist (by decide) (Nat.le_of_eq hlength.symm)) ?_
    rw [hlist, readLiteral_hexadecimal hmark hplain]
    exact hv.readNumeral (Nat.le_refl 16) (fun h => absurd h (by decide))
  | octal =>
    -- the zero in front is read along with the digits
    have hlist := toList_octal text
    have hzero : IsNumeral 8 v ('0' :: text.toList) := hv.zero_cons (by decide)
    have hrun := hzero.isRun fun _ _ hd => hd.isAsciiDigit (show 8 ≤ 10 by decide)
    refine evaluate_of_readLiteral vars (tokens_of_isRun (hlist ▸ hrun)) ?_
    obtain ⟨c, rest, htext⟩ := List.exists_cons_of_ne_nil hv.ne_nil
    rw [hlist]
    rw [htext] at h hplain hzero ⊢
    rw [readLiteral_octal hplain (h c rfl),
      hzero.readNumeral (by decide) (fun h => absurd h (by decide))]
  | decimal =>
    rw [decimal_append]
    refine evaluate_of_readLiteral vars
      (tokens_of_isRun (hv.isRun fun _ _ hd => hd.isAsciiDigit (Nat.le_refl 10))) ?_
    rw [readLiteral_decimal hplain]
    · exact hv.readNumeral (by decide) fun _ => hmany rfl
    · refine h.imp_right ?_
      rintro ⟨c, hc, -, hne⟩ hzero
      rw [hzero] at hc
      exact hne (Option.some.inj hc).symm

theorem evaluate_isMisspelt (h : form.Admits text.toList)
    (hv : IsMisspelt form.base text.toList) :
    ∃ flaw, evaluate (form.front ++ text) vars = (.error (.malformed flaw), vars) := by
  cases form with
  | based base =>
    obtain ⟨c, hc, hbad⟩ := hv.2
    have hnone : digitValue? base c = none := by
      refine Option.eq_none_iff_forall_ne_some.2 fun d hd => hbad d ?_
      exact (digitValue?_eq_some_iff h.2 (hv.1 c hc)).1 hd
    exact ⟨_, by rw [front, evaluate_based vars h hv.ne_nil hv.1, readBaseDigits_eq_none hc hnone]⟩
  | hexadecimal capital =>
    obtain ⟨mark, hmark, hlist⟩ := toList_hexadecimal capital text
    have hmarks : '0' ∈ digitOrder ∧ mark ∈ digitOrder ∧ Text.isAsciiDigit mark = false := by
      rcases hmark with rfl | rfl <;> decide
    refine exists_malformed vars ⟨'0', by simp [hlist], by decide⟩ ?_ ?_ ?_ <;> rw [hlist]
    · simpa [hmarks] using hv.1
    · rintro mark' rest heq -
      obtain ⟨-, rfl⟩ : mark = mark' ∧ text.toList = rest := by simpa using heq
      exact hv.not_isHexDigit
    · intro hall
      have hascii := hall mark (by simp)
      rw [hmarks.2.2] at hascii
      cases hascii
  | octal =>
    replace hv : IsMisspelt 8 text.toList := hv
    have hlist := toList_octal text
    have hplain := hash_not_mem hv.1
    obtain ⟨x, rest, htext⟩ := List.exists_cons_of_ne_nil hv.ne_nil
    have hx := h x (by simp [htext])
    refine exists_malformed vars ⟨'0', by simp [hlist], by decide⟩ ?_ ?_ ?_ <;> rw [hlist]
    · exact List.forall_mem_cons.2 ⟨by decide, hv.1⟩
    · rintro mark rest' heq hmark
      obtain ⟨rfl, -⟩ : x = mark ∧ rest = rest' := by simpa [htext] using heq
      exact absurd hmark (by simp [hx])
    · -- only here is the digit in the literal: it is an eight or a nine
      intro hall
      have hrun : IsRun isHexDigit ('0' :: text.toList) :=
        ⟨by simp, fun c hc => isHexDigit_of_isAsciiDigit (hall c hc)⟩
      obtain ⟨c, hc, hbad⟩ := hv.exists_text_digitValue? (by decide)
      obtain ⟨e, he⟩ := hrun.exists_readNumeral_eq_error (List.mem_cons_of_mem _ hc) hbad
      rw [htext] at hplain he ⊢
      rw [readLiteral_octal hplain hx, he]
      exact ⟨_, rfl⟩
  | decimal =>
    rw [decimal_append]
    have hne : text.toList ≠ ['0'] := fun hzero =>
      hv.not_isAsciiDigit (hzero ▸ List.forall_mem_singleton.2 (by decide))
    obtain ⟨c, hhead, hc, hzero⟩ := h.resolve_left hne
    refine exists_malformed vars ⟨c, hhead, hc⟩ hv.1 ?_ fun hall => absurd hall hv.not_isAsciiDigit
    rintro mark rest heq -
    rw [heq] at hhead
    exact absurd (Option.some.inj hhead).symm hzero

/-- **Literals denote their values.** In each of the forms a text that writes a number, in either
case where the case of a letter does not count and with any number of digits, save that a decimal
literal may not be too long, is evaluated to that number, cut to sixty-four bits and read as a signed
number. A text with a digit that the base does not have is malformed. The variables stay as they
are. -/
theorem evaluate_front_append (h : form.Admits text.toList) :
    (∀ v, IsNumeral form.base v text.toList →
      (form = .decimal → text.length ≤ Text.maxDecimalDigits) →
      evaluate (form.front ++ text) vars = (.ok (BitVec.ofNat 64 v).toInt, vars)) ∧
    (IsMisspelt form.base text.toList →
      ∃ flaw, evaluate (form.front ++ text) vars = (.error (.malformed flaw), vars)) := by
  refine ⟨fun v hv hmany => ?_, fun hv => form.evaluate_isMisspelt vars h hv⟩
  rw [form.evaluate_isNumeral vars h hv hmany, wrap_eq_toInt, BitVec.ofInt_natCast]

/-- The largest number of sixty-four bits in letters of both cases, which is minus one, and an
octal literal with an underscore in it. -/
theorem evaluate_front_append_mixedCase :
    (based 16).Admits "FFFFffffFFFFffff".toList ∧ octal.Admits "10_7".toList ∧
      evaluate "16#FFFFffffFFFFffff" (.ofGlobals [] []) = (.ok (-1), .ofGlobals [] []) ∧
      ∃ flaw, evaluate "010_7" (.ofGlobals [] []) =
        (.error (.malformed flaw), .ofGlobals [] []) := by
  have hbase : (based 16).Admits "FFFFffffFFFFffff".toList := by simp [Admits]
  have hoctal : octal.Admits "10_7".toList := by simp [Admits]
  have hv : IsNumeral 16 (2 ^ 64 - 1) "FFFFffffFFFFffff".toList :=
    ⟨List.replicate 16 15, by decide, by decide, by rfl⟩
  have hbad : IsMisspelt 8 "10_7".toList := by
    refine ⟨by simp [digitOrder], '_', by decide, fun d hd => ?_⟩
    exact hd.ne_underscore (by decide) rfl
  exact ⟨hbase, hoctal,
    ((based 16).evaluate_front_append (.ofGlobals [] []) hbase).1 _ hv (fun h => by cases h),
    (octal.evaluate_front_append (.ofGlobals [] []) hoctal).2 hbad⟩

end LiteralForm

end VirtualShell.Arith
