import Mathlib
import VirtualShell.Proofs.Reading.Command
import VirtualShell.Proofs.Reading.Token

/-!
# Numerals in scripts

The only numerals that are read with a script are file descriptors, and a descriptor is any run of
digits before a redirection. It is a numeral when its digits are decimal ones and there are not too
many of them. So a script is refused for a numeral only if its own text holds another digit, or more
digits than a numeral may have.

* `Text.DigitsWithin` — the digits of one text are among those of another, or may stand for some.
* `Text.readDecimal_of_digits` — a run of decimal digits is read as a number with so many digits.
* `Text.readDecimal_lt` — no numeral is shorter than its number.
* `Scanner.digitsWithin_step` — a step of the lexer adds no digits.
* **`Script.parse_cases`** — what comes of any text.
-/

namespace VirtualShell

/-! ## Runs of digits -/

namespace Text

theorem decimalValue?_lt {c : Char} {d : Nat} (h : decimalValue? c = some d) : d < 10 := by
  obtain ⟨r, -, rfl⟩ := Option.map_eq_some_iff.1 h
  exact Nat.mod_lt _ (by decide)

theorem decimalValue?_of_isDecimal {c : Char} (h : isDecimal c = true) :
    ∃ d < 10, decimalValue? c = some d := by
  obtain ⟨r, hr, hrange⟩ := (Ranges.holds_iff _ _).1 h
  have hfound : (decimalRanges.find? fun r => r.1 ≤ c.toNat && c.toNat ≤ r.2).isSome := by
    rw [List.find?_isSome]
    exact ⟨r, hr, by simpa using hrange⟩
  obtain ⟨found, hfound⟩ := Option.isSome_iff_exists.1 hfound
  have hvalue : decimalValue? c = some _ := congrArg _ hfound
  exact ⟨_, decimalValue?_lt hvalue, hvalue⟩

/-- Decimal digits and blanks are different characters. -/
theorem isBlank_of_isDecimal {c : Char} (h : isDecimal c = true) : isBlank c = false := by
  have hapart : ∀ r ∈ decimalRanges, ∀ b ∈ blankRanges, r.2 < b.1 ∨ b.2 < r.1 := by decide
  obtain ⟨r, hr, hle, hge⟩ := (Ranges.holds_iff _ _).1 h
  rw [Bool.eq_false_iff, ne_eq, isBlank, Ranges.holds_iff]
  rintro ⟨b, hb, hle', hge'⟩
  have := hapart r hr b hb
  omega

theorem isNumeralBlank_of_isDecimal {c : Char} (h : isDecimal c = true) :
    isNumeralBlank c = false := by
  rw [isNumeralBlank, isBlank_of_isDecimal h, Bool.false_and]

/-- Among the first characters the decimal digits are the ten digits. -/
theorem toNat_of_isDecimal {c : Char} (h : isDecimal c = true) :
    (48 ≤ c.toNat ∧ c.toNat ≤ 57) ∨ 128 ≤ c.toNat := by
  by_cases hc : c.toNat < 128
  · have hdigit := isDigit_of_ascii hc
    rw [isDigit, h, Bool.true_or] at hdigit
    rw [eq_comm, Bool.and_eq_true, decide_eq_true_eq, decide_eq_true_eq] at hdigit
    exact .inl hdigit
  · exact .inr (Nat.not_lt.1 hc)

theorem digitValue?_of_isDecimal {c : Char} (h : isDecimal c = true) :
    ∃ d < 10, digitValue? c = some d := by
  obtain ⟨d, hd, hvalue⟩ := decimalValue?_of_isDecimal h
  have hcode := toNat_of_isDecimal h
  refine ⟨d, hd, ?_⟩
  have hsmall : ¬ ('a' ≤ c ∧ c ≤ 'z') := by
    rintro ⟨hle, hge⟩
    have hle : 97 ≤ c.toNat := UInt32.le_iff_toNat_le.1 hle
    have hge : c.toNat ≤ 122 := UInt32.le_iff_toNat_le.1 hge
    omega
  have hlarge : ¬ ('A' ≤ c ∧ c ≤ 'Z') := by
    rintro ⟨hle, hge⟩
    have hle : 65 ≤ c.toNat := UInt32.le_iff_toNat_le.1 hle
    have hge : c.toNat ≤ 90 := UInt32.le_iff_toNat_le.1 hge
    omega
  simp only [digitValue?, Bool.and_eq_true, decide_eq_true_eq]
  rw [if_neg hsmall, if_neg hlarge, hvalue]

/-- The number that a run of digits writes, after the value of those before it. -/
def runValue (base : Nat) (text : List Char) (value : Nat) : Nat :=
  text.foldl (fun value c => value * base + (digitValue? c).getD 0) value

/-- **A run of digits of the base** is read to its end. -/
theorem readDigits_run {base : Nat} {text : List Char}
    (h : ∀ c ∈ text, c ≠ '_' ∧ ∃ d < base, digitValue? c = some d) (apart : Bool)
    (hapart : text = [] → apart = false) (count value : Nat) :
    readDigits base apart count value text =
      some (count + text.length, runValue base text value, []) := by
  induction text generalizing apart count value with
  | nil => simp [readDigits, runValue, hapart rfl]
  | cons c text ih =>
    obtain ⟨hunderscore, d, hd, hvalue⟩ := h c List.mem_cons_self
    rw [readDigits, hvalue]
    · dsimp only
      rw [if_pos hd, ih (fun c hc => h c (List.mem_cons_of_mem _ hc)) false (fun _ => rfl),
        List.length_cons, runValue, runValue, List.foldl_cons, hvalue, Option.getD_some,
        Nat.add_right_comm, Nat.add_assoc]
    · exact hunderscore

/-- What is read of a text is made of digits of the base and underscores. -/
theorem exists_append_of_readDigits {base : Nat} {apart : Bool} {count value : Nat}
    {text : List Char} {found : Nat × Nat × List Char}
    (h : readDigits base apart count value text = some found) :
    ∃ run, text = run ++ found.2.2 ∧
      ∀ c ∈ run, c = '_' ∨ ∃ d < base, digitValue? c = some d := by
  fun_induction readDigits base apart count value text with
  | case1 | case3 | case6 | case8 => cases h
  | case2 | case7 | case9 =>
    cases h
    exact ⟨[], rfl, by simp⟩
  | case4 count value rest apart hapart ih =>
    obtain ⟨run, hrun, hchars⟩ := ih h
    exact ⟨'_' :: run, congrArg _ hrun, List.forall_mem_cons.2 ⟨.inl rfl, hchars⟩⟩
  | case5 apart count value c rest hunderscore d hvalue hd ih =>
    obtain ⟨run, hrun, hchars⟩ := ih h
    exact ⟨c :: run, congrArg _ hrun, List.forall_mem_cons.2 ⟨.inr ⟨d, hd, hvalue⟩, hchars⟩⟩

/-- The digits that are read make a number with no more digits. -/
theorem readDigits_value_lt {base : Nat} {apart : Bool} {count value : Nat} {digits : List Char}
    {found : Nat × Nat × List Char} (hbase : 0 < base)
    (h : readDigits base apart count value digits = some found) :
    found.2.1 < (value + 1) * base ^ digits.length := by
  have hstays (value length : Nat) : value < (value + 1) * base ^ length :=
    Nat.lt_of_lt_of_le (Nat.lt_succ_self value)
      (Nat.le_mul_of_pos_right _ (Nat.pow_pos hbase))
  fun_induction readDigits base apart count value digits with
  | case1 | case3 | case6 | case8 => cases h
  | case2 | case7 | case9 =>
    cases h
    exact hstays _ _
  | case4 count value rest apart hapart ih =>
    refine Nat.lt_of_lt_of_le (ih h) (Nat.mul_le_mul_left _ ?_)
    exact Nat.pow_le_pow_right hbase (Nat.le_succ _)
  | case5 apart count value c rest hunderscore d hvalue hd ih =>
    refine Nat.lt_of_lt_of_le (ih h) ?_
    rw [List.length_cons, Nat.pow_succ', ← Nat.mul_assoc, Nat.succ_mul value]
    exact Nat.mul_le_mul_right _ (by omega)

/-- A run of decimal digits is read to its end. -/
theorem readDigits_of_isDecimal {digits : List Char} (h : ∀ c ∈ digits, isDecimal c = true)
    (apart : Bool) (hapart : digits = [] → apart = false) (count value : Nat) :
    ∃ value' < (value + 1) * 10 ^ digits.length,
      readDigits 10 apart count value digits = some (count + digits.length, value', []) := by
  have hvalues : ∀ c ∈ digits, c ≠ '_' ∧ ∃ d < 10, digitValue? c = some d := by
    refine fun c hc => ⟨?_, digitValue?_of_isDecimal (h c hc)⟩
    rintro rfl
    exact absurd (h _ hc) (by decide)
  have hread := readDigits_run hvalues apart hapart count value
  exact ⟨_, readDigits_value_lt (by decide) hread, hread⟩

/-- **Where digits start at once**, with none of the characters that may stand before them, what is
read of the text is read from its start. -/
theorem readInteger_of_front {base : Nat} {c : Char} {rest : List Char}
    (hblank : isNumeralBlank c = false) (hminus : c ≠ '-') (hplus : c ≠ '+')
    (hmark : dropRadixMark base (c :: rest) = c :: rest) :
    readInteger base (String.ofList (c :: rest)) =
      match readDigits base true 0 0 (c :: rest) with
      | none => .error (.malformed base (String.ofList (c :: rest)))
      | some (count, value, after) =>
        if base == 10 && count > maxDecimalDigits then .error (.tooManyDigits count)
        else if after.all isNumeralBlank then .ok (value : Int)
        else .error (.malformed base (String.ofList (c :: rest))) := by
  have hsign : readSign (c :: rest) = (false, c :: rest) := by
    unfold readSign
    split
    · next heq => exact absurd (List.cons.inj heq).1 hminus
    · next heq => exact absurd (List.cons.inj heq).1 hplus
    · rfl
  rw [readInteger, String.toList_ofList, List.dropWhile_cons_of_neg (by simp [hblank]), hsign]
  dsimp only
  rw [hmark]
  rfl

/-- In base ten there is no radix mark. -/
theorem dropRadixMark_ten (text : List Char) : dropRadixMark 10 text = text := by
  unfold dropRadixMark
  split <;> rfl

theorem readSign_length_le (text : List Char) : (readSign text).2.length ≤ text.length := by
  unfold readSign
  split <;> simp

/-- A text that starts with a decimal digit and is read to its end is a numeral, if there are not
too many digits. -/
theorem readInteger_of_readDigits {c : Char} {rest : List Char} {count value : Nat}
    (hc : isDecimal c = true)
    (hread : readDigits 10 true 0 0 (c :: rest) = some (count, value, [])) :
    readInteger 10 (String.ofList (c :: rest)) =
      if maxDecimalDigits < count then .error (.tooManyDigits count) else .ok (value : Int) := by
  have hne {d : Char} (hd : isDecimal d = false) : c ≠ d := by
    rintro rfl
    rw [hc] at hd
    cases hd
  rw [readInteger_of_front (isNumeralBlank_of_isDecimal hc) (hne (by decide)) (hne (by decide))
    (dropRadixMark_ten _), hread]
  simp

/-- **A run of decimal digits is a numeral**, if there are not too many. Its number has as many
digits at the most. -/
theorem readDecimal_of_digits {digits : List Char} (h : ∀ c ∈ digits, isDecimal c = true)
    (hne : digits ≠ []) (hmany : digits.length ≤ maxDecimalDigits) :
    ∃ n : Nat, n < 10 ^ digits.length ∧ readDecimal (String.ofList digits) = .ok n := by
  obtain ⟨value, hlt, hread⟩ := readDigits_of_isDecimal h true (fun hnil => absurd hnil hne)
    0 0
  obtain ⟨c, rest, rfl⟩ := List.exists_cons_of_ne_nil hne
  refine ⟨value, by simpa using hlt, ?_⟩
  rw [readDecimal, readInteger_of_readDigits (h c List.mem_cons_self) hread,
    if_neg (by simpa using hmany)]

/-- **Too many digits** are no numeral. -/
theorem readDecimal_of_many_digits {digits : List Char} (h : ∀ c ∈ digits, isDecimal c = true)
    (hmany : maxDecimalDigits < digits.length) :
    readDecimal (String.ofList digits) = .error (.tooManyDigits digits.length) := by
  have hne : digits ≠ [] := by
    rintro rfl
    simp at hmany
  obtain ⟨value, -, hread⟩ := readDigits_of_isDecimal h true (fun hnil => absurd hnil hne) 0 0
  obtain ⟨c, rest, rfl⟩ := List.exists_cons_of_ne_nil hne
  rw [readDecimal, readInteger_of_readDigits (h c List.mem_cons_self) hread,
    if_pos (by simpa using hmany), Nat.zero_add]

/-- **A numeral has at least as many digits as its number.** -/
theorem readDecimal_lt {text : String} {n : Int} (h : readDecimal text = .ok n) :
    n.toNat < 10 ^ text.length := by
  have hblanks := (text.toList.dropWhile_sublist isNumeralBlank).length_le
  have hsign := readSign_length_le (text.toList.dropWhile isNumeralBlank)
  rw [readDecimal, readInteger] at h
  revert hsign h
  generalize readSign (text.toList.dropWhile isNumeralBlank) = signed
  obtain ⟨negative, body⟩ := signed
  intro h hbody
  dsimp only at h
  rw [dropRadixMark_ten] at h
  split at h
  · cases h
  · next count value rest hread =>
    have hvalue : value < (0 + 1) * 10 ^ body.length := readDigits_value_lt (by decide) hread
    split at h
    · cases h
    split at h
    · cases h
      have hle : body.length ≤ text.length := by
        rw [← String.length_toList]
        exact Nat.le_trans hbody hblanks
      have hpow := Nat.pow_le_pow_right (show 0 < 10 by decide) hle
      split <;> omega
    · cases h

end Text

/-! ## Fewer digits -/

/-- **No more digits, and only decimal ones besides those of another text.** -/
structure Text.DigitsWithin (text whole : List Char) : Prop where
  decimal : ∀ c ∈ text, isDigit c = true → isDecimal c = true ∨ c ∈ whole
  count : text.countP isDigit ≤ whole.countP isDigit

namespace Text.DigitsWithin

variable {a b c a' b' : List Char}

theorem of_sublist (h : a.Sublist b) : DigitsWithin a b :=
  ⟨fun _ hc _ => .inr (h.subset hc), h.countP_le⟩

theorem refl (a : List Char) : DigitsWithin a a := of_sublist (List.Sublist.refl a)

theorem trans (hab : DigitsWithin a b) (hbc : DigitsWithin b c) : DigitsWithin a c where
  decimal x hx hdigit := (hab.decimal x hx hdigit).elim .inl fun hb => hbc.decimal x hb hdigit
  count := Nat.le_trans hab.count hbc.count

theorem append (h : DigitsWithin a b) (h' : DigitsWithin a' b') :
    DigitsWithin (a ++ a') (b ++ b') where
  decimal x hx hdigit := by
    rcases List.mem_append.1 hx with hx | hx
    · exact (h.decimal x hx hdigit).imp_right fun hb => List.mem_append_left _ hb
    · exact (h'.decimal x hx hdigit).imp_right fun hb => List.mem_append_right _ hb
  count := by
    rw [List.countP_append, List.countP_append]
    exact Nat.add_le_add h.count h'.count

theorem of_perm (h : a.Perm b) : DigitsWithin a b :=
  ⟨fun _ hc _ => .inr (h.subset hc), Nat.le_of_eq (h.countP_eq _)⟩

/-- A text without digits is within any other one. -/
theorem of_no_digit (h : ∀ c ∈ a, isDigit c = false) : DigitsWithin a b where
  decimal x hx hdigit := by
    rw [h x hx] at hdigit
    cases hdigit
  count := by
    rw [List.countP_eq_zero.2 fun x hx => by simp [h x hx]]
    exact Nat.zero_le _

end Text.DigitsWithin

/-- **Texts whose digits numerals can be made of**: all digits are decimal ones, and there are not
more of them than a numeral may have. -/
structure Text.ReadableDigits (text : List Char) : Prop where
  decimal : ∀ c ∈ text, isDigit c = true → isDecimal c = true
  count : text.countP isDigit ≤ maxDecimalDigits

theorem Text.ReadableDigits.within {text whole : List Char} (h : ReadableDigits whole)
    (hwithin : DigitsWithin text whole) : ReadableDigits text where
  decimal c hc hdigit := (hwithin.decimal c hc hdigit).elim id fun hmem => h.decimal c hmem hdigit
  count := Nat.le_trans hwithin.count h.count

/-! ## Tokens -/

/-- All that is written in a token: its descriptor, its text and the body of its here-document. -/
def Token.chars (t : Token) : List Char :=
  ((t.descriptor.map toString).getD "").toList ++ t.text.toList ++
    ((t.hereDocument.map HereDocument.body).getD "").toList

/-- All that the lexer has read and has still to read. -/
def Scanner.chars (s : Scanner) : List Char :=
  s.tokens.flatMap Token.chars ++ s.bodies.flatMap String.toList ++ s.rest

open Text

theorem PendingDocument.digitsWithin_readBody (doc : PendingDocument) (body : String) (count : Nat)
    (text : List Char) : DigitsWithin
      ((doc.readBody body count text).1.toList ++ (doc.readBody body count text).2.2)
      (body.toList ++ text) := by
  fun_induction doc.readBody body count text with
  | case1 body count => exact .refl _
  | case2 body count c text line line' hdelimiter =>
    refine (DigitsWithin.refl _).append (.of_sublist ?_)
    exact (List.tail_sublist _).trans (List.dropWhile_sublist _)
  | case3 body count c text line line' hdelimiter ih =>
    refine ih.trans ?_
    have hline : DigitsWithin line' ((c :: text).takeWhile (· != '\n')) := by
      refine .of_sublist ?_
      dsimp only [line']
      split
      · exact List.dropWhile_sublist _
      · exact List.Sublist.refl _
    have hend : DigitsWithin ['\n'] [] :=
      .of_no_digit fun _ => isDigit_of_mem (by decide)
    have hafter : DigitsWithin (takeLine (c :: text)).2 ((c :: text).dropWhile (· != '\n')) :=
      .of_sublist (List.tail_sublist _)
    have happend := (DigitsWithin.refl body.toList).append (hline.append (hend.append hafter))
    rw [List.nil_append, List.takeWhile_append_dropWhile] at happend
    simpa using happend

namespace Scanner

variable {s s' : Scanner}

theorem digitsWithin_emit {t : Token} (htokens : s'.tokens = t :: s.tokens)
    (hbodies : s'.bodies = s.bodies) (h : DigitsWithin (t.chars ++ s'.rest) s.rest) :
    DigitsWithin s'.chars s.chars := by
  let earlier := s.tokens.flatMap Token.chars ++ s.bodies.flatMap String.toList
  have hperm : ((t.chars ++ earlier) ++ s'.rest).Perm ((earlier ++ t.chars) ++ s'.rest) :=
    List.perm_append_comm.append_right _
  have hchars : s'.chars = (t.chars ++ earlier) ++ s'.rest := by
    simp [chars, htokens, hbodies, earlier]
  rw [hchars]
  refine (DigitsWithin.of_perm hperm).trans ?_
  rw [List.append_assoc]
  exact (DigitsWithin.refl earlier).append h

/-- The bodies of the here-documents come from the text ahead. -/
theorem digitsWithin_readBodies (s : Scanner) (docs : List PendingDocument) :
    DigitsWithin (s.readBodies docs).chars s.chars := by
  induction docs generalizing s with
  | nil => exact .refl _
  | cons doc docs ih =>
    rw [readBodies]
    refine (ih _).trans ?_
    have hbody := doc.digitsWithin_readBody "" 0 s.rest
    rw [String.toList_empty, List.nil_append] at hbody
    have hperm := (List.perm_append_comm.append_right _ :
      ((doc.readBody "" 0 s.rest).1.toList ++ s.bodies.flatMap String.toList ++
          (doc.readBody "" 0 s.rest).2.2).Perm
        (s.bodies.flatMap String.toList ++ (doc.readBody "" 0 s.rest).1.toList ++
          (doc.readBody "" 0 s.rest).2.2))
    have hmore := (DigitsWithin.of_perm hperm).trans <|
      (List.append_assoc _ _ _ ▸ (DigitsWithin.refl (s.bodies.flatMap String.toList)).append hbody)
    have hall := (DigitsWithin.refl (s.tokens.flatMap Token.chars)).append hmore
    simpa [chars] using hall

theorem digitsWithin_noteDelimiter (s : Scanner) (word : List Char) :
    DigitsWithin (s.noteDelimiter word).chars s.chars := by
  unfold noteDelimiter
  split
  · next op text line fd document earlier htokens =>
    split
    · simp only [chars, htokens, List.flatMap_cons]
      refine ((DigitsWithin.append (.of_sublist ?_) (.refl _)).append (.refl _)).append (.refl _)
      simp [Token.chars]
    · exact .refl _
  · exact .refl _

theorem digitsWithin_readWord (h : s.readWord = .ok s') : DigitsWithin s'.chars s.chars := by
  unfold readWord at h
  split at h
  · cases h
  · next read rest hscan =>
    cases h
    have happend := Delimiter.scan_append hscan
    rw [List.reverse_nil, List.nil_append] at happend
    refine DigitsWithin.trans ?_ (digitsWithin_noteDelimiter s read.reverse)
    refine digitsWithin_emit rfl rfl ?_
    simpa [Token.chars, happend] using DigitsWithin.refl s.rest

theorem digitsWithin_readParens {inner : List Char} (hs : s.rest = '(' :: inner)
    (h : s.readParens inner = .ok s') : DigitsWithin s'.chars s.chars := by
  unfold readParens at h
  split at h
  · cases h
  · next content rest hclose =>
    split at h
    · next expression hinner =>
      cases h
      refine digitsWithin_emit rfl rfl (.of_sublist ?_)
      obtain ⟨closer, happend⟩ := Delimiter.close_append hclose
      have hexpression := (Delimiter.close_inner hinner).sublist.trans (List.tail_sublist _)
      rw [hs, ← happend]
      refine List.Sublist.cons _ ?_
      simpa [Token.chars, emit] using
        (hexpression.trans (List.sublist_append_left _ _)).append (List.Sublist.refl rest)
    · cases h
      refine digitsWithin_emit rfl rfl ?_
      rw [hs]
      simpa [Token.chars, emit] using DigitsWithin.refl ('(' :: inner)

/-- An operator or a word after a descriptor, whose digits stand before it. -/
theorem digitsWithin_readOperator {descriptor : Option Nat} {digits : List Char}
    (h : s.readOperator descriptor = .ok s')
    (hdigits : DigitsWithin ((descriptor.map toString).getD "").toList digits) :
    DigitsWithin s'.chars ({ s with rest := digits ++ s.rest } : Scanner).chars := by
  unfold readOperator at h
  split at h
  · next kind rest hkind =>
    cases h
    refine digitsWithin_emit rfl rfl ?_
    rw [← TokenKind.operator?_append hkind]
    simpa [Token.chars, emit] using hdigits.append (.refl (kind.spelling.toList ++ rest))
  · refine (digitsWithin_readWord h).trans (.of_sublist ?_)
    simp [chars]

/-- The descriptor that is read of some digits has no more of them. -/
theorem digitsWithin_toString {n : Nat} {digits : List Char} (hne : digits ≠ [])
    (hdigits : ∀ c ∈ digits, isDigit c = true) (hn : n < 10 ^ digits.length) :
    DigitsWithin (toString n).toList digits where
  decimal c hc _ := by
    left
    rw [Nat.toString_eq_repr, Nat.toList_repr] at hc
    have hascii := Nat.isDigit_of_mem_toDigits (by decide) (by decide) hc
    rw [Char.isDigit, Bool.and_eq_true, decide_eq_true_eq, decide_eq_true_eq] at hascii
    have hle : 48 ≤ c.toNat := UInt32.le_iff_toNat_le.1 hascii.1
    have hge : c.toNat ≤ 57 := UInt32.le_iff_toNat_le.1 hascii.2
    exact (Ranges.holds_iff _ _).2 ⟨(48, 57), List.mem_cons_self, hle, hge⟩
  count := by
    have hlength : (toString n).toList.length ≤ digits.length := by
      rw [String.length_toList, Nat.toString_eq_repr]
      exact (Nat.length_repr_le_iff (List.length_pos_iff.2 hne)).2 hn
    refine Nat.le_trans List.countP_le_length (Nat.le_trans hlength ?_)
    exact Nat.le_of_eq (List.countP_eq_length.2 hdigits).symm

/-- A run of digits that may stand before a redirection is a descriptor. -/
theorem readDecimal_descriptor {text digits rest : List Char}
    (h : descriptor? text = some (digits, rest)) (hreadable : ReadableDigits text) :
    ∃ n : Nat, readDecimal (String.ofList digits) = .ok n ∧
      DigitsWithin (toString n).toList digits := by
  obtain ⟨happend, hne, hdigits⟩ := descriptor?_eq_some h
  have hwithin : DigitsWithin digits text := .of_sublist (happend ▸ List.sublist_append_left _ _)
  have hreadable := hreadable.within hwithin
  have hlength : digits.length ≤ maxDecimalDigits := by
    rw [← List.countP_eq_length.2 hdigits]
    exact hreadable.count
  obtain ⟨n, hn, hread⟩ := readDecimal_of_digits
    (fun c hc => hreadable.decimal c hc (hdigits c hc)) hne hlength
  exact ⟨n, hread, digitsWithin_toString hne hdigits hn⟩

theorem readOperator_ne_integer {descriptor : Option Nat} {e : SyntaxError}
    (h : s.readOperator descriptor = .error e) (cause : Text.IntegerError) :
    e ≠ .integer cause := by
  unfold readOperator readWord at h
  split at h
  · cases h
  · split at h
    · cases h
      nofun
    · cases h

/-- A numeral is refused only where there are digits that it cannot be made of. -/
theorem step_ne_integer {c : Char} {rest : List Char} {e : SyntaxError}
    (h : s.step c rest = .error e) (hreadable : ReadableDigits (c :: rest))
    (cause : Text.IntegerError) : e ≠ .integer cause := by
  unfold step at h
  split at h
  · cases h
  split at h
  · cases h
  split at h
  · cases h
  split at h
  · cases h
  split at h
  · unfold readParens at h
    split at h
    · cases h
      nofun
    · split at h <;> cases h
  split at h
  · next digits after hdigits =>
    obtain ⟨n, hread, -⟩ := readDecimal_descriptor hdigits hreadable
    rw [hread] at h
    exact readOperator_ne_integer h cause
  · exact readOperator_ne_integer h cause

/-- **A step adds no digits.** -/
theorem digitsWithin_step {c : Char} {rest : List Char} (hs : s.rest = c :: rest)
    (h : s.step c rest = .ok s') (hreadable : ReadableDigits (c :: rest)) :
    DigitsWithin s'.chars s.chars := by
  have hrest {after : List Char} (hafter : after.Sublist (c :: rest)) :
      DigitsWithin ({ s with rest := after } : Scanner).chars s.chars := by
    refine .of_sublist (List.Sublist.append (List.Sublist.refl _) ?_)
    rw [hs]
    exact hafter
  have hback : ({ s with rest := c :: rest } : Scanner).chars = s.chars := by
    rw [chars, chars, hs]
  unfold step at h
  split at h
  · cases h
    exact hrest (List.sublist_cons_self _ _)
  split at h
  · cases h
    exact hrest ((List.tail_sublist _).trans (List.sublist_cons_self _ _))
  split at h
  · cases h
    exact hrest ((List.dropWhile_sublist _).trans (List.sublist_cons_self _ _))
  split at h
  · next hline =>
    obtain rfl : c = '\n' := by simpa using hline
    cases h
    refine (digitsWithin_readBodies _ _).trans ?_
    refine digitsWithin_emit rfl rfl ?_
    rw [hs]
    simpa [Token.chars] using DigitsWithin.refl ('\n' :: rest)
  split at h
  · next hparens =>
    rw [Bool.and_eq_true, beq_iff_eq] at hparens
    obtain ⟨rfl, -⟩ := hparens
    have hwithin := digitsWithin_readParens rfl h
    rwa [hback] at hwithin
  split at h
  · next digits after hdigits =>
    obtain ⟨n, hread, hwithin⟩ := readDecimal_descriptor hdigits hreadable
    rw [hread] at h
    change readOperator _ (some n) = _ at h
    have hoperator := digitsWithin_readOperator h hwithin
    rwa [(descriptor?_eq_some hdigits).1, hback] at hoperator
  · have hoperator := digitsWithin_readOperator h (.refl [])
    rwa [List.nil_append, hback] at hoperator

/-- **No digits are added by the lexer**, and it refuses no numeral of a text whose digits can be
read. -/
theorem readable_run (s : Scanner) (hreadable : ReadableDigits s.chars) :
    match s.run with
    | .error e => ∀ cause, e ≠ .integer cause
    | .ok s' => ReadableDigits s'.chars := by
  fun_induction run s with
  | case1 s hs => exact hreadable
  | case2 s c rest hs e hstep =>
    refine step_ne_integer hstep (hreadable.within (.of_sublist ?_))
    exact hs ▸ List.sublist_append_right _ _
  | case3 s c rest hs next hstep _ ih =>
    have hwhole : DigitsWithin (c :: rest) s.chars :=
      .of_sublist (hs ▸ List.sublist_append_right _ _)
    exact ih (hreadable.within (digitsWithin_step hs hstep (hreadable.within hwhole)))

end Scanner

/-- The bodies are attached to the tokens that introduce them. -/
theorem digitsWithin_attachBodies (done : List Token) (bodies : List String) (tokens : List Token) :
    DigitsWithin ((attachBodies done bodies tokens).flatMap Token.chars)
      (done.flatMap Token.chars ++ bodies.flatMap String.toList ++ tokens.flatMap Token.chars) := by
  fun_induction attachBodies done bodies tokens with
  | case1 done bodies =>
    refine (DigitsWithin.of_perm ((List.reverse_perm done).flatMap_right _)).trans (.of_sublist ?_)
    simp
  | case2 done t tokens doc body bodies hdoc ih =>
    refine ih.trans ?_
    let front := ((t.descriptor.map toString).getD "").toList ++ t.text.toList
    have hperm : (front ++ body.toList ++ done.flatMap Token.chars ++
        bodies.flatMap String.toList ++ tokens.flatMap Token.chars).Perm
        (done.flatMap Token.chars ++ (body.toList ++ bodies.flatMap String.toList) ++
          (front ++ tokens.flatMap Token.chars)) := by
      rw [List.perm_iff_count]
      intro c
      simp only [List.count_append]
      omega
    have hfront : front.Sublist t.chars := List.sublist_append_left _ _
    have hwhole := (DigitsWithin.of_perm hperm).trans <| .of_sublist <|
      (List.Sublist.refl _).append (hfront.append (List.Sublist.refl _))
    simpa [Token.chars, front] using hwhole
  | case3 done bodies t tokens _ ih =>
    refine ih.trans (.of_perm ?_)
    rw [List.perm_iff_count]
    intro c
    simp only [List.flatMap_cons, List.count_append]
    omega

/-! ## The rule -/

theorem Token.text_sublist (t : Token) : t.text.toList.Sublist t.chars :=
  (List.sublist_append_right _ _).trans (List.sublist_append_left _ _)

theorem Token.document_sublist (t : Token) {doc : HereDocument} (h : doc ∈ t.hereDocument) :
    doc.body.toList.Sublist t.chars := by
  obtain h : t.hereDocument = some doc := h
  rw [chars, h]
  exact List.sublist_append_right _ _

/-- The digits of the operand of `=~` are those of the tokens that it is made of. -/
theorem Parser.digitsWithin_regexOperand (depth : Nat) (raw : String) (tokens : List Token) :
    DigitsWithin (regexOperand depth raw tokens).1.toList
      (raw.toList ++ tokens.flatMap Token.chars) := by
  have htoken {t : Token} {tokens : List Token} {raw more : String}
      (h : DigitsWithin more.toList t.chars) :
      DigitsWithin ((raw ++ more).toList ++ tokens.flatMap Token.chars)
        (raw.toList ++ (t :: tokens).flatMap Token.chars) := by
    simpa using (DigitsWithin.refl raw.toList).append (h.append (.refl _))
  fun_induction regexOperand depth raw tokens with
  | case1 | case2 | case3 | case5 => exact .of_sublist (List.sublist_append_left _ _)
  | case4 _ _ t _ _ _ _ ih | case6 _ t _ _ _ _ _ ih =>
    exact ih.trans (htoken (.of_sublist t.text_sublist))
  | case7 depth raw t tokens _ _ _ ih =>
    rw [String.append_assoc, String.append_assoc] at ih ⊢
    refine ih.trans (htoken ?_)
    have hopen : DigitsWithin ['(', '('] [] := .of_no_digit fun _ => isDigit_of_mem (by decide)
    have hclose : DigitsWithin [')', ')'] [] := .of_no_digit fun _ => isDigit_of_mem (by decide)
    simpa using hopen.append ((DigitsWithin.of_sublist t.text_sublist).append hclose)
  | case8 depth raw t tokens _ _ fd _ _ _ ih =>
    rw [String.append_assoc] at ih ⊢
    exact ih.trans (htoken (t := t) (.of_sublist (by simp [Token.chars, fd])))

/-- The tokens of a text whose digits can be read, and the reasons for which it has none. -/
theorem TokenStream.readable_ofText {text : List Char} (hreadable : ReadableDigits text) :
    match ofText (String.ofList text) with
    | .error e => ∀ cause, e ≠ .integer cause
    | .ok stream => ReadableDigits (stream.tokens.flatMap Token.chars) := by
  have hrun := Scanner.readable_run ⟨text, 1, [], [], []⟩ hreadable
  unfold ofText
  rw [String.toList_ofList]
  rcases hscanner : Scanner.run ⟨text, 1, [], [], []⟩ with e | s <;> rw [hscanner] at hrun
  · exact hrun
  · refine ReadableDigits.within hrun ((digitsWithin_attachBodies [] _ _).trans ?_)
    have hbodies := (List.reverse_perm s.bodies).flatMap_right String.toList
    have htokens := (List.reverse_perm s.tokens).flatMap_right Token.chars
    have hperm := (hbodies.append htokens).trans List.perm_append_comm
    exact (DigitsWithin.of_perm hperm).trans (.of_sublist (List.sublist_append_left _ _))

/-- **What is known of a text whose digits can be read**: it is not refused for a numeral. -/
def readableDigits : TokenRule where
  fine := ReadableDigits
  bound _ := True
  body _ := True
  refused e := ∀ cause, e ≠ .integer cause
  fine_inner h hfine := hfine.within (.of_sublist h.sublist)
  fine_backticks h := h.within (.of_sublist ((unescapeBackticks_sublist _).cons _))
  bound_inner _ _ := trivial
  body_parens _ _ := trivial
  body_backticks _ _ := trivial
  refused_lexical _ _ _ := by simp
  tokens tokens := ReadableDigits (tokens.flatMap Token.chars)
  tokens_nil := ⟨nofun, Nat.zero_le _⟩
  tokens_tail h := h.within (.of_sublist (List.sublist_append_right _ _))
  fine_text {t _} h :=
    h.within (.of_sublist (t.text_sublist.trans (List.sublist_append_left _ _)))
  fine_document {t _} h _ hdoc :=
    h.within (.of_sublist ((t.document_sublist hdoc).trans (List.sublist_append_left _ _)))
  fine_regex h := h.within (Parser.digitsWithin_regexOperand 0 "" _)
  tokens_ofText hfine h := by
    have hstream := TokenStream.readable_ofText hfine
    rw [h] at hstream
    exact hstream
  refused_ofText hfine h := by
    have hstream := TokenStream.readable_ofText hfine
    rw [h] at hstream
    exact hstream
  refused_grammar _ _ _ := by simp

/-- Nothing is known of any text. -/
def anyText : TokenRule where
  fine _ := True
  bound _ := True
  body _ := True
  refused _ := True
  fine_inner _ _ := trivial
  fine_backticks _ := trivial
  bound_inner _ _ := trivial
  body_parens _ _ := trivial
  body_backticks _ _ := trivial
  refused_lexical _ _ := trivial
  tokens _ := True
  tokens_nil := trivial
  tokens_tail _ := trivial
  fine_text _ := trivial
  fine_document _ _ _ := trivial
  fine_regex _ := trivial
  tokens_ofText _ _ := trivial
  refused_ofText _ _ := trivial
  refused_grammar _ _ := trivial

/-! ## Scripts -/

/-- **What comes of a text**: a script, a grammatical reason to refuse it, or a refused numeral; and
the last one only if there are digits in the text that a numeral cannot be made of. -/
theorem Script.parse_cases (text : String) :
    (∃ script, Script.parse text = .ok script) ∨
      (∃ cause line, Script.parse text = .error (.grammar cause line)) ∨
      ∃ cause, Script.parse text = .error (.integer cause) ∧ ¬ ReadableDigits text.toList := by
  have hany : Repeats anyText.Final (fun _ => True) (Script.parse text) (Script.parse text) := by
    rw [← String.ofList_toList (s := text)]
    exact (Level.along_ofDepth anyText (Nat.le_refl maxNesting)).script trivial
  have hreadable (h : ReadableDigits text.toList) :
      Repeats readableDigits.Final (fun _ => True) (Script.parse text) (Script.parse text) := by
    rw [← String.ofList_toList (s := text)]
    exact (Level.along_ofDepth readableDigits (Nat.le_refl maxNesting)).script h
  rcases hparse : Script.parse text with (⟨cause, line⟩ | ⟨cause, line⟩ | cause) | script
  · rw [hparse] at hany
    exact absurd rfl (hany.ne_lexical cause line)
  · exact .inr (.inl ⟨cause, line, rfl⟩)
  · rw [hparse] at hreadable
    exact .inr (.inr ⟨cause, rfl, fun h => (hreadable h).refused cause rfl⟩)
  · exact .inl ⟨script, rfl⟩

end VirtualShell
