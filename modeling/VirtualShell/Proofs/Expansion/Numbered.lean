import Mathlib
import VirtualShell.Proofs.Arith.Literal
import VirtualShell.Proofs.Quoting.Braces
import VirtualShell.Proofs.Step.Basic
import VirtualShell.Session

/-!
# Parameters named by a number

A numeral between braces names the positional parameter of its number, and zero names the script.
But the name is compared with the text of one zero before it is read as a number, so a zero that is
written with more digits does not name the script. It is read as a number then. Places in the list
of parameters are counted from one, and the place before the first is the last one: the last
parameter is seen, and without parameters there is a fault. There is another fault when a numeral has too many
digits for a number to be made of it.

The value of the numeral is worked out before an operation is looked at. So what is true of the
numeral alone is true with each operation behind it.

* `Word.parse_numeral`, `Word.parse_numeral_length`, `Word.parse_numeral_op_iff` — how a numeral is
  read between braces.
* `Shell.parameter?_numeral` — the value of the parameter.
* **`Word.numeral_selects`** — which numerals are expanded by their number, and what becomes of the
  others.
* `Word.numeral_selects_last` — a zero in two digits gives the last parameter.
-/

namespace VirtualShell

/-! ## The number of a numeral -/

/-- The number that a numeral denotes. -/
def numberOf (name : String) : Nat := Nat.ofDigitChars 10 name.toList 0

/-- **The parameter of a number**: the name of the script for zero, then the positional parameters,
and nothing past the last of them. -/
def Shell.numbered (shell : Shell) (number : Nat) : Option String :=
  if number = 0 then some scriptName else shell.parameters[number - 1]?

/-- **An expansion that sees a value**: the value itself, or what the operation makes of it. -/
def Part.seeing (x : Expander) (name : String) (op : Option ParamOp) (quoted : Bool)
    (value : Option String) : Run (List Segment) :=
  match op with
  | none => return [.value quoted (value.getD "")]
  | some op => ParamOp.expand x op name value quoted

/-- **A name that is expanded by its number**, in every shell and with every operation. -/
def SeesNumbered (name : String) : Prop :=
  ∀ (x : Expander) (op : Option ParamOp) (quoted : Bool) (shell : Shell),
    Part.expand x (.parameter name op) quoted shell =
      Part.seeing x name op quoted (shell.numbered (numberOf name)) shell

section

variable {name : String} (h : Arith.IsRun Text.isAsciiDigit name.toList)
include h

theorem ne_of_isRun {other : String} (hother : other.toList.all Text.isAsciiDigit = false) :
    name ≠ other := by
  rintro rfl
  rw [List.all_eq_true.2 h.of_mem] at hother
  cases hother

/-- **A numeral is read as its number**, unless it has too many digits. -/
theorem readDecimal_of_isRun : Text.readDecimal name =
    if Text.maxDecimalDigits < name.length then .error (.tooManyDigits name.length)
    else .ok (numberOf name : Int) := by
  have hread := Text.readInteger_of_isDigit h.of_mem h.ne_nil
  rwa [String.ofList_toList, String.length_toList] at hread

/-! ## Its value -/

theorem allDigits_of_isRun : Text.allDigits name = true := by
  rw [Text.allDigits, Bool.and_eq_true, List.all_eq_true]
  refine ⟨?_, fun c hc => Text.isDigit_of_isAsciiDigit (h.of_mem c hc)⟩
  simpa [String.isEmpty_iff, ← String.toList_eq_nil_iff] using h.ne_nil

/-- **The value of a numeral**: one zero is the name of the script, and any other numeral is read as
a number. -/
theorem Shell.parameter?_numeral (shell : Shell) : shell.parameter? name =
    if name = "0" then .ok (some scriptName)
    else if Text.maxDecimalDigits < name.length then
      .error (.numeral (.tooManyDigits name.length))
    else positional? shell.parameters (numberOf name) := by
  unfold parameter?
  split
  case h_6 => rfl
  case h_9 hzero _ _ =>
    rw [if_neg hzero, allDigits_of_isRun h, if_pos rfl, readDecimal_of_isRun h]
    by_cases hmany : Text.maxDecimalDigits < name.length
    · rw [if_pos hmany, if_pos hmany]
    · rw [if_neg hmany, if_neg hmany]
      rfl
  all_goals exact absurd rfl (ne_of_isRun h (by decide))

end

/-- What an expansion comes to when the value of its parameter is known. -/
theorem Part.expand_parameter (x : Expander) {name : String} (hat : name ≠ "@") (hstar : name ≠ "*")
    (op : Option ParamOp) (quoted : Bool) (shell : Shell) :
    Part.expand x (.parameter name op) quoted shell =
      match shell.parameter? name with
      | .ok value => Part.seeing x name op quoted value shell
      | .error f => Run.fault f shell := by
  have hbind {α : Type} (r : Except Fault (Option String)) (f : Option String → Run α) :
      (Run.orFault id r >>= f) shell = match r with
        | .ok value => f value shell
        | .error fault => Run.fault fault shell := by
    cases r <;> rfl
  cases op with
  | none =>
    rw [Part.expand, expandParameter]
    simp only [hat, hstar, decide_false, Bool.and_false, Bool.false_eq_true, if_false]
    exact hbind _ _
  | some op =>
    rw [Part.expand]
    exact hbind _ _

/-! ## How it is read -/

section

variable {name : String} (h : Arith.IsRun Text.isAsciiDigit name.toList)
include h

/-- The scan for the closing brace passes over digits, whatever follows. -/
theorem spans_numeral_iff (rest : List Char) :
    Delimiter.Spans (some .brace) (name.toList ++ rest) ↔ Delimiter.Spans (some .brace) rest := by
  have hmove {c : Char} (hc : Text.isAsciiDigit c = true) (next : Option Char) :
      Delimiter.move (some .brace) c next = .pass := by
    unfold Delimiter.move
    split <;> first
      | rfl
      | exact absurd hc (by decide)
  have hdigits := h.of_mem
  clear h
  generalize name.toList = digits at hdigits
  induction digits with
  | nil => rfl
  | cons c digits ih =>
    have hc := hmove (hdigits c List.mem_cons_self)
    have ih := ih fun x hx => hdigits x (List.mem_cons_of_mem _ hx)
    exact ⟨fun hspans => ih.1 (hspans.of_pass (hc _)), fun hspans => .pass (hc _) (ih.2 hspans)⟩

/-- **A numeral ends at the first character that is no digit.** -/
theorem takeBracedParameter_numeral {rest : List Char}
    (hrest : ∀ c ∈ rest.head?, Text.isAsciiDigit c = false) :
    takeBracedParameter (name.toList ++ rest) = some (name.toList, rest) := by
  obtain ⟨c, digits, hlist⟩ := List.exists_cons_of_ne_nil h.ne_nil
  rw [hlist] at h ⊢
  have hc := h.of_mem c List.mem_cons_self
  have hdigits : ∀ x ∈ digits, Text.isAsciiDigit x = true :=
    fun x hx => h.of_mem x (List.mem_cons_of_mem _ hx)
  have hstop : rest.takeWhile Text.isAsciiDigit = [] ∧ rest.dropWhile Text.isAsciiDigit = rest := by
    cases rest with
    | nil => exact ⟨rfl, rfl⟩
    | cons x rest =>
      have hx := hrest x rfl
      exact ⟨List.takeWhile_cons_of_neg (by simp [hx]), List.dropWhile_cons_of_neg (by simp [hx])⟩
  rw [List.cons_append, takeBracedParameter, takeName, Text.isNameStart_of_isAsciiDigit hc,
    if_neg Bool.false_ne_true]
  dsimp only
  rw [if_pos hc, List.takeWhile_append_of_pos hdigits, List.dropWhile_append_of_pos hdigits,
    hstop.1, hstop.2, List.append_nil]

/-- What stands behind a numeral is the operation. -/
theorem bracedParameter_numeral_iff {l : Level} {rest : List Char} {part : Part}
    (hrest : ∀ c ∈ rest.head?, Text.isAsciiDigit c = false) :
    l.bracedParameter (name.toList ++ rest) = .ok part ↔
      rest = [] ∧ .parameter name none = part ∨
        ∃ op, l.parameterOp? rest = some (.ok op) ∧ .parameter name (some op) = part := by
  have htake := takeBracedParameter_numeral h hrest
  have hhash : (name.toList ++ rest).head? ≠ some '#' := by
    obtain ⟨c, digits, hlist⟩ := List.exists_cons_of_ne_nil h.ne_nil
    rw [hlist]
    rintro heq
    obtain rfl : c = '#' := Option.some.inj heq
    exact absurd (h.of_mem '#' (hlist ▸ List.mem_cons_self)) (by decide)
  unfold Level.bracedParameter
  dsimp only
  rw [htake]
  split
  · next measured hmeasured =>
    split at hmeasured
    · next heq => exact absurd (by rw [heq]; rfl) hhash
    · cases hmeasured
  · cases rest with
    | nil => simp [Level.parameterOp?]
    | cons c rest =>
      dsimp only
      rw [String.ofList_toList]
      rcases l.parameterOp? (c :: rest) with _ | op'
      · simp
      · cases op' <;> simp [Except.map]

end

namespace Word

section

variable {name : String} (h : Arith.IsRun Text.isAsciiDigit name.toList)
include h

theorem parse_numeral : parse (braced name) = .ok ⟨[.parameter name none], braced name⟩ := by
  have hspans := (spans_numeral_iff h []).2 (.nil _)
  have hpart := (bracedParameter_numeral_iff h (l := .ofDepth (maxNesting - 1)) (by simp)).2
    (.inl ⟨rfl, rfl⟩)
  rw [List.append_nil] at hspans hpart
  exact parse_braced_part_iff.2 ⟨hspans, hpart⟩

theorem parse_numeral_length : parse (braced ("#" ++ name)) =
    .ok ⟨[.parameter name (some .length)], braced ("#" ++ name)⟩ := by
  have hlist : ("#" ++ name).toList = '#' :: name.toList := by simp
  have hspans := (spans_numeral_iff h []).2 (.nil _)
  have htake : takeBracedParameter (name.toList ++ []) = some (name.toList, []) :=
    takeBracedParameter_numeral h (by simp)
  rw [List.append_nil] at hspans htake
  refine parse_braced_part_iff.2 ⟨?_, ?_⟩
  · rw [hlist]
    exact .pass rfl hspans
  · rw [hlist, Level.bracedParameter, htake]
    simp

/-- An operation is read as it would be behind any name. -/
theorem parse_numeral_op_iff {rest : String}
    (hrest : ∀ c ∈ rest.toList.head?, Text.isAsciiDigit c = false) {op : ParamOp} :
    parse (braced (name ++ rest)) =
        .ok ⟨[.parameter name (some op)], braced (name ++ rest)⟩ ↔
      Delimiter.Spans (some .brace) rest.toList ∧
        (Level.ofDepth (maxNesting - 1)).parameterOp? rest.toList = some (.ok op) := by
  rw [parse_braced_part_iff, String.toList_append, spans_numeral_iff h,
    bracedParameter_numeral_iff h hrest]
  simp

end

end Word

/-! ## How it is expanded -/

section

variable {name : String} (h : Arith.IsRun Text.isAsciiDigit name.toList)
include h

theorem Part.expand_numeral (x : Expander) (op : Option ParamOp) (quoted : Bool) (shell : Shell) :
    Part.expand x (.parameter name op) quoted shell =
      match shell.parameter? name with
      | .ok value => Part.seeing x name op quoted value shell
      | .error f => Run.fault f shell :=
  Part.expand_parameter x (ne_of_isRun h (by decide)) (ne_of_isRun h (by decide)) op quoted shell

theorem Part.expand_numeral_long (hmany : Text.maxDecimalDigits < name.length) (x : Expander)
    (op : Option ParamOp) (quoted : Bool) (shell : Shell) :
    Part.expand x (.parameter name op) quoted shell =
      Run.fault (.numeral (.tooManyDigits name.length)) shell := by
  have hzero : name ≠ "0" := by
    rintro rfl
    exact absurd hmany (by decide)
  rw [Part.expand_numeral h, Shell.parameter?_numeral h, if_neg hzero, if_pos hmany]

theorem Part.expand_numeral_zero (hfew : name.length ≤ Text.maxDecimalDigits)
    (hnumber : numberOf name = 0) (hzero : name ≠ "0") (x : Expander) (op : Option ParamOp)
    (quoted : Bool) (shell : Shell) :
    Part.expand x (.parameter name op) quoted shell =
      match shell.parameters.getLast? with
      | some last => Part.seeing x name op quoted (some last) shell
      | none => Run.fault .noParameter shell := by
  rw [Part.expand_numeral h, Shell.parameter?_numeral h, if_neg hzero, if_neg (Nat.not_lt.2 hfew),
    hnumber, positional?]
  cases shell.parameters.getLast? <;> rfl

theorem seesNumbered_of (hfew : name.length ≤ Text.maxDecimalDigits)
    (hzero : numberOf name = 0 → name = "0") : SeesNumbered name := by
  intro x op quoted shell
  rw [Part.expand_numeral h, Shell.parameter?_numeral h]
  by_cases hname : name = "0"
  · rw [if_pos hname, hname]
    rfl
  · obtain ⟨n, hn⟩ := Nat.exists_eq_succ_of_ne_zero (mt hzero hname)
    rw [if_neg hname, if_neg (Nat.not_lt.2 hfew), hn]
    rfl

end

/-- An expander that runs nothing. -/
def Expander.still : Expander := .ofSubstitute fun _ => Run.fault .noParameter

/-- A shell with some positional parameters. -/
def Shell.withParameters (parameters : List String) : Shell :=
  { Shell.start .bare "/" (.ofGlobals [] []) (.ofClock ⟨0, 0⟩) with parameters }

/-- A longer zero is not seen as the name of the script, nor is a numeral that is too long seen at
all. -/
theorem SeesNumbered.bounds {name : String} (hsees : SeesNumbered name)
    (h : Arith.IsRun Text.isAsciiDigit name.toList) :
    name.length ≤ Text.maxDecimalDigits ∧ (numberOf name = 0 → name = "0") := by
  have hvalue := congrArg Prod.fst (hsees .still none false (.withParameters ["a"]))
  rcases Nat.lt_or_ge Text.maxDecimalDigits name.length with hmany | hfew
  · rw [Part.expand_numeral_long h hmany] at hvalue
    cases hvalue
  refine ⟨hfew, fun hnumber => by_contra fun hzero => ?_⟩
  rw [Part.expand_numeral_zero h hfew hnumber hzero, hnumber] at hvalue
  have hsegments : [Segment.value false "a"] = [Segment.value false scriptName] :=
    Except.ok.inj hvalue
  exact absurd hsegments (by decide)

/-- **Parameters are selected by their number.** Between braces a numeral is the whole name,
however many digits it has: alone, behind the sign that asks for the length, and in front of every
operation that is read there. In every shell and with every operation it is expanded to the
parameter of its number, the name of the script for zero and nothing past the last parameter, if and
only if it does not have too many digits and is not a zero written with more than one. With too many
digits the expansion fails. A longer zero is expanded to the last parameter, and fails if there is
none. -/
theorem Word.numeral_selects {name : String} (h : Arith.IsRun Text.isAsciiDigit name.toList) :
    parse (braced name) = .ok ⟨[.parameter name none], braced name⟩ ∧
    parse (braced ("#" ++ name)) =
      .ok ⟨[.parameter name (some .length)], braced ("#" ++ name)⟩ ∧
    (∀ (rest : String) (op : ParamOp), (∀ c ∈ rest.toList.head?, Text.isAsciiDigit c = false) →
      (parse (braced (name ++ rest)) =
          .ok ⟨[.parameter name (some op)], braced (name ++ rest)⟩ ↔
        Delimiter.Spans (some .brace) rest.toList ∧
          (Level.ofDepth (maxNesting - 1)).parameterOp? rest.toList = some (.ok op))) ∧
    (SeesNumbered name ↔
      name.length ≤ Text.maxDecimalDigits ∧ (numberOf name = 0 → name = "0")) ∧
    ∀ (x : Expander) (op : Option ParamOp) (quoted : Bool) (shell : Shell),
      (Text.maxDecimalDigits < name.length →
        Part.expand x (.parameter name op) quoted shell =
          Run.fault (.numeral (.tooManyDigits name.length)) shell) ∧
      (name.length ≤ Text.maxDecimalDigits → numberOf name = 0 → name ≠ "0" →
        Part.expand x (.parameter name op) quoted shell =
          match shell.parameters.getLast? with
          | some last => Part.seeing x name op quoted (some last) shell
          | none => Run.fault .noParameter shell) :=
  ⟨parse_numeral h, parse_numeral_length h, fun _ _ hrest => parse_numeral_op_iff h hrest,
    ⟨fun hsees => hsees.bounds h, fun ⟨hfew, hzero⟩ => seesNumbered_of h hfew hzero⟩,
    fun x op quoted shell => ⟨fun hmany => Part.expand_numeral_long h hmany x op quoted shell,
      fun hfew hnumber hzero => Part.expand_numeral_zero h hfew hnumber hzero x op quoted shell⟩⟩

/-- A numeral with a zero in front. -/
theorem Word.numeral_selects_tenth : Arith.IsRun Text.isAsciiDigit "010".toList ∧
    numberOf "010" = 10 ∧ SeesNumbered "010" := by
  have hrun : Arith.IsRun Text.isAsciiDigit "010".toList :=
    ⟨by decide, List.all_eq_true.1 (by decide)⟩
  have hnumber : numberOf "010" = 10 := by decide
  exact ⟨hrun, hnumber, (Word.numeral_selects hrun).2.2.2.1.2
    ⟨show 3 ≤ 4300 by decide, fun hzero => absurd (hnumber.symm.trans hzero) (by decide)⟩⟩

/-- **A zero in two digits** is not the name of the script: it is the last parameter, and without
parameters a fault. -/
theorem Word.numeral_selects_last :
    parse (braced "00") = .ok ⟨[.parameter "00" none], braced "00"⟩ ∧ numberOf "00" = 0 ∧
      (Shell.withParameters ["a"]).numbered 0 = some "bash" ∧
      Part.expand .still (.parameter "00" none) false (.withParameters ["a"]) =
        (.ok [.value false "a"], .withParameters ["a"]) ∧
      Part.expand .still (.parameter "00" none) false (.withParameters []) =
        (.error (.fault .noParameter), .withParameters []) := by
  have hrun : Arith.IsRun Text.isAsciiDigit "00".toList :=
    ⟨by decide, List.all_eq_true.1 (by decide)⟩
  have hnumber : numberOf "00" = 0 := by decide
  have hexpand (shell : Shell) :=
    Part.expand_numeral_zero hrun (show 2 ≤ 4300 by decide) hnumber (by decide) .still none false
      shell
  exact ⟨parse_numeral hrun, hnumber, rfl, hexpand _, hexpand _⟩

end VirtualShell
