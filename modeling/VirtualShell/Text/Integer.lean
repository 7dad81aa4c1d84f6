import VirtualShell.Text.Character
import VirtualShell.Text.Printable

/-!
# Reading integers

An integer is written with blanks around it, one optional sign, an optional radix mark (`0x` in
base sixteen, `0o` in base eight), and digits of the base, between which single underscores may
stand. Decimal digits of every script count. A decimal numeral of more than 4300 digits is refused
before its value is worked out.
-/

namespace VirtualShell.Text

/-- Why a text is not read as an integer. -/
inductive IntegerError where
  | malformed (base : Nat) (text : String)
  | tooManyDigits (count : Nat)
  deriving DecidableEq, Repr

/-- The most digits a decimal numeral may have. -/
def maxDecimalDigits : Nat := 4300

/-- The wording of a refused integer; a long text is cut after two hundred characters. -/
def IntegerError.message : IntegerError → String
  | .malformed base text =>
    "invalid literal for int() with base " ++ toString base ++ ": " ++
      String.ofList ((quoted text).toList.take 200)
  | .tooManyDigits count =>
    "Exceeds the limit (" ++ toString maxDecimalDigits ++
      " digits) for integer string conversion: value has " ++ toString count ++
      " digits; use sys.set_int_max_str_digits() to increase the limit"

/-- Blanks allowed around a numeral: all but the four information separators. -/
def isNumeralBlank (c : Char) : Bool :=
  isBlank c && !(28 ≤ c.toNat && c.toNat ≤ 31)

/-- The value of a digit in bases up to thirty-six. -/
def digitValue? (c : Char) : Option Nat :=
  if 'a' ≤ c && c ≤ 'z' then some (c.toNat - 87)
  else if 'A' ≤ c && c ≤ 'Z' then some (c.toNat - 55)
  else decimalValue? c

/-- **Digits with single underscores between them.** Gives the number of digits, their value and
the text after them; nothing when an underscore follows another, stands first or stands last.
`apart` tells that the last character was no digit. -/
def readDigits (base : Nat) (apart : Bool) (count value : Nat) :
    List Char → Option (Nat × Nat × List Char)
  | [] => if apart then none else some (count, value, [])
  | '_' :: rest => if apart then none else readDigits base true count value rest
  | c :: rest =>
    match digitValue? c with
    | some d =>
      if d < base then readDigits base false (count + 1) (value * base + d) rest
      else if apart then none else some (count, value, c :: rest)
    | none => if apart then none else some (count, value, c :: rest)

/-- The sign of a numeral and what follows it. -/
def readSign : List Char → Bool × List Char
  | '-' :: rest => (true, rest)
  | '+' :: rest => (false, rest)
  | text => (false, text)

/-- Drop the radix mark of the base, and one underscore after it. -/
def dropRadixMark (base : Nat) : List Char → List Char
  | '0' :: c :: rest =>
    if (base == 16 && (c == 'x' || c == 'X')) || (base == 8 && (c == 'o' || c == 'O')) then
      match rest with
      | '_' :: rest => rest
      | rest => rest
    else '0' :: c :: rest
  | text => text

/-- The integer that a text writes in a base. -/
def readInteger (base : Nat) (text : String) : Except IntegerError Int :=
  let (negative, body) := readSign (text.toList.dropWhile isNumeralBlank)
  match readDigits base true 0 0 (dropRadixMark base body) with
  | none => .error (.malformed base text)
  | some (count, value, rest) =>
    if base == 10 && count > maxDecimalDigits then .error (.tooManyDigits count)
    else if rest.all isNumeralBlank then .ok (if negative then -(value : Int) else value)
    else .error (.malformed base text)

/-- The integer that a text writes in base ten. -/
def readDecimal (text : String) : Except IntegerError Int :=
  readInteger 10 text

end VirtualShell.Text
