/-!
# Classes of characters

A character property is a list of closed ranges of code points in increasing order. Membership
asks for a range around the code point, so a table says what the standard's data file says and
nothing about how it is searched. The tables of digits and of blanks are short; letters, cases and
printable characters have modules of their own.
-/

namespace VirtualShell.Text

/-! ## Tables of character ranges -/

/-- Closed ranges of code points. -/
abbrev Ranges := List (Nat × Nat)

/-- **Membership in a table.** A code point belongs to a table when one of its ranges holds it. -/
def Ranges.holds (table : Ranges) (code : Nat) : Bool :=
  table.any fun r => r.1 ≤ code && code ≤ r.2

theorem Ranges.holds_iff (table : Ranges) (code : Nat) :
    table.holds code = true ↔ ∃ r ∈ table, r.1 ≤ code ∧ code ≤ r.2 := by
  simp [Ranges.holds]

/-! ## Digits

Decimal digits are the characters of general category Nd; they come in blocks of ten whose first
member has the value zero. A digit in the wider sense is also a superscript, a circled number or
another character with a digit value, which reads as a digit and yet has no place in a numeral. -/

/-- The decimal digits of all scripts, in runs of whole blocks of ten. -/
def decimalRanges : Ranges := [
  (48, 57), (1632, 1641), (1776, 1785), (1984, 1993), (2406, 2415), (2534, 2543), (2662, 2671),
  (2790, 2799), (2918, 2927), (3046, 3055), (3174, 3183), (3302, 3311), (3430, 3439),
  (3558, 3567), (3664, 3673), (3792, 3801), (3872, 3881), (4160, 4169), (4240, 4249),
  (6112, 6121), (6160, 6169), (6470, 6479), (6608, 6617), (6784, 6793), (6800, 6809),
  (6992, 7001), (7088, 7097), (7232, 7241), (7248, 7257), (42528, 42537), (43216, 43225),
  (43264, 43273), (43472, 43481), (43504, 43513), (43600, 43609), (44016, 44025), (65296, 65305),
  (66720, 66729), (68912, 68921), (69734, 69743), (69872, 69881), (69942, 69951), (70096, 70105),
  (70384, 70393), (70736, 70745), (70864, 70873), (71248, 71257), (71360, 71369), (71472, 71481),
  (71904, 71913), (72016, 72025), (72784, 72793), (73040, 73049), (73120, 73129), (92768, 92777),
  (92864, 92873), (93008, 93017), (120782, 120831), (123200, 123209), (123632, 123641),
  (125264, 125273), (130032, 130041)]

/-- Characters with a digit value that are no decimal digits. -/
def digitLikeRanges : Ranges := [
  (178, 179), (185, 185), (4969, 4977), (6618, 6618), (8304, 8304), (8308, 8313), (8320, 8329),
  (9312, 9320), (9332, 9340), (9352, 9360), (9450, 9450), (9461, 9469), (9471, 9471),
  (10102, 10110), (10112, 10120), (10122, 10130), (68160, 68163), (69216, 69224), (69714, 69722),
  (127232, 127242)]

/-- The value of a decimal digit of any script. -/
def decimalValue? (c : Char) : Option Nat :=
  (decimalRanges.find? fun r => r.1 ≤ c.toNat && c.toNat ≤ r.2).map fun r => (c.toNat - r.1) % 10

/-- Decimal digit of any script. -/
def isDecimal (c : Char) : Bool :=
  decimalRanges.holds c.toNat

/-- Digit in the wider sense: decimal, superscript, circled and the like. -/
def isDigit (c : Char) : Bool :=
  isDecimal c || digitLikeRanges.holds c.toNat

/-- **Numerals by appearance.** A text looks like a number when it is a non-empty run of digits. -/
def allDigits (text : String) : Bool :=
  !text.isEmpty && text.toList.all isDigit

/-- The ten ASCII digits. -/
def isAsciiDigit (c : Char) : Bool :=
  '0' ≤ c && c ≤ '9'

/-! ## Blanks and line ends

Two classes: the characters that separate words of a text, and those that end its lines. -/

/-- White space: ASCII blanks and controls, the information separators, and the Unicode spaces. -/
def blankRanges : Ranges := [
  (9, 13), (28, 32), (133, 133), (160, 160), (5760, 5760), (8192, 8202), (8232, 8233),
  (8239, 8239), (8287, 8287), (12288, 12288)]

/-- Separates words. -/
def isBlank (c : Char) : Bool :=
  blankRanges.holds c.toNat

/-- Ends a line: line feed, vertical tab, form feed, carriage return, the file, group and record
separators, next line, and the line and paragraph separators. -/
def isLineEnd (c : Char) : Bool :=
  let n := c.toNat
  (10 ≤ n && n ≤ 13) || (28 ≤ n && n ≤ 30) || n == 133 || n == 8232 || n == 8233

/-- Drop the blanks at both ends. -/
def strip (text : List Char) : List Char :=
  ((text.dropWhile isBlank).reverse.dropWhile isBlank).reverse

/-- Drop the blanks at both ends of a string. -/
def stripBlanks (text : String) : String :=
  String.ofList (strip text.toList)

/-- Split at runs of blanks; no word is empty. `word` holds the current word backwards. -/
def wordsFrom (word : List Char) : List Char → List (List Char)
  | [] => if word.isEmpty then [] else [word.reverse]
  | c :: rest =>
    if isBlank c then
      if word.isEmpty then wordsFrom [] rest else word.reverse :: wordsFrom [] rest
    else wordsFrom (c :: word) rest

/-- The words of a text, in order. -/
def words (text : String) : List String :=
  (wordsFrom [] text.toList).map String.ofList

/-- Lines with the characters that end them; a carriage return and a line feed after it are one
end. `line` holds the current line backwards. -/
def linesFrom (line : List Char) : List Char → List (List Char × List Char)
  | [] => if line.isEmpty then [] else [(line.reverse, [])]
  | '\r' :: '\n' :: rest => (line.reverse, ['\r', '\n']) :: linesFrom [] rest
  | c :: rest =>
    if isLineEnd c then (line.reverse, [c]) :: linesFrom [] rest
    else linesFrom (c :: line) rest

/-- The lines of a text without their ends. -/
def lines (text : String) : List String :=
  (linesFrom [] text.toList).map fun l => String.ofList l.1

/-- The lines of a text, each with its end; together they are the text. -/
def linesWithEnds (text : String) : List String :=
  (linesFrom [] text.toList).map fun l => String.ofList (l.1 ++ l.2)

end VirtualShell.Text
