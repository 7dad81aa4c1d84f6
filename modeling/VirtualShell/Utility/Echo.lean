import VirtualShell.Utility.Basic

/-!
# Writing arguments

`echo` writes its arguments with spaces between them and a line feed after them. The letters of its
options keep the line feed away and turn backslash escapes on or off; a word with any other letter is
text already.
-/

namespace VirtualShell.Utility.Echo

/-- How the arguments are written. -/
structure Settings where
  newline : Bool
  escapes : Bool

/-- A word made of option letters. -/
def isOptionWord (word : String) : Bool :=
  match word.toList with
  | '-' :: c :: rest => (c :: rest).all fun c => c == 'n' || c == 'e' || c == 'E'
  | _ => false

/-- The settings after an option letter. -/
def Settings.letter (s : Settings) (c : Char) : Settings :=
  if c = 'n' then { s with newline := false } else { s with escapes := c = 'e' }

/-- The settings that the first arguments make, and the other arguments. -/
def readSettings (s : Settings) : List String → Settings × List String
  | [] => (s, [])
  | word :: rest =>
    if isOptionWord word then readSettings ((word.toList.drop 1).foldl Settings.letter s) rest
    else (s, word :: rest)

/-- The character that a letter stands for after a backslash. -/
def control? : Char → Option Char
  | '\\' => some '\\'
  | 'a' => some '\x07'
  | 'b' => some '\x08'
  | 'e' => some '\x1b'
  | 'f' => some '\x0c'
  | 'n' => some '\n'
  | 'r' => some '\r'
  | 't' => some '\t'
  | 'v' => some '\x0b'
  | _ => none

/-- The value of a digit. -/
def digit? (base : Nat) (c : Char) : Option Nat :=
  let value :=
    if '0' ≤ c && c ≤ '9' then c.toNat - 48
    else if 'a' ≤ c && c ≤ 'f' then c.toNat - 87
    else if 'A' ≤ c && c ≤ 'F' then c.toNat - 55
    else base
  if value < base then some value else none

/-- The values of at most some digits at the front of a text, and what follows them. -/
def takeDigits (base : Nat) : Nat → List Char → List Nat × List Char
  | n + 1, c :: rest =>
    match digit? base c with
    | some d =>
      let (digits, rest) := takeDigits base n rest
      (d :: digits, rest)
    | none => ([], c :: rest)
  | _, text => ([], text)

theorem length_takeDigits (base n : Nat) (text : List Char) :
    (takeDigits base n text).2.length ≤ text.length := by
  fun_induction takeDigits base n text with
  | case1 n c rest d hd digits rest' h ih =>
    simp only [h] at ih
    simpa using Nat.le_succ_of_le ih
  | case2 => simp
  | case3 => simp

/-- The character whose code some digits write, or another text when there are none. -/
def coded (base : Nat) (digits : List Nat) (otherwise : List Char) : List Char :=
  if digits.isEmpty then otherwise
  else [Char.ofNat (digits.foldl (fun n d => n * base + d) 0)]

/-- What the character after a backslash and the text after it stand for, and what is left of that
text. Nothing when the text ends here. -/
def escape? (c : Char) (rest : List Char) : Option (List Char × List Char) :=
  match control? c with
  | some written => some ([written], rest)
  | none =>
    match c with
    | 'c' => none
    | '0' =>
      let (digits, rest) := takeDigits 8 3 rest
      some (coded 8 digits ['\x00'], rest)
    | 'x' =>
      let (digits, rest) := takeDigits 16 2 rest
      some (coded 16 digits ['\\', 'x'], rest)
    | c => some (['\\', c], rest)

theorem length_escape? {c : Char} {rest written after : List Char}
    (h : escape? c rest = some (written, after)) : after.length ≤ rest.length := by
  unfold escape? at h
  have octal := length_takeDigits 8 3 rest
  have hexadecimal := length_takeDigits 16 2 rest
  grind

/-- **The text without its escapes**, and whether an escape ended it early. -/
def unescape : List Char → List Char × Bool
  | [] => ([], false)
  | ['\\'] => (['\\'], false)
  | '\\' :: c :: rest =>
    match _h : escape? c rest with
    | none => ([], true)
    | some (written, after) =>
      let (more, ended) := unescape after
      (written ++ more, ended)
  | c :: rest =>
    let (more, ended) := unescape rest
    (c :: more, ended)
termination_by text => text.length
decreasing_by
  · have := length_escape? (by assumption)
    simp only [List.length_cons]
    omega
  · simp

/-- **`echo`** -/
def run : Utility := fun call =>
  let (s, words) := readSettings ⟨true, false⟩ call.arguments
  let text := " ".intercalate words
  let (text, ended) :=
    if s.escapes then
      let (written, ended) := unescape text.toList
      (String.ofList written, ended)
    else (text, false)
  return .ofText (if s.newline && !ended then text ++ "\n" else text)

end VirtualShell.Utility.Echo
