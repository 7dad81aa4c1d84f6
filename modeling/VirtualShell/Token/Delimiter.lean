/-!
# Delimiters and where they close

A script nests quotes, backticks, parentheses and braces. Which characters open or close a
delimiter depends only on the innermost one that is still open, so the end of a construct is found
in one pass over the text with a stack of open delimiters.

* `Delimiter.move` — what one character does inside the innermost open delimiter.
* `Delimiter.scan` — the pass over the text, up to a stop character outside of every delimiter.
* `Delimiter.close` — the text up to the end of a construct, and what follows it.
* **`Delimiter.scan_length_lt`** — a scan that does not stop at once consumes something.
* **`Delimiter.close_length_lt`** — closing a delimiter consumes at least the closing character.
-/

namespace VirtualShell

/-- What can be open around a character. -/
inductive Delimiter where
  | single
  | double
  | backtick
  | paren
  | brace
  deriving DecidableEq, Repr

namespace Delimiter

/-- What the next character does. -/
inductive Move where
  /-- It is ordinary. -/
  | pass
  /-- It takes the character after it along, whatever that is. -/
  | escape
  /-- It opens a delimiter. -/
  | enter (d : Delimiter)
  /-- Together with the character after it, it opens a delimiter. -/
  | enterPair (d : Delimiter)
  /-- It closes the innermost delimiter. -/
  | leave
  deriving DecidableEq, Repr

/-- **One character in context.** Inside single quotes only the quote counts. Elsewhere a backslash
escapes, and what opens a delimiter depends on the context: an opening parenthesis or brace nests
only inside its own kind, and a dollar sign makes one of them open a substitution. -/
def move (context : Option Delimiter) (c : Char) (next : Option Char) : Move :=
  match context, c with
  | some .single, '\'' => .leave
  | some .single, _ => .pass
  | _, '\\' => .escape
  | some .backtick, '`' => .leave
  | some .backtick, _ => .pass
  | some .double, '"' => .leave
  | some .double, '\'' => .pass
  | some .brace, '`' => .pass
  | _, '\'' => .enter .single
  | _, '"' => .enter .double
  | _, '`' => .enter .backtick
  | some .paren, '(' => .enter .paren
  | some .paren, ')' => .leave
  | some .paren, _ => .pass
  | some .brace, '{' => .enter .brace
  | some .brace, '}' => .leave
  | some .brace, '$' => if next == some '(' then .enterPair .paren else .pass
  | _, '$' =>
    if next == some '(' then .enterPair .paren
    else if next == some '{' then .enterPair .brace
    else .pass
  | _, _ => .pass

/-- **The scan.** Reads up to a character that `stop` names and that stands outside of every
delimiter, or to the end of the text. Gives the characters read, last first, and the rest; a text
that ends inside a delimiter gives the innermost one. -/
def scan (stop : Char → Bool) :
    List Delimiter → List Char → List Char → Except Delimiter (List Char × List Char)
  | [], read, [] => .ok (read, [])
  | d :: _, _, [] => .error d
  | stack, read, c :: rest =>
    if stack.isEmpty && stop c then .ok (read, c :: rest)
    else
      match move stack.head? c rest.head? with
      | .pass => scan stop stack (c :: read) rest
      | .enter d => scan stop (d :: stack) (c :: read) rest
      | .leave => scan stop stack.tail (c :: read) rest
      | .escape =>
        match rest with
        | x :: rest => scan stop stack (x :: c :: read) rest
        | [] => scan stop stack (c :: read) []
      | .enterPair d =>
        match rest with
        | x :: rest => scan stop (d :: stack) (x :: c :: read) rest
        | [] => scan stop (d :: stack) (c :: read) []

/-- **The end of a construct.** Given the text after an opening delimiter, the text inside it and
the text after its closing character. -/
def close (d : Delimiter) (text : List Char) : Except Delimiter (List Char × List Char) :=
  match scan (fun _ => true) [d] [] text with
  | .ok (read, rest) => .ok (read.tail.reverse, rest)
  | .error inner => .error inner

/-! ## Progress -/

theorem scan_length_le {stop : Char → Bool} {stack : List Delimiter} {read text : List Char}
    {read' rest : List Char} (h : scan stop stack read text = .ok (read', rest)) :
    rest.length ≤ text.length := by
  fun_induction scan stop stack read text <;> grind

/-- A scan that does not stop at its first character consumes that character. -/
theorem scan_length_lt {stop : Char → Bool} {stack : List Delimiter} {read text : List Char}
    {c : Char} {read' rest : List Char}
    (h : scan stop stack read (c :: text) = .ok (read', rest))
    (hc : (stack.isEmpty && stop c) = false) : rest.length < (c :: text).length := by
  rw [scan.eq_def] at h
  simp only [hc] at h
  grind [→ scan_length_le]

/-- Closing a delimiter consumes at least its closing character. -/
theorem close_length_lt {d : Delimiter} {text inner rest : List Char}
    (h : close d text = .ok (inner, rest)) : rest.length < text.length := by
  unfold close at h
  split at h
  · next read r hs =>
    cases text with
    | nil => simp [scan] at hs
    | cons c text =>
      have := scan_length_lt hs (by simp)
      grind
  · simp at h

end Delimiter

end VirtualShell
