/-!
# Reading bytes as UTF-8

Well-formed sequences are decoded; each maximal part of a sequence that cannot be completed becomes
one replacement character, so that no byte is dropped in silence.
-/

namespace VirtualShell.Text

/-- The replacement character. -/
def replacement : Char := Char.ofNat 0xFFFD

/-- A continuation byte. -/
def isContinuation (b : Nat) : Bool :=
  0x80 ≤ b && b ≤ 0xBF

/-- The second bytes that may follow a lead byte: the shortest form is required, surrogates and
code points past the last plane are left out. -/
def isSecondByte (lead b : Nat) : Bool :=
  isContinuation b &&
    (lead != 0xE0 || 0xA0 ≤ b) && (lead != 0xED || b ≤ 0x9F) &&
    (lead != 0xF0 || 0x90 ≤ b) && (lead != 0xF4 || b ≤ 0x8F)

/-- How many continuation bytes a lead byte calls for. -/
def continuationCount (lead : Nat) : Nat :=
  if 0xC2 ≤ lead && lead ≤ 0xDF then 1
  else if 0xE0 ≤ lead && lead ≤ 0xEF then 2
  else if 0xF0 ≤ lead && lead ≤ 0xF4 then 3
  else 0

/-- **Decoding state by state.** `pending` counts the continuation bytes still due, `lead` is the
lead byte while its second byte is due and zero afterwards, and `code` holds the bits read so far. -/
def decodeFrom (pending lead code : Nat) : List Nat → List Char
  | [] => if pending == 0 then [] else [replacement]
  | b :: rest =>
    if pending != 0 && (if lead == 0 then isContinuation b else isSecondByte lead b) then
      let code := code * 64 + (b - 0x80)
      if pending == 1 then Char.ofNat code :: decodeFrom 0 0 0 rest
      else decodeFrom (pending - 1) 0 code rest
    else
      let decoded : List Char :=
        if b < 0x80 then Char.ofNat b :: decodeFrom 0 0 0 rest
        else
          match continuationCount b with
          | 0 => replacement :: decodeFrom 0 0 0 rest
          | 1 => decodeFrom 1 b (b - 0xC0) rest
          | 2 => decodeFrom 2 b (b - 0xE0) rest
          | n => decodeFrom n b (b - 0xF0) rest
      if pending == 0 then decoded else replacement :: decoded

/-- Bytes as text. -/
def decodeUtf8 (bytes : List Nat) : String :=
  String.ofList (decodeFrom 0 0 0 bytes)

end VirtualShell.Text
