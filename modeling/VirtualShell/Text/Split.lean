/-!
# Cutting a text at a character

The pieces of a text between the occurrences of a character. There is one piece more than there
are occurrences, and joined by the character they are the text again.
-/

namespace VirtualShell.Text

/-- The pieces of a text between the occurrences of a character. -/
def cut (separator : Char) : List Char → List (List Char)
  | [] => [[]]
  | c :: rest =>
    if c = separator then [] :: cut separator rest
    else
      match cut separator rest with
      | [] => [[c]]
      | piece :: pieces => (c :: piece) :: pieces

/-- The pieces of a string. -/
def cutAt (separator : Char) (text : String) : List String :=
  (cut separator text.toList).map String.ofList

theorem cut_ne_nil (separator : Char) (text : List Char) : cut separator text ≠ [] := by
  cases text with
  | nil => simp [cut]
  | cons c rest =>
    rw [cut]
    split
    · simp
    · split <;> simp

/-- **Nothing is lost.** The pieces joined by the character are the text. -/
theorem intercalate_cut (separator : Char) (text : List Char) :
    [separator].intercalate (cut separator text) = text := by
  induction text with
  | nil => rfl
  | cons c rest ih =>
    cases hr : cut separator rest with
    | nil => exact absurd hr (cut_ne_nil separator rest)
    | cons p ps =>
      rw [hr] at ih
      by_cases h : c = separator
      · simpa [cut, h, hr, List.intercalate] using ih
      · cases ps with
        | nil => simpa [cut, h, hr, List.intercalate] using ih
        | cons q qs => simpa [cut, h, hr, List.intercalate] using ih

end VirtualShell.Text
