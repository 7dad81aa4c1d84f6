import VirtualShell.Text.Entity

/-!
# Operators that are put back

Which entities of a text are put back depends on a quote that may be open in front of them and on a
backslash that may stand there. A text is read with a state of these two; what follows it depends
on it only through the state it leaves, unless an entity reaches over its end. A line that is
changed holds an operator afterwards.

* `QuoteState.next` — what one character does to the state.
* **`unescapeEntities_append`** — the two parts of a text one after the other.
* `unescapeEntities_line` — the lines of a text one by one.
* `unescapeEntities_eq_or` — what is changed holds an operator.
* `unescapeEntities_eq_self` — a text without entities stays as it is.
-/

namespace VirtualShell.Text

/-! ## Quotes that are open -/

/-- **The state in which a text is read:** the quote that is open, if one is, and whether a
backslash protects the next character. -/
structure QuoteState where
  quote : Option Char
  escaped : Bool
  deriving DecidableEq, Repr

namespace QuoteState

/-- Nothing is open in front of a text. -/
def start : QuoteState := ⟨none, false⟩

/-- **One character.** -/
def next (s : QuoteState) (c : Char) : QuoteState :=
  if s.escaped then { s with escaped := false }
  else
    match s.quote with
    | none =>
      if c == '\\' then ⟨none, true⟩
      else ⟨if c == '\'' || c == '"' then some c else none, false⟩
    | some q =>
      if q == '"' && c == '\\' then ⟨some q, true⟩ else ⟨if c == q then none else some q, false⟩

/-- The state behind a text. -/
def after (s : QuoteState) (text : List Char) : QuoteState := text.foldl next s

@[simp] theorem after_nil (s : QuoteState) : s.after [] = s := rfl

@[simp] theorem after_cons (s : QuoteState) (c : Char) (text : List Char) :
    s.after (c :: text) = (s.next c).after text := rfl

@[simp] theorem after_append (s : QuoteState) (text rest : List Char) :
    s.after (text ++ rest) = (s.after text).after rest := List.foldl_append

/-- Putting operators back in a text that is read with a state. -/
def restore (s : QuoteState) (text : List Char) : List Char :=
  match s.escaped, text with
  | true, c :: rest => c :: unescapeEntities s.quote rest
  | true, [] => []
  | false, text => unescapeEntities s.quote text

end QuoteState

/-- The characters of entities behind the first. -/
def entityLetters : List Char := ['l', 't', 'g', 'a', 'm', 'p', ';']

/-- What stands in front of a character that is none of some characters, and is made of these
characters, does not reach over it. -/
theorem exists_eq_append_of_letters {letters text rest front after : List Char}
    (hfront : ∀ c ∈ front, c ∈ letters) (hrest : ∀ c ∈ rest.head?, c ∉ letters)
    (h : text ++ rest = front ++ after) : ∃ tail, text = front ++ tail := by
  rcases List.append_eq_append_iff.1 h with ⟨middle, rfl, hmiddle⟩ | ⟨middle, hmiddle, -⟩
  · cases middle with
    | nil => exact ⟨[], by simp⟩
    | cons c middle =>
      rw [hmiddle] at hrest
      exact absurd (hfront c (by simp)) (hrest c rfl)
  · exact ⟨middle, hmiddle⟩

/-- **Operators are put back part by part.** What follows a text is read with the state behind it,
unless it may be the end of an entity. -/
theorem unescapeEntities_append (quote : Option Char) (text : List Char) {rest : List Char}
    (hrest : ∀ c ∈ rest.head?, c ∉ entityLetters) :
    unescapeEntities quote (text ++ rest) =
      unescapeEntities quote text ++ (QuoteState.after ⟨quote, false⟩ text).restore rest := by
  fun_induction unescapeEntities quote text with
  | case1 quote => rfl
  | case2 c text ih | case7 c text ih =>
    simp only [List.cons_append, unescapeEntities, ih]
    rfl
  | case3 text ih | case4 text ih | case5 text ih =>
    simp only [List.cons_append, unescapeEntities, ih]
    rfl
  | case6 c text hescape hless hgreater hand ih =>
    by_cases hc : c = '\\'
    · -- a backslash at the end takes the next character along
      subst hc
      cases text with
      | cons x text => exact absurd rfl (hescape x text rfl)
      | nil => cases rest <;> simp [unescapeEntities, QuoteState.next, QuoteState.restore]
    · have hnext : QuoteState.next ⟨none, false⟩ c =
          ⟨if c == '\'' || c == '"' then some c else none, false⟩ := by
        simp [QuoteState.next, hc]
      have hentity (front : List Char) {tail : List Char} (hfront : ∀ c ∈ front, c ∈ entityLetters)
          (h : text ++ rest = front ++ tail) := exists_eq_append_of_letters hfront hrest h
      rw [QuoteState.after_cons, hnext, List.cons_append, unescapeEntities, ih, List.cons_append]
      · exact fun _ _ hx => absurd hx hc
      · intro tail hx htail
        obtain ⟨tail, htail⟩ := hentity ['l', 't', ';'] (by simp [entityLetters]) htail
        exact hless tail hx htail
      · intro tail hx htail
        obtain ⟨tail, htail⟩ := hentity ['g', 't', ';'] (by simp [entityLetters]) htail
        exact hgreater tail hx htail
      · intro tail hx htail
        obtain ⟨tail, htail⟩ := hentity ['a', 'm', 'p', ';'] (by simp [entityLetters]) htail
        exact hand tail hx htail
  | case8 q c text hescape ih =>
    by_cases hc : q = '"' ∧ c = '\\'
    · obtain ⟨rfl, rfl⟩ := hc
      cases text with
      | cons x text => exact absurd rfl (hescape x text rfl rfl)
      | nil => cases rest <;> simp [unescapeEntities, QuoteState.next, QuoteState.restore]
    · have hnext : QuoteState.next ⟨some q, false⟩ c =
          ⟨if c == q then none else some q, false⟩ := by
        simp only [QuoteState.next]
        simp_all
      rw [QuoteState.after_cons, hnext, List.cons_append, unescapeEntities, ih, List.cons_append]
      exact fun _ _ hq hx => absurd ⟨hq, hx⟩ hc

/-- **Operators are put back line by line.** What follows a line is read with the quote that is open
at its end. -/
theorem unescapeEntities_line (quote : Option Char) (line rest : List Char) :
    unescapeEntities quote (line ++ '\n' :: rest) =
      unescapeEntities quote line ++
        '\n' :: unescapeEntities ((QuoteState.after ⟨quote, false⟩ line).next '\n').quote rest := by
  rw [unescapeEntities_append quote line (by simp [entityLetters])]
  obtain ⟨quote', escaped⟩ := QuoteState.after ⟨quote, false⟩ line
  cases escaped <;> cases quote' <;> simp [QuoteState.restore, QuoteState.next, unescapeEntities]

/-- What is put back are operators: a text that is changed holds one. -/
theorem unescapeEntities_eq_or (quote : Option Char) (text : List Char) :
    unescapeEntities quote text = text ∨
      ∃ c ∈ unescapeEntities quote text, c = '<' ∨ c = '>' ∨ c = '&' := by
  fun_induction unescapeEntities quote text <;> simp_all <;> grind

theorem unescapeEntities_length_le (quote : Option Char) (text : List Char) :
    (unescapeEntities quote text).length ≤ text.length := by
  fun_induction unescapeEntities quote text <;> grind

theorem mem_of_mem_unescapeEntities {quote : Option Char} {text : List Char} {c : Char}
    (hc : c ∈ unescapeEntities quote text) : c ∈ text ∨ c = '<' ∨ c = '>' ∨ c = '&' := by
  fun_induction unescapeEntities quote text <;> grind

/-- A text in which no operator is written as an entity. -/
def HoldsNoEntity (text : List Char) : Prop :=
  ∀ entity ∈ ["&lt;", "&gt;", "&amp;"], ¬entity.toList <:+: text

theorem HoldsNoEntity.of_append (front : List Char) {rest : List Char}
    (h : HoldsNoEntity (front ++ rest)) : HoldsNoEntity rest :=
  fun entity hentity hwithin => h entity hentity (hwithin.trans (List.suffix_append _ _).isInfix)

theorem HoldsNoEntity.not_mem (entity : String) {rest : List Char}
    (h : HoldsNoEntity (entity.toList ++ rest)) : entity ∉ ["&lt;", "&gt;", "&amp;"] :=
  fun hentity => h entity hentity (List.prefix_append _ _).isInfix

/-- **A text without entities stays as it is.** -/
theorem unescapeEntities_eq_self (quote : Option Char) {text : List Char}
    (htext : HoldsNoEntity text) : unescapeEntities quote text = text := by
  fun_induction unescapeEntities quote text with
  | case1 => rfl
  | case2 c rest ih | case7 c rest ih => rw [ih (.of_append ['\\', c] htext)]
  | case3 rest => exact absurd (by simp) (HoldsNoEntity.not_mem "&lt;" htext)
  | case4 rest => exact absurd (by simp) (HoldsNoEntity.not_mem "&gt;" htext)
  | case5 rest => exact absurd (by simp) (HoldsNoEntity.not_mem "&amp;" htext)
  | case6 c rest _ _ _ _ ih | case8 _ c rest _ ih => rw [ih (.of_append [c] htext)]

end VirtualShell.Text
