import VirtualShell.Proofs.Condition.Shape

/-!
# How conditions are written

A condition is written with operands in their places and operators between them. What it is read as
does not depend on the operands, apart from some places in which a text that is spelled like an
operator is taken for one.

* `Layout` — a condition with something in the places of its operands.
* `Layout.IsClear` — no operand is taken for an operator.
* `Reads` — words that are read as a tree in front of others, with one lemma for each way to write
  a condition.
* `Layout.reads` — clear conditions are read as they are written, whatever can follow them.
* **`Layout.parse_operands`** — so they have the shape that is written.
-/

namespace VirtualShell.Condition

/-- How tightly a condition is held together. -/
inductive Tier where
  | test
  | and
  | or

/-- **A written condition** with something in the places of its operands. -/
inductive Layout (α : Type) : Tier → Type where
  | text (operand : α) : Layout α .test
  | unary (op : UnaryOp) (operand : α) : Layout α .test
  | binary (left : α) (op : BinaryOp) (right : α) : Layout α .test
  | not (negated : Layout α .test) : Layout α .test
  | group (inner : Layout α .or) : Layout α .test
  | test (only : Layout α .test) : Layout α .and
  | and (left : Layout α .and) (right : Layout α .test) : Layout α .and
  | conjunction (only : Layout α .and) : Layout α .or
  | or (left : Layout α .or) (right : Layout α .and) : Layout α .or

/-- An operand that is written as it stands. -/
def Operand.ofLiteral (text : String) : Operand := ⟨text, some text⟩

namespace Layout

variable {α β : Type} {t : Tier}

/-- Its words, with the operators written in some way. -/
def words (literal : String → α) : {t : Tier} → Layout α t → List α
  | _, text operand => [operand]
  | _, unary op operand => [literal op.spelling, operand]
  | _, binary left op right => [left, literal op.spelling, right]
  | _, not e => literal "!" :: e.words literal
  | _, group e => literal "(" :: (e.words literal ++ [literal ")"])
  | _, test e => e.words literal
  | _, and left right => left.words literal ++ literal "&&" :: right.words literal
  | _, conjunction e => e.words literal
  | _, or left right => left.words literal ++ literal "||" :: right.words literal

/-- Something is put in the places of its operands, in their order. -/
def mapM {m : Type → Type} [Monad m] (f : α → m β) : {t : Tier} → Layout α t → m (Layout β t)
  | _, text operand => return text (← f operand)
  | _, unary op operand => return unary op (← f operand)
  | _, binary left op right => do
    let left ← f left
    return binary left op (← f right)
  | _, not e => return not (← e.mapM f)
  | _, group e => return group (← e.mapM f)
  | _, test e => return test (← e.mapM f)
  | _, and left right => do
    let left ← left.mapM f
    return and left (← right.mapM f)
  | _, conjunction e => return conjunction (← e.mapM f)
  | _, or left right => do
    let left ← left.mapM f
    return or left (← right.mapM f)

/-- **Its shape.** -/
def shape : {t : Tier} → Layout α t → Expr
  | _, text _ => .text ""
  | _, unary op _ => .unary op ""
  | _, binary _ op _ => .binary op "" "" none
  | _, not e => .not e.shape
  | _, group e => .group e.shape
  | _, test e => e.shape
  | _, and left right => .and left.shape right.shape
  | _, conjunction e => e.shape
  | _, or left right => .or left.shape right.shape

/-- The condition that it is. -/
def expr : {t : Tier} → Layout Operand t → Expr
  | _, text operand => .text operand.text
  | _, unary op operand => .unary op operand.text
  | _, binary left op right =>
    .binary op left.text right.text (if op.takesPattern then right.pattern else none)
  | _, not e => .not e.expr
  | _, group e => .group e.expr
  | _, test e => e.expr
  | _, and left right => .and left.expr right.expr
  | _, conjunction e => e.expr
  | _, or left right => .or left.expr right.expr

theorem shape_expr (e : Layout Operand t) : e.expr.shape = e.shape := by
  induction e with
  | text | unary | binary => rfl
  | not _ ih => exact congrArg Expr.not ih
  | group _ ih => exact congrArg Expr.group ih
  | test _ ih | conjunction _ ih => exact ih
  | and _ _ ihl ihr => exact congrArg₂ Expr.and ihl ihr
  | or _ _ ihl ihr => exact congrArg₂ Expr.or ihl ihr

/-- The words of a condition are put in their places one after another. -/
theorem mapM_words {m : Type → Type} [Monad m] [LawfulMonad m] {f : α → m β}
    {literal : String → α} {literal' : String → β} (h : ∀ s, f (literal s) = pure (literal' s))
    (e : Layout α t) : (e.words literal).mapM f = words literal' <$> e.mapM f := by
  induction e with
  | text | unary | binary => simp [words, mapM, h]
  | not _ ih | group _ ih | test _ ih | conjunction _ ih => simp [words, mapM, h, ih]
  | and _ _ ihl ihr | or _ _ ihl ihr => simp [words, mapM, h, ihl, ihr]

/-! ## Operands that are taken for what they are -/

/-- Its words, when the operands are known. -/
def operands (e : Layout Operand t) : List Operand := e.words .ofLiteral

/-- Its first word is spelled like an operator between operands. -/
def StartsBinary (e : Layout Operand t) : Prop :=
  ∃ first ∈ e.operands.head?, (BinaryOp.ofSpelling? first.text).isSome = true

/-- **No operand is taken for an operator** when so many words follow. A text is none that asks for an
operand. Before other words it is no exclamation mark or parenthesis, and neither is the left operand
of a test an exclamation mark. The operand of a test of one operand is none that stands between two
words, and neither is the first word in parentheses, nor a text that is negated at their end. -/
def IsClear : {t : Tier} → (after : Nat) → Layout Operand t → Prop
  | _, after, text operand => UnaryOp.ofSpelling? operand.text = none ∧
    (0 < after → operand.text ≠ "!" ∧ operand.text ≠ "(")
  | _, after, unary _ operand => 0 < after → BinaryOp.ofSpelling? operand.text = none
  | _, after, binary left _ _ => 0 < after → left.text ≠ "!"
  | _, after, not e => e.IsClear after ∧ (e.operands.length + after = 2 → ¬ e.StartsBinary)
  | _, after, group e => e.IsClear (after + 1) ∧ ¬ e.StartsBinary
  | _, after, test e => e.IsClear after
  | _, after, and left right =>
    left.IsClear (right.operands.length + 1 + after) ∧ right.IsClear after
  | _, after, conjunction e => e.IsClear after
  | _, after, or left right =>
    left.IsClear (right.operands.length + 1 + after) ∧ right.IsClear after

instance (e : Layout Operand t) : Decidable e.StartsBinary :=
  inferInstanceAs (Decidable (∃ first ∈ e.operands.head?,
    (BinaryOp.ofSpelling? first.text).isSome = true))

/-- Whether a condition is clear can be computed. -/
def decideIsClear : {t : Tier} → (e : Layout Operand t) → (after : Nat) → Decidable (e.IsClear after)
  | _, text operand, after => inferInstanceAs (Decidable (UnaryOp.ofSpelling? operand.text = none ∧
    (0 < after → operand.text ≠ "!" ∧ operand.text ≠ "(")))
  | _, unary _ operand, after =>
    inferInstanceAs (Decidable (0 < after → BinaryOp.ofSpelling? operand.text = none))
  | _, binary left _ _, after => inferInstanceAs (Decidable (0 < after → left.text ≠ "!"))
  | _, not e, after =>
    have := e.decideIsClear after
    inferInstanceAs (Decidable (_ ∧ (e.operands.length + after = 2 → ¬ e.StartsBinary)))
  | _, group e, after =>
    have := e.decideIsClear (after + 1)
    inferInstanceAs (Decidable (_ ∧ ¬ e.StartsBinary))
  | _, test e, after => e.decideIsClear after
  | _, and left right, after =>
    have := left.decideIsClear (right.operands.length + 1 + after)
    have := right.decideIsClear after
    inferInstanceAs (Decidable (_ ∧ _))
  | _, conjunction e, after => e.decideIsClear after
  | _, or left right, after =>
    have := left.decideIsClear (right.operands.length + 1 + after)
    have := right.decideIsClear after
    inferInstanceAs (Decidable (_ ∧ _))

instance (e : Layout Operand t) (after : Nat) : Decidable (e.IsClear after) := e.decideIsClear after

theorem operands_ne_nil (e : Layout Operand t) : e.operands ≠ [] := by
  unfold operands
  induction e with
  | text | unary | binary | not | group => simp [words]
  | test _ ih | conjunction _ ih => exact ih
  | and | or => simp [words]

end Layout

/-! ## Single tests -/

theorem UnaryOp.ofSpelling?_spelling (op : UnaryOp) : ofSpelling? op.spelling = some op := by
  cases op <;> rfl

theorem BinaryOp.ofSpelling?_spelling (op : BinaryOp) : ofSpelling? op.spelling = some op := by
  cases op with
  | number comparison => cases comparison <;> rfl
  | _ => rfl

section

variable {form : Form} {first : Operand} {later : List Operand}

/-- What does not start with a negation is a test. -/
theorem readNot_eq_readTest
    (h : first.text = "!" → later = [] ∨ negates (first :: later) = false) :
    readNot form (first :: later) = readTest form (first :: later) := by
  cases later with
  | nil =>
    rw [readNot]
    simp
  | cons next later =>
    rw [readNot]
    refine if_neg fun hnegates => ?_
    obtain ⟨hfirst, hnegates⟩ := Bool.and_eq_true_iff.1 hnegates
    have hno := (h (of_decide_eq_true hfirst)).resolve_left (List.cons_ne_nil _ _)
    rw [hno] at hnegates
    cases hnegates

/-- What is no test of two operands is no longer one when its right operand is missing. -/
theorem readTest_eq_readSimple (hbinary : binary? (first :: later) = none)
    (hlacks : lacksRight (first :: later) = false) (hopen : first.text = "(" → later = []) :
    readTest form (first :: later) = readSimple form first later := by
  rw [readTest.eq_def]
  dsimp only
  rw [hbinary, hlacks]
  dsimp only
  rw [if_neg (by simp), if_neg]
  intro hgroup
  obtain ⟨hfirst, hlater⟩ := Bool.and_eq_true_iff.1 hgroup
  rw [hopen (of_decide_eq_true hfirst)] at hlater
  cases hlater

theorem binary?_eq_none (h : ∀ op ∈ later.head?, BinaryOp.ofSpelling? op.text = none) :
    binary? (first :: later) = none := by
  rcases later with _ | ⟨op, _ | ⟨right, later⟩⟩
  · rfl
  · rfl
  · rw [binary?, h op rfl]
    rfl

theorem lacksRight_eq_false (h : ∀ op ∈ later.head?, BinaryOp.ofSpelling? op.text = none) :
    lacksRight (first :: later) = false := by
  cases later with
  | nil => rfl
  | cons op later => simp [lacksRight, h op rfl]

end

/-! ## Pieces of conditions -/

theorem length_lt_of_ne_nil {words : List Operand} (h : words ≠ []) (rest : List Operand) :
    rest.length < (words ++ rest).length := by
  have hpos := List.length_pos_iff.2 h
  rw [List.length_append]
  omega

/-- The words that can follow. -/
def Tier.follows (form : Form) : Tier → List String
  | .test | .and => [form.and, form.or, ")"]
  | .or => [form.or, ")"]

/-- What stands behind a condition does not go on with it. -/
def Tier.EndsBefore (form : Form) (t : Tier) (rest : List Operand) : Prop :=
  ∀ w ∈ rest.head?, w.text ∈ t.follows form

section

variable {form : Form} {rest : List Operand}

theorem Tier.EndsBefore.ofSpelling? {t : Tier} (h : t.EndsBefore form rest) :
    ∀ op ∈ rest.head?, BinaryOp.ofSpelling? op.text = none := by
  have hnone : ∀ text ∈ t.follows form, BinaryOp.ofSpelling? text = none := by
    cases form <;> cases t <;> decide
  exact fun op hop => hnone _ (h op hop)

/-- What can follow a looser condition can follow a tighter one. -/
theorem Tier.EndsBefore.tighten (h : Tier.or.EndsBefore form rest) :
    Tier.and.EndsBefore form rest :=
  fun w hw => List.mem_cons_of_mem _ (h w hw)

/-- **What is read** in front of other words: a test, or as much as the loop over what is joined has
read then. -/
def Reads (form : Form) (e : Expr) (words rest : List Operand) : Tier → Prop
  | .test => ∃ hlt, readNot form (words ++ rest) = .ok (e, ⟨rest, hlt⟩)
  | .and => ∃ hlt, readAnd form (words ++ rest) = readAndFrom form e ⟨rest, hlt⟩
  | .or => ∃ hlt, readOr form (words ++ rest) = readOrFrom form e ⟨rest, hlt⟩

namespace Reads

/-- A text. In the arguments of a command the last one may be spelled like a test of one operand. -/
theorem text (operand : Operand)
    (hunary : UnaryOp.ofSpelling? operand.text = none ∨ form = .command ∧ rest = [])
    (hbefore : rest ≠ [] → operand.text ≠ "!" ∧ operand.text ≠ "(")
    (hrest : Tier.test.EndsBefore form rest) :
    Reads form (.text operand.text) [operand] rest .test := by
  have hlast (hno : operand.text = "!" ∨ operand.text = "(") : rest = [] := by
    by_contra hne
    have hpair := hbefore hne
    rcases hno with hno | hno
    · exact hpair.1 hno
    · exact hpair.2 hno
  refine ⟨Nat.lt_succ_self _, ?_⟩
  change readNot form (operand :: rest) = _
  rw [readNot_eq_readTest fun hno => .inl (hlast (.inl hno)),
    readTest_eq_readSimple (binary?_eq_none hrest.ofSpelling?)
      (lacksRight_eq_false hrest.ofSpelling?) fun hno => hlast (.inr hno), readSimple.eq_def]
  rcases hunary with hunary | ⟨rfl, rfl⟩
  · rw [hunary]
  · cases UnaryOp.ofSpelling? operand.text <;> rfl

theorem unary (first operand : Operand) {op : UnaryOp}
    (hfirst : UnaryOp.ofSpelling? first.text = some op)
    (h : rest ≠ [] → BinaryOp.ofSpelling? operand.text = none) :
    Reads form (.unary op operand.text) [first, operand] rest .test := by
  have hother {text : String} (htext : UnaryOp.ofSpelling? text = none) : first.text ≠ text := by
    intro heq
    rw [heq, htext] at hfirst
    cases hfirst
  have hbinary : binary? (first :: operand :: rest) = none := by
    cases rest with
    | nil => rfl
    | cons next rest =>
      rw [binary?, h (List.cons_ne_nil _ _)]
      rfl
  have hlacks : lacksRight (first :: operand :: rest) = false := by
    simp [lacksRight, hfirst]
  refine ⟨length_lt_of_ne_nil (List.cons_ne_nil _ _) rest, ?_⟩
  change readNot form (first :: operand :: rest) = _
  rw [readNot_eq_readTest fun heq => absurd heq (hother (by decide)),
    readTest_eq_readSimple hbinary hlacks fun heq => absurd heq (hother (by decide)), readSimple,
    hfirst]

theorem binary (left middle right : Operand) {op : BinaryOp}
    (hmiddle : BinaryOp.ofSpelling? middle.text = some op)
    (hregex : op = .regex → form = .brackets) (hleft : rest ≠ [] → left.text ≠ "!") :
    Reads form (.binary op left.text right.text
      (if form = .brackets && op.takesPattern then right.pattern else none))
      [left, middle, right] rest .test := by
  have hbinary : binary? (left :: middle :: right :: rest) =
      some (left, op, right, ⟨rest, by simp only [List.length_cons]; omega⟩) := by
    rw [binary?, hmiddle]
    rfl
  refine ⟨length_lt_of_ne_nil (List.cons_ne_nil _ _) rest, ?_⟩
  change readNot form (left :: middle :: right :: rest) = _
  rw [readNot_eq_readTest fun hbang => .inr ?_, readTest.eq_def]
  · dsimp only
    rw [hbinary]
    refine if_neg fun hrefused => ?_
    obtain ⟨hop, hform⟩ := Bool.and_eq_true_iff.1 hrefused
    rw [hregex (of_decide_eq_true hop)] at hform
    cases hform
  · have hrest : rest = [] := by
      by_contra hne
      exact hleft hne hbang
    simp [hrest, negates, hmiddle]

/-- What is negated must not look like the end of a test of two operands. -/
theorem not {bang : Operand} {e : Expr} {words : List Operand} (hbang : bang.text = "!")
    (hne : words ≠ []) (hnegates : words.length + rest.length = 2 →
      ∀ first ∈ words.head?, BinaryOp.ofSpelling? first.text = none)
    (h : Reads form e words rest .test) : Reads form (.not e) (bang :: words) rest .test := by
  obtain ⟨hlt, hread⟩ := h
  cases words with
  | nil => exact absurd rfl hne
  | cons next later =>
    have hnegation : negates (bang :: next :: (later ++ rest)) = true := by
      rcases hlater : later ++ rest with _ | ⟨second, _ | _⟩
      · rfl
      · have hlength := congrArg List.length hlater
        rw [List.length_append, List.length_singleton] at hlength
        have hnot := hnegates (by rw [List.length_cons]; omega) next rfl
        simp [negates, hnot]
      · rfl
    have hinner : readNot form (next :: (later ++ rest)) = .ok (e, ⟨rest, hlt⟩) := hread
    refine ⟨Nat.lt_succ_of_lt hlt, ?_⟩
    change readNot form (bang :: next :: (later ++ rest)) = _
    rw [readNot, hnegation, if_pos (by simp [hbang]), hinner]

theorem group (first : Operand) {last : Operand} {e : Expr} {words : List Operand}
    (hfirst : first.text = "(") (hlast : last.text = ")") (hne : words ≠ [])
    (hstarts : ∀ next ∈ words.head?, BinaryOp.ofSpelling? next.text = none)
    (h : Reads form e words (last :: rest) .or) :
    Reads form (.group e) (first :: (words ++ [last])) rest .test := by
  obtain ⟨hlt, hread⟩ := h
  have hdiffer : ")" ≠ form.or := by cases form <;> decide
  have hclosed : readOr form (words ++ last :: rest) = .ok (e, ⟨last :: rest, hlt⟩) := by
    rw [hread, readOrFrom_eq_joinTurn, joinTurn_stop]
    rintro op ⟨⟩
    rw [hlast]
    exact hdiffer
  have hbinary : binary? (first :: (words ++ last :: rest)) = none := by
    refine binary?_eq_none fun op hop => ?_
    cases words with
    | nil => exact absurd rfl hne
    | cons next later =>
      cases hop
      exact hstarts op rfl
  have hwords : (first :: (words ++ [last])) ++ rest = first :: (words ++ last :: rest) := by simp
  rw [Reads, hwords]
  refine ⟨?_, ?_⟩
  · simp only [List.length_cons, List.length_append] at hlt ⊢
    omega
  have hlacks : lacksRight (first :: (words ++ last :: rest)) = false := by
    cases words <;> simp [lacksRight, hfirst]
  have hmore : (words ++ last :: rest).isEmpty = false := by simp
  rw [readNot_eq_readTest fun heq => absurd (hfirst.symm.trans heq) (by decide), readTest.eq_def]
  dsimp only
  rw [hbinary, hlacks, hmore, hclosed]
  simp [hfirst, hlast]

theorem and {op : Operand} {left right : Expr} {words words' : List Operand}
    (hop : op.text = form.and) (hleft : Reads form left words (op :: (words' ++ rest)) .and)
    (hright : Reads form right words' rest .test) :
    Reads form (.and left right) (words ++ op :: words') rest .and := by
  obtain ⟨hlt, hread⟩ := hleft
  obtain ⟨hlt', hread'⟩ := hright
  rw [Reads, List.append_assoc, List.cons_append, hread, readAndFrom_eq_joinTurn,
    joinTurn_of_read hop hread']
  exact ⟨_, rfl⟩

theorem test {e : Expr} {words : List Operand} (h : Reads form e words rest .test) :
    Reads form e words rest .and := by
  obtain ⟨hlt, hread⟩ := h
  refine ⟨hlt, ?_⟩
  rw [readAnd, hread]

/-- Nothing but another "and" goes on with what it joins. -/
theorem readAnd_ok {e : Expr} {words : List Operand} (h : Reads form e words rest .and)
    (hrest : Tier.or.EndsBefore form rest) :
    ∃ hlt, readAnd form (words ++ rest) = .ok (e, ⟨rest, hlt⟩) := by
  have hdiffer : ∀ text ∈ Tier.or.follows form, text ≠ form.and := by cases form <;> decide
  obtain ⟨hlt, hread⟩ := h
  rw [hread, readAndFrom_eq_joinTurn, joinTurn_stop fun op hop => hdiffer _ (hrest op hop)]
  exact ⟨hlt, rfl⟩

theorem conjunction {e : Expr} {words : List Operand} (h : Reads form e words rest .and)
    (hrest : Tier.or.EndsBefore form rest) : Reads form e words rest .or := by
  obtain ⟨hlt, hread⟩ := h.readAnd_ok hrest
  refine ⟨hlt, ?_⟩
  rw [readOr, hread]

theorem or {op : Operand} {left right : Expr} {words words' : List Operand}
    (hop : op.text = form.or) (hleft : Reads form left words (op :: (words' ++ rest)) .or)
    (hright : Reads form right words' rest .and) (hrest : Tier.or.EndsBefore form rest) :
    Reads form (.or left right) (words ++ op :: words') rest .or := by
  obtain ⟨hlt, hread⟩ := hleft
  obtain ⟨hlt', hread'⟩ := hright.readAnd_ok hrest
  rw [Reads, List.append_assoc, List.cons_append, hread, readOrFrom_eq_joinTurn,
    joinTurn_of_read hop hread']
  exact ⟨_, rfl⟩

/-- What is read up to the end of the words is the condition that they are. -/
theorem parse {e : Expr} {words : List Operand} (h : Reads form e words [] .or) (hne : words ≠ []) :
    Expr.parse form words = .ok e := by
  rw [Reads, List.append_nil] at h
  obtain ⟨hlt, hread⟩ := h
  have hmore : words.isEmpty = false := by simpa using hne
  rw [Expr.parse, hmore, hread, readOrFrom_eq_joinTurn]
  rfl

end Reads

end

/-! ## Whole conditions -/

namespace Layout

variable {rest : List Operand}

theorem not_startsBinary_iff {e : Layout Operand t} : ¬ e.StartsBinary ↔
    ∀ first ∈ e.operands.head?, BinaryOp.ofSpelling? first.text = none := by
  simp [StartsBinary]

/-- **Clear conditions are read as they are written**, whatever can follow them. -/
theorem reads (e : Layout Operand t) (h : e.IsClear rest.length)
    (hrest : t.EndsBefore .brackets rest) : Reads .brackets e.expr e.operands rest t := by
  have hpos {rest : List Operand} (hne : rest ≠ []) : 0 < rest.length := List.length_pos_iff.2 hne
  have hlength (op : Operand) (words rest : List Operand) :
      (op :: (words ++ rest)).length = words.length + 1 + rest.length := by
    simp only [List.length_cons, List.length_append]
    omega
  induction e generalizing rest with
  | text operand => exact .text _ (.inl h.1) (fun hne => h.2 (hpos hne)) hrest
  | unary op operand => exact .unary _ _ op.ofSpelling?_spelling fun hne => h (hpos hne)
  | binary left op right =>
    exact .binary _ _ _ op.ofSpelling?_spelling (fun _ => rfl) fun hne => h (hpos hne)
  | not e ih =>
    exact .not rfl e.operands_ne_nil (fun heq => not_startsBinary_iff.1 (h.2 heq))
      (ih h.1 hrest)
  | group e ih =>
    refine .group _ rfl rfl e.operands_ne_nil (not_startsBinary_iff.1 h.2)
      (ih h.1 ?_)
    rintro w ⟨⟩
    decide
  | test e ih => exact (ih h hrest).test
  | and left right ihl ihr =>
    refine .and rfl (ihl ?_ ?_) (ihr h.2 hrest)
    · exact hlength _ right.operands rest ▸ h.1
    · rintro w ⟨⟩
      decide
  | conjunction e ih => exact (ih h hrest.tighten).conjunction hrest
  | or left right ihl ihr =>
    refine .or rfl (ihl ?_ ?_) (ihr h.2 hrest.tighten) hrest
    · exact hlength _ right.operands rest ▸ h.1
    · rintro w ⟨⟩
      decide

/-- **A clear condition** is read as it is written. -/
theorem parse_operands {e : Layout Operand .or} (h : e.IsClear 0) :
    Expr.parse .brackets e.operands = .ok e.expr := by
  have hreads : Reads .brackets e.expr e.operands [] .or := e.reads h nofun
  exact hreads.parse e.operands_ne_nil

/-- **One test of two operands**, whatever they are. -/
theorem parse_binary (left right : Operand) (op : BinaryOp) :
    Expr.parse .brackets [left, .ofLiteral op.spelling, right] =
      .ok (.binary op left.text right.text (if op.takesPattern then right.pattern else none)) :=
  parse_operands (e := .conjunction (.test (.binary left op right))) nofun

end Layout

end VirtualShell.Condition
