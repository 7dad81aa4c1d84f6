import Mathlib.Data.List.Forall2
import VirtualShell.Condition.Parser

/-!
# The shapes of conditions

A condition is read from texts alone, so a text that is spelled like an operator can be taken for
one. Texts that are not spelled like one are all read in the same way: they make no difference to the
tests that are made, nor to why there are none.

* `joinTurn` — one turn of the loops over conditions that are joined.
* `Form.isSyntax` — the texts that mean something in conditions.
* `Expr.shape` — a condition without its texts.
* `readOr_alike` — alike words are read alike, up to words that are left alike.
* **`shapeOf_parse`** — alike words make conditions of the same shape.
-/

namespace VirtualShell.Condition

/-! ## The loops -/

theorem length_lt_of_joined {start later rest : List Operand} {op next : Operand}
    (h : (op :: next :: later).length < start.length)
    (hrest : rest.length < (next :: later).length) : rest.length < start.length := by
  simp only [List.length_cons] at h hrest
  omega

/-- One turn of a loop over conditions that a word joins. -/
def joinTurn {start : List Operand} (word : String) (join : Expr → Expr → Expr)
    (read : (words : List Operand) → Reading words) (go : Expr → Rest start → Reading start)
    (left : Expr) : Rest start → Reading start
  | ⟨op :: next :: rest, h⟩ =>
    if op.text = word then
      match read (next :: rest) with
      | .error e => .error e
      | .ok (right, ⟨rest', h'⟩) =>
        go (join left right) ⟨rest', length_lt_of_joined h h'⟩
    else .ok (left, ⟨op :: next :: rest, h⟩)
  | words => .ok (left, words)

theorem readAndFrom_eq_joinTurn {form : Form} {start : List Operand} (left : Expr)
    (words : Rest start) : readAndFrom form left words =
      joinTurn form.and .and (readNot form) (readAndFrom form) left words := by
  rw [readAndFrom.eq_def]
  rfl

theorem readOrFrom_eq_joinTurn {form : Form} {start : List Operand} (left : Expr)
    (words : Rest start) : readOrFrom form left words =
      joinTurn form.or .or (readAnd form) (readOrFrom form) left words := by
  rw [readOrFrom.eq_def]
  rfl

section

variable {start : List Operand} {word : String} {join : Expr → Expr → Expr}
  {read : (words : List Operand) → Reading words} {go : Expr → Rest start → Reading start}
  {left : Expr}

/-- A loop goes on after what its word joins. -/
theorem joinTurn_of_read {op : Operand} {words rest : List Operand} {right : Expr}
    (hop : op.text = word) {hlt : rest.length < words.length}
    (hread : read words = .ok (right, ⟨rest, hlt⟩)) (h : (op :: words).length < start.length) :
    joinTurn word join read go left ⟨op :: words, h⟩ =
      go (join left right) ⟨rest, by simp only [List.length_cons] at h; omega⟩ := by
  cases words with
  | nil => exact absurd hlt (Nat.not_lt_zero _)
  | cons next later =>
    rw [joinTurn, if_pos hop, hread]

/-- A loop ends where its word does not follow. -/
theorem joinTurn_stop {rest : List Operand} (hrest : ∀ op ∈ rest.head?, op.text ≠ word)
    (h : rest.length < start.length) :
    joinTurn word join read go left ⟨rest, h⟩ = .ok (left, ⟨rest, h⟩) := by
  rcases rest with _ | ⟨op, _ | ⟨next, rest⟩⟩
  · rfl
  · rfl
  · rw [joinTurn, if_neg (hrest op rfl)]

end

/-! ## Texts that are syntax -/

/-- A text that is spelled like an operator, a negation or a parenthesis. -/
def Form.isSyntax (form : Form) (text : String) : Bool :=
  text ∈ ["!", "(", ")", form.and, form.or] || (UnaryOp.ofSpelling? text).isSome ||
    (BinaryOp.ofSpelling? text).isSome

/-- **Words that are read alike**: they have the same text, or neither text is syntax. -/
def Operand.Alike (form : Form) (a b : Operand) : Prop :=
  a.text = b.text ∨ form.isSyntax a.text = false ∧ form.isSyntax b.text = false

namespace Operand.Alike

variable {form : Form} {a b : Operand} (h : Operand.Alike form a b)
include h

theorem text_eq_iff {text : String} (htext : form.isSyntax text = true) :
    a.text = text ↔ b.text = text := by
  rcases h with heq | ⟨ha, hb⟩
  · rw [heq]
  · constructor
    · rintro rfl
      rw [ha] at htext
      cases htext
    · rintro rfl
      rw [hb] at htext
      cases htext

theorem unary_eq : UnaryOp.ofSpelling? a.text = UnaryOp.ofSpelling? b.text := by
  rcases h with heq | ⟨ha, hb⟩
  · rw [heq]
  · simp only [Form.isSyntax, Bool.or_eq_false_iff, Option.isSome_eq_false_iff,
      Option.isNone_iff_eq_none] at ha hb
    rw [ha.1.2, hb.1.2]

theorem binary_eq : BinaryOp.ofSpelling? a.text = BinaryOp.ofSpelling? b.text := by
  rcases h with heq | ⟨ha, hb⟩
  · rw [heq]
  · simp only [Form.isSyntax, Bool.or_eq_false_iff, Option.isSome_eq_false_iff,
      Option.isNone_iff_eq_none] at ha hb
    rw [ha.2, hb.2]

theorem negation_iff : a.text = "!" ↔ b.text = "!" := h.text_eq_iff (by simp [Form.isSyntax])

theorem opening_iff : a.text = "(" ↔ b.text = "(" := h.text_eq_iff (by simp [Form.isSyntax])

theorem closing_iff : a.text = ")" ↔ b.text = ")" := h.text_eq_iff (by simp [Form.isSyntax])

end Operand.Alike

/-! ## Shapes -/

/-- **The shape of a condition**: its tests and how they are joined, without the texts. -/
def Expr.shape : Expr → Expr
  | .text _ => .text ""
  | .unary op _ => .unary op ""
  | .binary op _ _ _ => .binary op "" "" none
  | .not e => .not e.shape
  | .and left right => .and left.shape right.shape
  | .or left right => .or left.shape right.shape
  | .group inner => .group inner.shape

/-- What is wrong, without the word where it is found. -/
def Error.shape : Error → Error
  | .unexpected _ => .unexpected ""
  | .unaryExpected _ => .unaryExpected ""
  | e => e

/-- The shape of what is read, or of what is wrong with it. -/
def shapeOf : Except Error Expr → Except Error Expr
  | .ok e => .ok e.shape
  | .error e => .error e.shape

/-- **Two readings that are alike**: conditions of one shape with words left that are alike, or the
same failure. -/
def ReadsAlike (form : Form) {words words' : List Operand} :
    Reading words → Reading words' → Prop
  | .ok (e, rest), .ok (e', rest') =>
    e.shape = e'.shape ∧ List.Forall₂ (Operand.Alike form) rest.1 rest'.1
  | .error e, .error e' => e.shape = e'.shape
  | _, _ => False

section

variable {form : Form} {words words' : List Operand}

theorem ReadsAlike.cases {x : Reading words} {y : Reading words'} (h : ReadsAlike form x y) :
    (∃ e e', x = .error e ∧ y = .error e' ∧ e.shape = e'.shape) ∨
      ∃ e rest e' rest', x = .ok (e, rest) ∧ y = .ok (e', rest') ∧ e.shape = e'.shape ∧
        List.Forall₂ (Operand.Alike form) rest.1 rest'.1 := by
  unfold ReadsAlike at h
  split at h
  · exact .inr ⟨_, _, _, _, rfl, rfl, h⟩
  · exact .inl ⟨_, _, rfl, rfl, h⟩
  · exact h.elim

/-! ## What decides -/

theorem negates_alike (h : List.Forall₂ (Operand.Alike form) words words') :
    negates words = negates words' := by
  rcases h with _ | ⟨-, _ | ⟨hop, _ | ⟨-, _ | -⟩⟩⟩ <;> try rfl
  simp [negates, hop.binary_eq]

theorem lacksRight_alike (h : List.Forall₂ (Operand.Alike form) words words') :
    lacksRight words = lacksRight words' := by
  rcases h with _ | ⟨hfirst, _ | ⟨hop, hrest⟩⟩ <;> try rfl
  have hopening := hfirst.opening_iff
  have hnegation := hfirst.negation_iff
  simp only [lacksRight, hop.binary_eq, hfirst.unary_eq, bne, beq_eq_decide, hopening, hnegation]

/-- Alike words start with a test of two operands both, or neither do. -/
theorem binary?_alike (h : List.Forall₂ (Operand.Alike form) words words') :
    (binary? words = none ∧ binary? words' = none) ∨
      ∃ op left right rest left' right' rest', binary? words = some (left, op, right, rest) ∧
        binary? words' = some (left', op, right', rest') ∧
          List.Forall₂ (Operand.Alike form) rest.1 rest'.1 := by
  rcases h with _ | ⟨-, _ | ⟨hop, _ | ⟨-, hrest⟩⟩⟩
  · exact .inl ⟨rfl, rfl⟩
  · exact .inl ⟨rfl, rfl⟩
  · exact .inl ⟨rfl, rfl⟩
  · rename_i left left' op op' right right' rest rest'
    cases hspelling : BinaryOp.ofSpelling? op.text with
    | none => exact .inl ⟨by simp [binary?, hspelling], by simp [binary?, ← hop.binary_eq, hspelling]⟩
    | some found =>
      refine .inr ⟨found, left, right, ⟨rest, ?_⟩, left', right', ⟨rest', ?_⟩, ?_, ?_, hrest⟩
      · simp only [List.length_cons]
        omega
      · simp only [List.length_cons]
        omega
      · simp [binary?, hspelling]
      · simp [binary?, ← hop.binary_eq, hspelling]

theorem readSimple_alike {first first' : Operand} {rest rest' : List Operand}
    (hfirst : Operand.Alike form first first')
    (hrest : List.Forall₂ (Operand.Alike form) rest rest') :
    ReadsAlike form (readSimple form first rest) (readSimple form first' rest') := by
  have hunary := hfirst.unary_eq
  unfold readSimple
  rw [← hunary]
  cases UnaryOp.ofSpelling? first.text with
  | none => exact ⟨rfl, hrest⟩
  | some op =>
    cases hrest with
    | cons _ hlater => exact ⟨rfl, hlater⟩
    | nil =>
      cases form with
      | brackets => exact rfl
      | command => exact ⟨rfl, .nil⟩

/-! ## Reading -/

variable (form) in
/-- Alike words that are fewer than some number are read alike. -/
def FewerAlike (n : Nat) : Prop :=
  ∀ words words' : List Operand, words.length < n →
    List.Forall₂ (Operand.Alike form) words words' →
      ReadsAlike form (readOr form words) (readOr form words')

theorem FewerAlike.mono {n m : Nat} (h : FewerAlike form n) (hle : m ≤ n) : FewerAlike form m :=
  fun words words' hlt => h words words' (Nat.lt_of_lt_of_le hlt hle)

/-- What is in parentheses is shorter than the whole. -/
theorem readTest_alike (h : List.Forall₂ (Operand.Alike form) words words')
    (ih : FewerAlike form words.length) :
    ReadsAlike form (readTest form words) (readTest form words') := by
  have hlacks := lacksRight_alike h
  have hbinary := binary?_alike h
  cases h with
  | nil =>
    rw [readTest]
    exact rfl
  | @cons first first' rest rest' hfirst hrest =>
    rw [readTest.eq_def form (first :: rest), readTest.eq_def form (first' :: rest')]
    dsimp only
    rcases hbinary with ⟨hnone, hnone'⟩ |
      ⟨op, left, right, later, left', right', later', hsome, hsome', hlater⟩
    · have hempty : rest.isEmpty = rest'.isEmpty := by cases hrest <;> rfl
      have hopening : decide (first.text = "(") = decide (first'.text = "(") :=
        decide_eq_decide.2 hfirst.opening_iff
      rw [hnone, hnone', ← hlacks, ← hopening, ← hempty]
      dsimp only
      split
      · cases form <;> exact rfl
      · split
        · rcases (ih rest rest' (Nat.lt_succ_self _) hrest).cases with
            ⟨e, e', hread, hread', he⟩ |
              ⟨e, ⟨after, hlt⟩, e', ⟨after', hlt'⟩, hread, hread', he, hafter⟩
          · rw [hread, hread']
            exact he
          · rw [hread, hread']
            cases hafter with
            | nil => exact rfl
            | @cons close close' _ _ hclose hafter =>
              dsimp only
              by_cases hclosing : close.text = ")"
              · rw [if_pos hclosing, if_pos (hclose.closing_iff.1 hclosing)]
                exact ⟨congrArg Expr.group he, hafter⟩
              · rw [if_neg hclosing, if_neg fun heq => hclosing (hclose.closing_iff.2 heq)]
                exact rfl
        · exact readSimple_alike hfirst hrest
    · rw [hsome, hsome']
      dsimp only
      split
      · exact rfl
      · exact ⟨rfl, hlater⟩

theorem readNot_alike (h : List.Forall₂ (Operand.Alike form) words words')
    (ih : FewerAlike form words.length) :
    ReadsAlike form (readNot form words) (readNot form words') := by
  induction h with
  | nil =>
    rw [readNot]
    · exact readTest_alike .nil ih
    · simp
  | @cons first first' rest rest' hfirst hrest hnot =>
    have htest := readTest_alike (.cons hfirst hrest) ih
    have hnegates := negates_alike (.cons hfirst hrest)
    have hrest' := hnot (ih.mono (Nat.le_succ _))
    cases hrest with
    | nil =>
      rw [readNot, readNot]
      · exact htest
      all_goals simp
    | @cons next next' later later' hnext hlater =>
      have hnegation : decide (first.text = "!") = decide (first'.text = "!") :=
        decide_eq_decide.2 hfirst.negation_iff
      rw [readNot, readNot, ← hnegates, ← hnegation]
      split
      · rcases hrest'.cases with
          ⟨e, e', hread, hread', he⟩ |
            ⟨e, ⟨after, hlt⟩, e', ⟨after', hlt'⟩, hread, hread', he, hafter⟩
        · rw [hread, hread']
          exact he
        · rw [hread, hread']
          exact ⟨congrArg Expr.not he, hafter⟩
      · exact htest

/-- A loop goes on with what its last turn left, which is shorter. -/
theorem join_alike {word : String} {join : Expr → Expr → Expr}
    {read : (words : List Operand) → Reading words}
    {go : {start : List Operand} → Expr → Rest start → Reading start}
    (hgo : ∀ {start : List Operand} (left : Expr) (words : Rest start),
      go left words = joinTurn word join read go left words)
    (hword : form.isSyntax word = true)
    (hjoin : ∀ left right, (join left right).shape = join left.shape right.shape)
    (hread : ∀ words words', List.Forall₂ (Operand.Alike form) words words' →
      FewerAlike form words.length → ReadsAlike form (read words) (read words'))
    {start start' : List Operand} {left left' : Expr} (hleft : left.shape = left'.shape)
    {hlt : words.length < start.length} {hlt' : words'.length < start'.length}
    (h : List.Forall₂ (Operand.Alike form) words words') (ih : FewerAlike form words.length) :
    ReadsAlike form (go left (⟨words, hlt⟩ : Rest start))
      (go left' (⟨words', hlt'⟩ : Rest start')) := by
  induction hn : words.length using Nat.strongRecOn generalizing words words' left left' with
  | ind n loop =>
    rw [hgo, hgo]
    rcases h with _ | ⟨hop, _ | ⟨hnext, hlater⟩⟩
    · exact ⟨hleft, .nil⟩
    · exact ⟨hleft, .cons hop .nil⟩
    · rename_i op op' next next' later later'
      rw [joinTurn, joinTurn]
      by_cases htext : op.text = word
      · rw [if_pos htext, if_pos ((hop.text_eq_iff hword).1 htext)]
        rcases (hread _ _ (.cons hnext hlater) (ih.mono (Nat.le_succ _))).cases with
          ⟨e, e', hfound, hfound', he⟩ |
            ⟨e, ⟨rest, hrest⟩, e', ⟨rest', hrest'⟩, hfound, hfound', he, halike⟩
        · rw [hfound, hfound']
          exact he
        · rw [hfound, hfound']
          have hfewer : rest.length < n := hn ▸ Nat.lt_succ_of_lt hrest
          have hjoined : (join left e).shape = (join left' e').shape := by
            rw [hjoin, hjoin, hleft, he]
          exact loop rest.length hfewer hjoined halike (ih.mono (hn ▸ Nat.le_of_lt hfewer)) rfl
      · rw [if_neg htext, if_neg fun heq => htext ((hop.text_eq_iff hword).2 heq)]
        exact ⟨hleft, .cons hop (.cons hnext hlater)⟩

theorem readAnd_alike (h : List.Forall₂ (Operand.Alike form) words words')
    (ih : FewerAlike form words.length) :
    ReadsAlike form (readAnd form words) (readAnd form words') := by
  rw [readAnd, readAnd]
  rcases (readNot_alike h ih).cases with
    ⟨e, e', hread, hread', he⟩ |
      ⟨e, ⟨rest, hlt⟩, e', ⟨rest', hlt'⟩, hread, hread', he, hrest⟩
  · rw [hread, hread']
    exact he
  · rw [hread, hread']
    exact join_alike readAndFrom_eq_joinTurn (by simp [Form.isSyntax]) (fun _ _ => rfl)
      (fun _ _ => readNot_alike) he hrest (ih.mono (Nat.le_of_lt hlt))

/-- **Alike words are read alike.** -/
theorem readOr_alike (h : List.Forall₂ (Operand.Alike form) words words') :
    ReadsAlike form (readOr form words) (readOr form words') := by
  induction hn : words.length using Nat.strongRecOn generalizing words words' with
  | ind n loop =>
    have ih : FewerAlike form words.length := fun later later' hlt hlater =>
      loop later.length (hn ▸ hlt) hlater rfl
    rw [readOr, readOr]
    rcases (readAnd_alike h ih).cases with
      ⟨e, e', hread, hread', he⟩ |
        ⟨e, ⟨rest, hlt⟩, e', ⟨rest', hlt'⟩, hread, hread', he, hrest⟩
    · rw [hread, hread']
      exact he
    · rw [hread, hread']
      exact join_alike readOrFrom_eq_joinTurn (by simp [Form.isSyntax]) (fun _ _ => rfl)
        (fun _ _ => readAnd_alike) he hrest (ih.mono (Nat.le_of_lt hlt))

/-- **Alike words make conditions of the same shape**, or are refused for the same reason. -/
theorem shapeOf_parse (h : List.Forall₂ (Operand.Alike form) words words') :
    shapeOf (Expr.parse form words) = shapeOf (Expr.parse form words') := by
  have hempty : words.isEmpty = words'.isEmpty := by cases h <;> rfl
  rw [Expr.parse, Expr.parse, ← hempty]
  split
  · rfl
  · rcases (readOr_alike h).cases with
      ⟨e, e', hread, hread', he⟩ |
        ⟨e, ⟨rest, hlt⟩, e', ⟨rest', hlt'⟩, hread, hread', he, hrest⟩
    · rw [hread, hread']
      exact congrArg Except.error he
    · rw [hread, hread']
      cases hrest with
      | nil => exact congrArg Except.ok he
      | cons _ _ => cases form <;> rfl

end

end VirtualShell.Condition
