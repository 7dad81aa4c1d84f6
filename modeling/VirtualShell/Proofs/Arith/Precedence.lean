import Mathlib
import VirtualShell.Proofs.Arith.Token

/-!
# Writing and reading arithmetic expressions

How tight the forms of an expression bind is a table. An expression is written after it, with
parentheses around a part only where the part binds looser than its place takes. Reading what was
written gives the expression back, so the reader goes by that table and by nothing else.

The reader of a tier that groups to the left takes one operand and then goes on for as long as
operators of the tier follow. What it has read when it comes to the operator after a part is that
part, for every way to go on: the induction is over the part, with the way to go on left open.

* `Expr.strength` — the table.
* `Expr.writtenAt` — the tokens of an expression in a place.
* `Continues` — how operands that follow one another are joined.
* `Expr.readsBack_and_goesOn` — the reader of a place finds the expression that was written there.
* **`Expr.parse_text`** — an expression is read back from its text.
-/

namespace VirtualShell.Arith

/-! ## How tight forms bind -/

/-- The operators that group to the left, the loosest tier first. -/
def tiers : List (List BinaryOp) := [
  [.or], [.and], [.bitOr], [.bitXor], [.bitAnd], [.equal, .notEqual],
  [.less, .lessEqual, .greater, .greaterEqual], [.shiftLeft, .shiftRight], [.add, .subtract],
  [.multiply, .divide, .remainder]]

/-- How tight an operator with two operands binds: the comma loosest, then the tiers, and a power
tightest. Between the comma and the tiers stand assignments and conditionals. -/
def BinaryOp.strength : BinaryOp → Nat
  | .comma => 0
  | .power => 13
  | op => 3 + tiers.findIdx (op ∈ ·)

/-- Powers group to the right, all other operators to the left. -/
def BinaryOp.groupsRight (op : BinaryOp) : Bool := op == .power

/-- How tight the left operand must bind. It may hold the operator itself if that groups to the
left. -/
def BinaryOp.leftLeast (op : BinaryOp) : Nat :=
  if op.groupsRight then op.strength + 1 else op.strength

/-- How tight the right operand must bind. -/
def BinaryOp.rightLeast (op : BinaryOp) : Nat :=
  if op.groupsRight then op.strength else op.strength + 1

/-- **How tight an expression binds.** Tightest are numerals, names and steps after a name, then
operators and steps before an operand. -/
def Expr.strength : Expr → Nat
  | .number _ | .variable _ | .step _ _ false => 15
  | .unary _ _ | .step _ _ true => 14
  | .binary op _ _ => op.strength
  | .conditional _ _ _ => 2
  | .assign _ _ _ => 1

/-! ## Writing -/

/-- The symbol of an operator with one operand. -/
def UnaryOp.symbol : UnaryOp → Symbol
  | .negate => .binary .subtract
  | .identity => .binary .add
  | .not => .not
  | .complement => .complement

/-- Some tokens, in parentheses if need be. -/
def enclose (needed : Bool) (tokens : List Token) : List Token :=
  if needed then .symbol .openParen :: (tokens ++ [.symbol .closeParen]) else tokens

/-- The tokens of an expression that stands alone. -/
def Expr.written : Expr → List Token
  | .number value => [.literal (toString value)]
  | .variable name => [.name name]
  | .unary op e => .symbol op.symbol :: enclose (e.strength < 14) e.written
  | .binary op left right =>
    enclose (left.strength < op.leftLeast) left.written ++
      .symbol (.binary op) :: enclose (right.strength < op.rightLeast) right.written
  | .conditional condition yes no =>
    enclose (condition.strength < 3) condition.written ++
      .symbol .question :: (enclose (yes.strength < 1) yes.written ++
        .symbol .colon :: enclose (no.strength < 1) no.written)
  | .assign op name value =>
    .name name :: .symbol (.assign op) :: enclose (value.strength < 1) value.written
  | .step s name true => [.symbol (.step s), .name name]
  | .step s name false => [.name name, .symbol (.step s)]

/-- **The tokens of an expression** in a place that takes what binds so tight at least. -/
def Expr.writtenAt (least : Nat) (e : Expr) : List Token := enclose (e.strength < least) e.written

/-- **The text of an expression**, with a space between any two tokens. -/
def Expr.text (e : Expr) : String := " ".intercalate (e.written.map Token.spelling)

/-- The assignments that have a symbol: the plain one, and those with an operator on numbers or on
bits. -/
def assignable : List (Option BinaryOp) := [
  none, some .add, some .subtract, some .multiply, some .divide, some .remainder,
  some .shiftLeft, some .shiftRight, some .bitAnd, some .bitXor, some .bitOr]

/-- **What has a text.** The numbers are those with a decimal numeral, up to two to the
sixty-fourth, the names are names, and the assignments have a symbol. -/
def Expr.isWritable : Expr → Bool
  | .number value => 0 ≤ value && value ≤ 2 ^ 64
  | .variable name => isName name
  | .unary _ e => e.isWritable
  | .binary _ left right => left.isWritable && right.isWritable
  | .conditional condition yes no => condition.isWritable && yes.isWritable && no.isWritable
  | .assign op name value => op ∈ assignable && isName name && value.isWritable
  | .step _ name _ => isName name

/-! ## Readers -/

/-- A reader found an expression, and what follows it. -/
def Reads {tokens : List Token} (r : Reading tokens) (e : Expr) (rest : List Token) : Prop :=
  ∃ h, r = .ok (e, ⟨rest, h⟩)

/-- The reader of the expressions that bind so tight at least. -/
def readAtLeast (least : Nat) (tokens : List Token) : Reading tokens :=
  match least with
  | 0 => readComma tokens
  | 1 => readAssignment tokens
  | 2 => readConditional tokens
  | least => if least ≤ 13 then readTier (13 - least) tokens else readUnary tokens

/-- The operators whose operands are read one after another: the comma and the ten tiers. -/
def IsChained (k : Nat) : Prop := k = 0 ∨ 3 ≤ k ∧ k ≤ 12

/-- **Going on.** From an expression that binds as tight as `k` or tighter, operators of strength
`k` with their right operands lead on to another one. -/
inductive Continues (k : Nat) : Expr → List Token → Expr → List Token → Prop
  | stop {e rest} (h : ∀ op, rest.head? = some (.symbol (.binary op)) → op.strength ≠ k) :
      Continues k e rest e rest
  | more {op left right e tokens rest last} (hop : op.strength = k)
      (hright : Reads (readAtLeast (k + 1) tokens) right rest)
      (hrest : Continues k (.binary op left right) rest e last) :
      Continues k left (.symbol (.binary op) :: tokens) e last

/-- The tiers are numbered from the tightest one, and places from the loosest. -/
theorem readAtLeast_of_tier {k t : Nat} (h : k + t = 13) (ht : t ≤ 10) (tokens : List Token) :
    readAtLeast k tokens = readTier t tokens := by
  obtain rfl : k = 13 - t := by omega
  interval_cases t <;> rfl

theorem strength_eq_iff {op : BinaryOp} {t : Nat} (ht : t < 10) :
    op.strength = 12 - t ↔ op.tier = t + 1 := by
  have htable : ∀ op : BinaryOp, op.strength = if op = .comma then 0 else 13 - op.tier := by
    intro op
    cases op <;> decide
  have htier : op.tier ≤ 11 ∧ (op = .comma ↔ op.tier = 11) := by cases op <;> decide
  rw [htable]
  split
  · next h =>
    have := htier.2.1 h
    omega
  · next h =>
    have := mt htier.2.2 h
    omega

theorem strength_eq_zero_iff {op : BinaryOp} : op.strength = 0 ↔ op = .comma := by
  cases op <;> decide

/-- The commas after an expression are read as they lead on. -/
theorem Continues.readCommaFrom {e e' : Expr} {rest last : List Token}
    (h : Continues 0 e rest e' last) {start : List Token} (hlength : rest.length < start.length) :
    Reads (readCommaFrom e (⟨rest, hlength⟩ : Rest start)) e' last := by
  induction h with
  | stop h =>
    unfold Arith.readCommaFrom
    split
    · next heq =>
      cases heq
      exact absurd rfl (h .comma rfl)
    · exact ⟨hlength, rfl⟩
  | @more op left right e tokens rest last hop hright hrest ih =>
    obtain rfl := strength_eq_zero_iff.1 hop
    obtain ⟨hshort, hright⟩ := hright
    unfold Arith.readCommaFrom
    rw [show readAssignment tokens = _ from hright]
    exact ih _

/-- The operators of a tier after an expression are read as they lead on. -/
theorem Continues.readTierFrom {t : Nat} (ht : t < 10) {e e' : Expr} {rest last : List Token}
    (h : Continues (12 - t) e rest e' last) {start : List Token}
    (hlength : rest.length < start.length) :
    Reads (readTierFrom t e (⟨rest, hlength⟩ : Rest start)) e' last := by
  induction h with
  | stop h =>
    unfold Arith.readTierFrom
    split
    · next op more hmore heq =>
      cases heq
      rw [if_neg (mt (strength_eq_iff ht).2 (h op rfl))]
      exact ⟨hlength, rfl⟩
    · exact ⟨hlength, rfl⟩
  | @more op left right e tokens rest last hop hright hrest ih =>
    obtain ⟨hshort, hright⟩ := hright
    rw [readAtLeast_of_tier (t := t) (by omega) (by omega)] at hright
    unfold Arith.readTierFrom
    rw [if_pos ((strength_eq_iff ht).1 hop), hright]
    exact ih _

/-- **One operand, and on from there.** -/
theorem Reads.goOn {k : Nat} (hk : IsChained k) {tokens rest last : List Token} {e e' : Expr}
    (h : Reads (readAtLeast (k + 1) tokens) e rest) (hrest : Continues k e rest e' last) :
    Reads (readAtLeast k tokens) e' last := by
  obtain ⟨hshort, h⟩ := h
  rcases hk with rfl | ⟨hle, hge⟩
  · change Reads (readComma tokens) e' last
    rw [readComma, show readAssignment tokens = _ from h]
    exact hrest.readCommaFrom hshort
  · obtain ⟨t, ht, rfl⟩ : ∃ t < 10, k = 12 - t := ⟨12 - k, by omega, by omega⟩
    rw [readAtLeast_of_tier (t := t) (by omega) (by omega)] at h
    rw [readAtLeast_of_tier (t := t + 1) (by omega) (by omega), readTier, h]
    exact hrest.readTierFrom ht hshort

/-! ## What may follow -/

/-- The token after an expression belongs to it when the expression may bind as loose as `least`. -/
def Token.extends (least : Nat) : Token → Bool
  | .symbol (.binary op) => least ≤ op.strength
  | .symbol .question => least ≤ 2
  | .symbol (.step _) | .symbol (.assign _) => true
  | _ => false

/-- **An expression ends** in front of some tokens if the first one does not belong to it. -/
def Stops (least : Nat) (rest : List Token) : Prop :=
  ∀ t ∈ rest.head?, t.extends least = false

theorem Stops.mono {k m : Nat} {rest : List Token} (h : Stops k rest) (hkm : k ≤ m) :
    Stops m rest := by
  intro t ht
  have hext := h t ht
  unfold Token.extends at hext ⊢
  split at hext <;> grind

/-- The tokens do not start with the name and the symbol of an assignment. -/
def NoAssignment (tokens : List Token) : Prop :=
  ∀ name op rest, tokens ≠ .name name :: .symbol (.assign op) :: rest

theorem NoAssignment.of_head? {tokens : List Token} (h : ∀ name, tokens.head? ≠ some (.name name)) :
    NoAssignment tokens := by
  rintro name op rest rfl
  exact h name rfl

/-- What binds tighter is read by the reader of what binds looser, where it ends. -/
theorem Reads.loosen {k : Nat} (hk : k < 14) {tokens rest : List Token} {e : Expr}
    (h : Reads (readAtLeast (k + 1) tokens) e rest) (hstop : Stops k rest)
    (hassign : k = 1 → NoAssignment tokens) : Reads (readAtLeast k tokens) e rest := by
  by_cases hchained : IsChained k
  · refine h.goOn hchained (.stop fun op hop heq => ?_)
    have hext := hstop _ (Option.mem_def.2 hop)
    simp [Token.extends, heq] at hext
  have hcases : k = 1 ∨ k = 2 ∨ k = 13 := by
    unfold IsChained at hchained
    omega
  obtain ⟨hshort, h⟩ := h
  rcases hcases with rfl | rfl | rfl
  · change Reads (readAssignment tokens) e rest
    unfold readAssignment
    split
    · exact absurd rfl (hassign rfl _ _ _)
    · exact ⟨hshort, h⟩
  · change Reads (readConditional tokens) e rest
    rw [readConditional, show readTier loosestTier tokens = _ from h]
    cases rest with
    | nil => exact ⟨hshort, rfl⟩
    | cons t rest =>
      have hext := hstop t rfl
      split
      · next heq => cases heq
      · next heq =>
        cases heq
        cases hext
      · next heq =>
        cases heq
        exact ⟨hshort, rfl⟩
  · change Reads (readTier 0 tokens) e rest
    rw [readTier, readPower, show readUnary tokens = _ from h]
    cases rest with
    | nil => exact ⟨hshort, rfl⟩
    | cons t rest =>
      have hext := hstop t rfl
      split
      · next heq => cases heq
      · next heq =>
        cases heq
        cases hext
      · next heq =>
        cases heq
        exact ⟨hshort, rfl⟩

/-- So it is by any reader of what binds looser. -/
theorem Reads.loosenTo {k m : Nat} (hkm : k ≤ m) (hm : m ≤ 14) {tokens rest : List Token} {e : Expr}
    (h : Reads (readAtLeast m tokens) e rest) (hstop : Stops k rest)
    (hassign : k ≤ 1 → 1 < m → NoAssignment tokens) : Reads (readAtLeast k tokens) e rest := by
  induction m, hkm using Nat.le_induction with
  | base => exact h
  | succ m hkm ih =>
    refine ih (by omega) (h.loosen (by omega) (hstop.mono hkm) fun hone => ?_) fun hk hone => ?_
    · exact hassign (by omega) (by omega)
    · exact hassign hk (by omega)

/-! ## What is written starts no assignment -/

theorem BinaryOp.leftLeast_of_ne_comma {op : BinaryOp} (h : op ≠ .comma) : 3 ≤ op.leftLeast := by
  cases op <;> first | exact absurd rfl h | decide

/-- Only an assignment, or a comma after one, starts with a name and the symbol of an assignment. -/
theorem Expr.noAssignment_written (e : Expr) (h : 2 ≤ e.strength) {rest : List Token}
    (hrest : ∀ op, rest.head? ≠ some (.symbol (.assign op))) :
    NoAssignment (e.written ++ rest) := by
  -- a part in parentheses does not start with a name, and any other binds tight enough
  have henclosed (part : Expr) (least : Nat) (hleast : 3 ≤ least) (t : Token) (after : List Token)
      (ih : 2 ≤ part.strength → NoAssignment (part.written ++ t :: after)) :
      NoAssignment (enclose (part.strength < least) part.written ++ t :: after) := by
    unfold enclose
    split
    · exact .of_head? fun name => by simp
    · next hpart => exact ih (by simp at hpart; omega)
  induction e generalizing rest with
  | number value => exact .of_head? fun name => by simp [written]
  | «variable» name =>
    rintro name' op after heq
    exact hrest op (by simpa [written] using congrArg (·.tail.head?) heq)
  | unary op e _ => exact .of_head? fun name => by simp [written]
  | binary op left right ihl _ =>
    have hop : op ≠ .comma := by
      rintro rfl
      simp [strength, BinaryOp.strength] at h
    rw [written, List.append_assoc, List.cons_append]
    exact henclosed left _ (BinaryOp.leftLeast_of_ne_comma hop) _ _ fun hl => ihl hl (by simp)
  | conditional condition yes no ihc _ _ =>
    rw [written, List.append_assoc, List.cons_append]
    exact henclosed condition _ (Nat.le_refl 3) _ _ fun hc => ihc hc (by simp)
  | assign op name value _ => simp [strength] at h
  | step s name before =>
    cases before with
    | true => exact .of_head? fun name => by simp [written]
    | false =>
      rintro name' op after heq
      simp [written] at heq

/-! ## Reading what was written -/

/-- **The expression is read back** from every place, up to where it ends. -/
def Expr.ReadsBack (e : Expr) : Prop :=
  ∀ k ≤ 14, ∀ rest, Stops k rest → Reads (readAtLeast k (e.writtenAt k ++ rest)) e rest

/-- **The reading goes on** after the expression, with what joins it to the operands that follow. -/
def Expr.GoesOn (e : Expr) : Prop :=
  ∀ k, IsChained k → ∀ rest e' last, Stops (k + 1) rest → Continues k e rest e' last →
    Reads (readAtLeast k (e.writtenAt k ++ rest)) e' last

theorem Expr.writtenAt_of_le {e : Expr} {k : Nat} (h : k ≤ e.strength) :
    e.writtenAt k = e.written := by
  rw [writtenAt, enclose, if_neg (by simpa using h)]

theorem Expr.writtenAt_of_lt {e : Expr} {k : Nat} (h : e.strength < k) :
    e.writtenAt k = .symbol .openParen :: (e.written ++ [.symbol .closeParen]) := by
  rw [writtenAt, enclose, if_pos (by simpa using h)]

theorem Stops.head?_ne {k : Nat} {rest : List Token} (h : Stops k rest) {t : Token}
    (ht : t.extends k = true) : rest.head? ≠ some t := by
  intro heq
  rw [h t heq] at ht
  cases ht

/-- After an expression that ends no step is read. -/
theorem readStepAfter_of_stops {k : Nat} {start rest : List Token} (e : Expr)
    (hlength : rest.length < start.length) (h : Stops k rest) :
    readStepAfter e (⟨rest, hlength⟩ : Rest start) = .ok (e, ⟨rest, hlength⟩) := by
  unfold readStepAfter
  split
  · next step more hmore heq =>
    cases heq
    exact absurd rfl (h.head?_ne (t := .symbol (.step step)) rfl)
  · rfl

/-- An expression that is read in parentheses is read in place of an operand. -/
theorem Reads.enclosed {tokens rest : List Token} {e : Expr} {k : Nat} (hstop : Stops k rest)
    (h : Reads (readAtLeast 0 (tokens ++ .symbol .closeParen :: rest)) e
      (.symbol .closeParen :: rest)) :
    Reads (readAtLeast 14 (.symbol .openParen :: (tokens ++ [.symbol .closeParen]) ++ rest)) e
      rest := by
  obtain ⟨hshort, h⟩ := h
  rw [List.cons_append, List.append_assoc, List.singleton_append]
  change Reads (readUnary _) e rest
  unfold readUnary
  dsimp only [Symbol.unary?]
  rw [if_pos rfl, show readComma _ = _ from h]
  exact ⟨_, readStepAfter_of_stops e _ hstop⟩

/-- **Reading alone is enough.** An expression that is read back where it binds just tight enough is
read back from every place. -/
theorem Expr.ReadsBack.of_alone {e : Expr} (m : Nat) (hm : m ≤ e.strength) (hle : m ≤ 14)
    (htight : m < 14 → e.strength = m) (hassign : 1 < m → 2 ≤ e.strength)
    (h : ∀ rest, Stops m rest → Reads (readAtLeast m (e.written ++ rest)) e rest) :
    e.ReadsBack := by
  have hlooser (k : Nat) (hk : k ≤ m) (rest : List Token) (hstop : Stops k rest) :
      Reads (readAtLeast k (e.written ++ rest)) e rest := by
    refine (h rest (hstop.mono hk)).loosenTo hk hle hstop fun _ hone => ?_
    exact e.noAssignment_written (hassign hone) fun op => hstop.head?_ne rfl
  intro k hk rest hstop
  by_cases hkm : k ≤ m
  · rw [writtenAt_of_le (by omega)]
    exact hlooser k hkm rest hstop
  · rw [writtenAt_of_lt (by have := htight (by omega); omega)]
    have hinner := hlooser 0 (Nat.zero_le _) (.symbol .closeParen :: rest)
      (by simp [Stops, Token.extends])
    exact (Reads.enclosed hstop hinner).loosenTo hk (Nat.le_refl _) hstop
      fun _ _ => .of_head? fun name => by simp

/-- An expression of another strength is one operand, and the reading goes on after it. -/
theorem Expr.ReadsBack.goesOn_of_ne {e : Expr} {k : Nat} (h : e.ReadsBack) (hne : e.strength ≠ k)
    (hk : IsChained k) {rest last : List Token} {e' : Expr} (hstop : Stops (k + 1) rest)
    (hrest : Continues k e rest e' last) :
    Reads (readAtLeast k (e.writtenAt k ++ rest)) e' last := by
  have hwritten : e.writtenAt k = e.writtenAt (k + 1) := by
    unfold writtenAt
    congr 1
    rw [decide_eq_decide]
    omega
  have hk' : k + 1 ≤ 14 := by
    unfold IsChained at hk
    omega
  rw [hwritten]
  exact (h (k + 1) hk' rest hstop).goOn hk hrest

/-! ### One form after another -/

/-- The forms that bind tightest are read as operands. -/
theorem Expr.ReadsBack.of_operand {e : Expr} (hm : 14 ≤ e.strength)
    (h : ∀ rest, Stops 14 rest → Reads (readUnary (e.written ++ rest)) e rest) : e.ReadsBack :=
  .of_alone 14 hm (Nat.le_refl _) (fun hlt => absurd hlt (by decide)) (fun _ => by omega) h

theorem Expr.readsBack_number {value : Int} (h : (number value).isWritable = true) :
    (number value).ReadsBack := by
  rw [isWritable, Bool.and_eq_true, decide_eq_true_eq, decide_eq_true_eq] at h
  obtain ⟨n, rfl⟩ := Int.eq_ofNat_of_zero_le h.1
  refine .of_operand (by simp [strength]) fun rest _ => ?_
  change Reads (readUnary (.literal (toString n) :: rest)) _ rest
  unfold readUnary
  rw [readLiteral_toString (Text.length_toString_le (by omega))]
  exact ⟨_, rfl⟩

theorem Expr.readsBack_variable (name : String) : («variable» name).ReadsBack := by
  refine .of_operand (by simp [strength]) fun rest hstop => ?_
  change Reads (readUnary (.name name :: rest)) _ rest
  unfold readUnary
  exact ⟨_, readStepAfter_of_stops _ _ hstop⟩

theorem Expr.readsBack_step (s : Step) (name : String) (before : Bool) :
    (step s name before).ReadsBack := by
  refine .of_operand (by cases before <;> simp [strength]) fun rest _ => ?_
  cases before with
  | true =>
    change Reads (readUnary (.symbol (.step s) :: .name name :: rest)) _ rest
    unfold readUnary
    exact ⟨_, rfl⟩
  | false =>
    change Reads (readUnary (.name name :: .symbol (.step s) :: rest)) _ rest
    unfold readUnary
    exact ⟨_, rfl⟩

theorem Expr.readsBack_unary {op : UnaryOp} {e : Expr} (h : e.ReadsBack) :
    (unary op e).ReadsBack := by
  refine .of_operand (by simp [strength]) fun rest hstop => ?_
  obtain ⟨hshort, h⟩ := h 14 (Nat.le_refl _) rest hstop
  change Reads (readUnary (.symbol op.symbol :: (e.writtenAt 14 ++ rest))) _ rest
  change readUnary _ = _ at h
  unfold readUnary
  cases op <;>
  · dsimp only [UnaryOp.symbol, Symbol.unary?]
    rw [h]
    exact ⟨_, rfl⟩

theorem Expr.readsBack_power {base exponent : Expr} (hb : base.ReadsBack)
    (he : exponent.ReadsBack) : (binary .power base exponent).ReadsBack := by
  refine .of_alone 13 (Nat.le_refl 13) (by decide) (fun _ => rfl)
    (fun _ => by simp [strength, BinaryOp.strength]) fun rest hstop => ?_
  obtain ⟨hshort, he⟩ := he 13 (by decide) rest hstop
  obtain ⟨hshort', hb⟩ := hb 14 (Nat.le_refl _) (.symbol (.binary .power) ::
    (exponent.writtenAt 13 ++ rest)) (by simp [Stops, Token.extends, BinaryOp.strength])
  rw [written, List.append_assoc, List.cons_append]
  change Reads (readTier 0 (base.writtenAt 14 ++
    .symbol (.binary .power) :: (exponent.writtenAt 13 ++ rest))) _ rest
  change readTier 0 _ = _ at he
  rw [readTier] at he ⊢
  rw [readPower, show readUnary _ = _ from hb]
  dsimp only
  rw [he]
  exact ⟨_, rfl⟩

/-- The operands of an operator that groups to the left. -/
theorem BinaryOp.chained {op : BinaryOp} (h : op ≠ .power) :
    IsChained op.strength ∧ op.leftLeast = op.strength ∧ op.rightLeast = op.strength + 1 := by
  unfold IsChained
  cases op <;> first | exact absurd rfl h | decide

/-- **The left spine.** Where the reader comes to the operator, it has read the left operand; with
the right one it goes on from the whole. -/
theorem Expr.goesOn_chained {op : BinaryOp} {left right : Expr} (hop : op ≠ .power)
    (hl : left.GoesOn) (hr : right.ReadsBack) {rest last : List Token} {e' : Expr}
    (hstop : Stops (op.strength + 1) rest)
    (hrest : Continues op.strength (binary op left right) rest e' last) :
    Reads (readAtLeast op.strength ((binary op left right).written ++ rest)) e' last := by
  obtain ⟨hchained, hleft, hright⟩ := BinaryOp.chained hop
  have hle : op.strength + 1 ≤ 14 := by
    unfold IsChained at hchained
    omega
  rw [written, List.append_assoc, List.cons_append, hleft, hright]
  refine hl op.strength hchained _ e' last ?_ (.more rfl (hr _ hle rest hstop) hrest)
  simp [Stops, Token.extends]

theorem Stops.continues {k : Nat} {rest : List Token} (h : Stops k rest) (e : Expr) :
    Continues k e rest e rest :=
  .stop fun op hop heq => h.head?_ne (by simp [Token.extends, heq]) hop

theorem Expr.readsBack_chained {op : BinaryOp} {left right : Expr} (hop : op ≠ .power)
    (hl : left.GoesOn) (hr : right.ReadsBack) : (binary op left right).ReadsBack := by
  obtain ⟨hchained, -, -⟩ := BinaryOp.chained hop
  have hle : op.strength ≤ 14 ∧ (1 < op.strength → 2 ≤ op.strength) := by
    unfold IsChained at hchained
    omega
  exact .of_alone op.strength (Nat.le_refl _) hle.1 (fun _ => rfl) hle.2 fun rest hstop =>
    goesOn_chained hop hl hr (hstop.mono (Nat.le_succ _)) (hstop.continues _)

theorem Expr.readsBack_conditional {condition yes no : Expr} (hc : condition.ReadsBack)
    (hy : yes.ReadsBack) (hn : no.ReadsBack) : (conditional condition yes no).ReadsBack := by
  refine .of_alone 2 (Nat.le_refl 2) (by decide) (fun _ => rfl) (fun _ => Nat.le_refl 2)
    fun rest hstop => ?_
  have htable : ∀ t : Token, t.extends 2 = false → t.extends 1 = false := by
    intro t
    unfold Token.extends
    split
    · next op => cases op <;> decide
    all_goals exact id
  obtain ⟨_, hn⟩ := hn 1 (by decide) rest fun t ht => htable t (hstop t ht)
  obtain ⟨_, hy⟩ := hy 1 (by decide) (.symbol .colon :: (no.writtenAt 1 ++ rest))
    (by simp [Stops, Token.extends])
  obtain ⟨_, hc⟩ := hc 3 (by decide) (.symbol .question ::
    (yes.writtenAt 1 ++ .symbol .colon :: (no.writtenAt 1 ++ rest)))
    (by simp [Stops, Token.extends])
  rw [written, List.append_assoc, List.cons_append, List.append_assoc, List.cons_append]
  change Reads (readConditional (condition.writtenAt 3 ++ .symbol .question ::
    (yes.writtenAt 1 ++ .symbol .colon :: (no.writtenAt 1 ++ rest)))) _ rest
  rw [readConditional, show readTier loosestTier _ = _ from hc]
  dsimp only
  rw [show readAssignment _ = _ from hy]
  dsimp only
  rw [show readAssignment _ = _ from hn]
  exact ⟨_, rfl⟩

theorem Expr.readsBack_assign {op : Option BinaryOp} {name : String} {value : Expr}
    (h : value.ReadsBack) : (assign op name value).ReadsBack := by
  refine .of_alone 1 (Nat.le_refl 1) (by decide) (fun _ => rfl) (fun hlt => absurd hlt (by decide))
    fun rest hstop => ?_
  obtain ⟨hshort, h⟩ := h 1 (by decide) rest hstop
  change Reads (readAssignment (.name name :: .symbol (.assign op) :: (value.writtenAt 1 ++ rest))) _
    rest
  unfold readAssignment
  rw [show readAssignment _ = _ from h]
  exact ⟨_, rfl⟩

/-- **Reading finds what was written**, in every place and with everything that may follow. -/
theorem Expr.readsBack_and_goesOn (e : Expr) (h : e.isWritable = true) :
    e.ReadsBack ∧ e.GoesOn := by
  have hboth {e : Expr} (hback : e.ReadsBack) (hne : ¬ IsChained e.strength) :
      e.ReadsBack ∧ e.GoesOn :=
    ⟨hback, fun k hk _ _ _ hstop hrest =>
      hback.goesOn_of_ne (fun heq => hne (heq ▸ hk)) hk hstop hrest⟩
  induction e with
  | number value => exact hboth (readsBack_number h) (by simp [IsChained, strength])
  | «variable» name => exact hboth (readsBack_variable name) (by simp [IsChained, strength])
  | unary op e ih => exact hboth (readsBack_unary (ih h).1) (by simp [IsChained, strength])
  | binary op left right ihl ihr =>
    rw [isWritable, Bool.and_eq_true] at h
    have hl := ihl h.1
    have hr := ihr h.2
    by_cases hop : op = .power
    · subst hop
      exact hboth (readsBack_power hl.1 hr.1) (by simp [IsChained, strength, BinaryOp.strength])
    · have hback := readsBack_chained hop hl.2 hr.1
      refine ⟨hback, fun k hk rest e' last hstop hrest => ?_⟩
      by_cases hk' : op.strength = k
      · subst hk'
        have hwritten := writtenAt_of_le (Nat.le_refl (binary op left right).strength)
        rw [show op.strength = (binary op left right).strength from rfl, hwritten]
        exact goesOn_chained hop hl.2 hr.1 hstop hrest
      · exact hback.goesOn_of_ne hk' hk hstop hrest
  | conditional condition yes no ihc ihy ihn =>
    rw [isWritable, Bool.and_eq_true, Bool.and_eq_true] at h
    exact hboth (readsBack_conditional (ihc h.1.1).1 (ihy h.1.2).1 (ihn h.2).1)
      (by simp [IsChained, strength])
  | assign op name value ih =>
    rw [isWritable, Bool.and_eq_true] at h
    exact hboth (readsBack_assign (ih h.2).1) (by simp [IsChained, strength])
  | step s name before =>
    exact hboth (readsBack_step s name before) (by cases before <;> simp [IsChained, strength])

/-! ## Texts -/

theorem mem_enclose {needed : Bool} {tokens : List Token} {t : Token}
    (h : t ∈ enclose needed tokens) :
    t ∈ tokens ∨ t = .symbol .openParen ∨ t = .symbol .closeParen := by
  unfold enclose at h
  split at h
  · simp only [List.mem_cons, List.mem_append, List.mem_nil_iff, or_false] at h
    rcases h with rfl | h | rfl
    · exact .inr (.inl rfl)
    · exact .inl h
    · exact .inr (.inr rfl)
  · exact .inl h

theorem isSpelled_of_mem_enclose {needed : Bool} {tokens : List Token}
    (h : ∀ t ∈ tokens, t.IsSpelled) : ∀ t ∈ enclose needed tokens, t.IsSpelled := by
  intro t ht
  rcases mem_enclose ht with ht | rfl | rfl
  · exact h t ht
  · exact show Symbol.openParen ∈ symbols by decide
  · exact show Symbol.closeParen ∈ symbols by decide

/-- Every token of an expression with a text is written as it is read. -/
theorem Expr.isSpelled_written (e : Expr) (h : e.isWritable = true) :
    ∀ t ∈ e.written, t.IsSpelled := by
  induction e with
  | number value =>
    rw [isWritable, Bool.and_eq_true, decide_eq_true_eq, decide_eq_true_eq] at h
    obtain ⟨n, rfl⟩ := Int.eq_ofNat_of_zero_le h.1
    rw [show (number (n : Int)).written = [.literal (toString n)] from rfl]
    exact List.forall_mem_singleton.2 (isSpelled_toString n)
  | «variable» name => simpa [written] using (show Token.IsSpelled (.name name) from h)
  | unary op e ih =>
    have hop : op.symbol ∈ symbols := by cases op <;> decide
    rw [written, List.forall_mem_cons]
    exact ⟨hop, isSpelled_of_mem_enclose (ih h)⟩
  | binary op left right ihl ihr =>
    have hop : Symbol.binary op ∈ symbols := by cases op <;> decide
    rw [isWritable, Bool.and_eq_true] at h
    rw [written, List.forall_mem_append, List.forall_mem_cons]
    exact ⟨isSpelled_of_mem_enclose (ihl h.1), hop, isSpelled_of_mem_enclose (ihr h.2)⟩
  | conditional condition yes no ihc ihy ihn =>
    rw [isWritable, Bool.and_eq_true, Bool.and_eq_true] at h
    rw [written, List.forall_mem_append, List.forall_mem_cons, List.forall_mem_append,
      List.forall_mem_cons]
    exact ⟨isSpelled_of_mem_enclose (ihc h.1.1), show Symbol.question ∈ symbols by decide,
      isSpelled_of_mem_enclose (ihy h.1.2), show Symbol.colon ∈ symbols by decide,
      isSpelled_of_mem_enclose (ihn h.2)⟩
  | assign op name value ih =>
    have hop : ∀ op ∈ assignable, Symbol.assign op ∈ symbols := by decide
    rw [isWritable, Bool.and_eq_true, Bool.and_eq_true, decide_eq_true_eq] at h
    rw [written, List.forall_mem_cons, List.forall_mem_cons]
    exact ⟨h.1.2, hop op h.1.1, isSpelled_of_mem_enclose (ih h.2)⟩
  | step s name before =>
    have hs : Token.IsSpelled (.symbol (.step s)) :=
      show Symbol.step s ∈ symbols by cases s <;> decide
    have hname : Token.IsSpelled (.name name) := h
    cases before <;> simp [written, hs, hname]

/-- An expression has at least one token. -/
theorem Expr.written_ne_nil (e : Expr) : e.written ≠ [] := by
  cases e with
  | step s name before => cases before <;> simp [written]
  | _ => simp [written]

/-- A text with the tokens of an expression writes that expression. -/
theorem Expr.parse_of_tokens {e : Expr} {text : String} (h : e.isWritable = true)
    (htokens : tokens text = .ok e.written) : Expr.parse text = .ok e := by
  have hread := (e.readsBack_and_goesOn h).1 0 (Nat.zero_le _) [] (by simp [Stops])
  rw [writtenAt_of_le (Nat.zero_le _), List.append_nil] at hread
  obtain ⟨hshort, hread⟩ := hread
  change tokens text >>= Expr.ofTokens = .ok e
  rw [htokens]
  change Expr.ofTokens e.written = .ok e
  rw [Expr.ofTokens, show readComma e.written = _ from hread]
  exact e.written_ne_nil

/-- **An expression is read back from its text**: the comma binds loosest, then assignments, which
group to the right, the conditional, the ten tiers that group to the left, powers, which group to
the right, what stands before an operand, and tightest the steps after a name. -/
theorem Expr.parse_text (e : Expr) (h : e.isWritable = true) : Expr.parse e.text = .ok e :=
  parse_of_tokens h (tokens_spaced (e.isSpelled_written h))

/-- An expression with forms of all strengths, some of them in parentheses. -/
def mixedForms : Expr :=
  .assign (some .shiftLeft) "x"
    (.conditional
      (.binary .power (.binary .subtract (.number 7) (.binary .subtract (.variable "a") (.number 0)))
        (.unary .negate (.step .up "b" false)))
      (.binary .comma (.variable "y") (.unary .not (.step .down "c" true)))
      (.assign none "z_1" (.number 18446744073709551616)))

/-- Its parentheses stand around the base of the power, the difference in it and the comma, and
nowhere else. -/
theorem Expr.parse_text_mixedForms :
    mixedForms.isWritable = true ∧
      mixedForms.text =
        "x <<= ( 7 - ( a - 0 ) ) ** - b ++ ? ( y , ! -- c ) : z_1 = 18446744073709551616" ∧
      Expr.parse mixedForms.text = .ok mixedForms :=
  ⟨by decide, by decide, Expr.parse_text mixedForms (by decide)⟩

end VirtualShell.Arith
