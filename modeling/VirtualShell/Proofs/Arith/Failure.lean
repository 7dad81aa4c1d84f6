import Mathlib
import VirtualShell.Proofs.Arith.Literal
import VirtualShell.Proofs.Arith.TwosComplement

/-!
# Failures of arithmetic

Evaluation of a text gives a number or reports an error, unless a numeral gets in its way that
cannot be read: then it breaks off with a fault. No operator brings a fault. So a fault comes from
the text itself or from the value of a variable, and only from a value that is read on the way. Such
a value was there before, since the numerals that are assigned can all be read.

Which values are read depends on the store: operators that are decided by their left operand and
conditionals leave variables out, and a value that is an expression may refer to others. `Consults`
says which variables one expression needs and in which store; `ComesTo` follows the references.

* `Expr.fails_eval_iff` — the errors of one expression that are not those of its operators are those
  of the variables that it consults.
* `Expr.fails_eval_iff_stopsAt` — and those come from the values that evaluation comes to: one is a
  reference too many, or it cannot be read.
* `Expr.ComesTo.get?` — a value that cannot be read was there before.
* **`evaluate_cases`** — what comes of any text in any store.
-/

namespace VirtualShell.Arith

/-- The error is that of an operator. -/
def Error.isOperator : Error → Bool
  | .divisionByZero | .negativeExponent => true
  | .malformed _ | .tooManyReferences | .numeral _ | .foreignDigit => false

theorem Error.isOperator_of_isFault {e : Error} (h : e.isFault = true) : e.isOperator = false := by
  cases e <;> first | rfl | cases h

/-! ## Errors of steps -/

namespace Eval

variable {α β : Type} {x : Eval α} {f : α → Eval β} {vars : Variables} {e : Error}

/-- A computation fails on a store. -/
def Fails (x : Eval α) (vars : Variables) (e : Error) : Prop := (x vars).1 = .error e

/-- A computation does not fail, and what it gives has a property, together with the store that it
leaves. -/
def Leads (x : Eval α) (vars : Variables) (p : α → Variables → Prop) : Prop :=
  ∃ a next, x vars = (.ok a, next) ∧ p a next

/-- Two computations one after the other fail when the first one does, or when the second one does
on the store that the first one leaves. -/
theorem fails_bind_iff : Fails (x >>= f) vars e ↔
    Fails x vars e ∨ x.Leads vars fun a next => Fails (f a) next e := by
  have hbind : (x >>= f) vars = (match x vars with | (r, next) => ExceptT.bindCont f r next) := rfl
  rw [Fails, Fails, Leads, hbind]
  rcases x vars with ⟨cause | a, next⟩
  · constructor
    · rintro ⟨⟩
      exact .inl rfl
    · rintro (⟨⟨⟩⟩ | ⟨_, _, ⟨⟩, -⟩)
      rfl
  · constructor
    · exact fun h => .inr ⟨a, next, rfl, h⟩
    · rintro (h | ⟨_, _, ⟨⟩, h⟩)
      · cases h
      · exact h

theorem not_fails_pure (a : α) : ¬ Fails (pure a : Eval α) vars e := nofun

theorem not_fails_setNumber (name : String) (value : Int) :
    ¬ Fails (setNumber name value) vars e := nofun

/-- What follows cannot fail. -/
theorem fails_bind_of_not (h : ∀ a next, ¬ Fails (f a) next e) :
    Fails (x >>= f) vars e ↔ Fails x vars e := by
  rw [fails_bind_iff, or_iff_left]
  rintro ⟨a, next, -, hf⟩
  exact h a next hf

/-- Giving a variable a number cannot fail. -/
theorem not_fails_assign (name : String) (value : Int) (a : α) :
    ¬ Fails (do setNumber name value; return a : Eval α) vars e := by
  rw [fails_bind_of_not fun _ _ => not_fails_pure a]
  exact not_fails_setNumber name value

/-- Operators bring no other errors. -/
theorem not_fails_apply (he : e.isOperator = false) (op : BinaryOp) (a b : Int) :
    ¬ Fails (liftM (op.apply a b)) vars e := by
  intro h
  have happly : op.apply a b = .error e := h
  cases op <;> simp only [BinaryOp.apply, reduceCtorEq] at happly <;> split at happly <;>
    cases happly <;> cases he

/-- The failures of two computations are brought together when they come from the same causes. -/
theorem fails_bind_of_causes {κ : Type} {cause : κ → Prop} {first : κ → Prop}
    {second : κ → α → Variables → Prop}
    (hx : Fails x vars e ↔ ∃ k, first k ∧ cause k)
    (hf : ∀ a next, Fails (f a) next e ↔ ∃ k, second k a next ∧ cause k) :
    Fails (x >>= f) vars e ↔ ∃ k, (first k ∨ x.Leads vars (second k)) ∧ cause k := by
  simp only [fails_bind_iff, hx, Leads, hf]
  constructor
  · rintro (⟨k, h, hk⟩ | ⟨a, next, hstep, k, h, hk⟩)
    · exact ⟨k, .inl h, hk⟩
    · exact ⟨k, .inr ⟨a, next, hstep, h⟩, hk⟩
  · rintro ⟨k, h | ⟨a, next, hstep, h⟩, hk⟩
    · exact .inl ⟨k, h, hk⟩
    · exact .inr ⟨a, next, hstep, k, h, hk⟩

end Eval

open Eval

/-! ## Variables that are consulted -/

/-- The left operand alone decides what the value is. -/
def BinaryOp.decides (op : BinaryOp) (a : Int) : Bool := op = .and && a = 0 || op = .or && a ≠ 0

/-- The right operand is evaluated unless the left one decides. -/
theorem Expr.eval_binary (valueOf : String → Eval Int) (op : BinaryOp) (left right : Expr) :
    (binary op left right).eval valueOf = (do
      let a ← left.eval valueOf
      if op.decides a then return ofBool (a != 0)
      let b ← right.eval valueOf
      op.apply a b) := by
  by_cases hand : op = .and
  · subst hand
    rw [eval]
    congr 1
    funext a
    by_cases ha : a = 0
    · simp [BinaryOp.decides, ha, ofBool]
    · simp [BinaryOp.decides, BinaryOp.apply, ha, ofBool]
      rfl
  by_cases hor : op = .or
  · subst hor
    rw [eval]
    congr 1
    funext a
    by_cases ha : a = 0
    · simp [BinaryOp.decides, BinaryOp.apply, ha, ofBool]
      rfl
    · simp [BinaryOp.decides, ha, ofBool]
  · rw [eval]
    · simp [BinaryOp.decides, hand, hor]
    · exact hand
    · exact hor

/-- **Evaluation consults a variable** at a store: it needs the value that the variable has there.
The variable and the store stand in `place`. -/
def Expr.Consults (valueOf : String → Eval Int) (place : String × Variables) :
    Expr → Variables → Prop
  | .number _, _ => False
  | .variable name, vars => place = (name, vars)
  | .unary _ e, vars => e.Consults valueOf place vars
  | .binary op left right, vars =>
    left.Consults valueOf place vars ∨ (left.eval valueOf).Leads vars fun a next =>
      op.decides a = false ∧ right.Consults valueOf place next
  | .conditional condition yes no, vars =>
    condition.Consults valueOf place vars ∨ (condition.eval valueOf).Leads vars fun a next =>
      if a ≠ 0 then yes.Consults valueOf place next else no.Consults valueOf place next
  | .assign op name value, vars =>
    value.Consults valueOf place vars ∨ (value.eval valueOf).Leads vars fun _ next =>
      op.isSome = true ∧ place = (name, next)
  | .step _ name _, vars => place = (name, vars)

/-- **An error comes from a variable** that is consulted, unless it is that of an operator. -/
theorem Expr.fails_eval_iff {valueOf : String → Eval Int} {f : Error} (hf : f.isOperator = false)
    (e : Expr) (vars : Variables) : Fails (e.eval valueOf) vars f ↔
      ∃ place, e.Consults valueOf place vars ∧ Fails (valueOf place.1) place.2 f := by
  induction e generalizing vars with
  | number value => simp [Consults, eval, not_fails_pure]
  | «variable» name => simp [Consults, eval]
  | unary op e ih =>
    rw [eval, fails_bind_of_not fun _ _ => not_fails_pure _]
    exact ih vars
  | binary op left right ihl ihr =>
    rw [eval_binary]
    refine fails_bind_of_causes (ihl vars) fun a next => ?_
    cases op.decides a
    · simpa [fails_bind_of_not fun _ _ => not_fails_apply hf op a _] using ihr next
    · simp [not_fails_pure]
  | conditional condition yes no ihc ihy ihn =>
    rw [eval]
    refine fails_bind_of_causes (ihc vars) fun a next => ?_
    split
    · exact ihy next
    · exact ihn next
  | assign op name value ih =>
    cases op with
    | none =>
      rw [eval]
      refine fails_bind_of_causes (ih vars) fun a next => ?_
      simpa using not_fails_assign name a a
    | some op =>
      rw [eval]
      refine fails_bind_of_causes (ih vars) fun a next => ?_
      rw [fails_bind_of_not]
      · simp
      · intro old after
        rw [fails_bind_of_not fun _ _ => not_fails_assign _ _ _]
        exact not_fails_apply hf op old a
  | step s name before =>
    rw [eval, fails_bind_of_not fun _ _ => not_fails_assign _ _ _]
    simp [Consults]

/-! ## The value of a variable -/

/-- The text looks like a numeral. It is read as one, and as nothing else. -/
def looksNumeral (text : String) : Bool := Text.allDigits text || isMarkedHex text.toList

/-- The value is an expression, which may refer to other variables. -/
def isReference (value : String) : Bool :=
  let text := Text.stripBlanks value
  !text.isEmpty && !looksNumeral text

/-- **The expression that the value of a variable writes.** -/
def Expr.ofValue (value : String) : Except Error Expr :=
  let text := Text.stripBlanks value
  if looksNumeral text then (readLiteral text.toList).map .number else Expr.parse text

/-- Nothing is read as zero. -/
theorem Expr.parse_empty : Expr.parse "" = .ok (.number 0) := by
  rw [Expr.parse, tokens, String.toList_empty, tokensFrom]
  rfl

theorem valueThrough_of_get? {vars : Variables} {name value : String}
    (h : vars.get? name = some value) {deeper : Option (String → Eval Int)}
    {valueOf : String → Eval Int} (hdeeper : ∀ followed ∈ deeper, followed = valueOf) :
    valueThrough deeper name vars =
      if isReference value = true ∧ deeper = none then (.error .tooManyReferences, vars)
      else
        match Expr.ofValue value with
        | .ok e => e.eval valueOf vars
        | .error (.malformed _) => (.ok 0, vars)
        | .error f => (.error f, vars) := by
  rw [valueThrough, Eval.get_bind, h, Option.getD_some, isReference, Expr.ofValue]
  generalize Text.stripBlanks value = text
  by_cases hempty : text.isEmpty = true
  · obtain rfl := String.isEmpty_iff.1 hempty
    have hlooks : looksNumeral "" = false := by decide
    rw [if_pos hempty, hlooks, if_neg Bool.false_ne_true, Expr.parse_empty]
    rfl
  by_cases hlooks : looksNumeral text = true
  · rw [if_neg hempty, ← looksNumeral, if_pos hlooks, hlooks]
    rcases readLiteral text.toList with (flaw | _ | _ | _ | cause | _) | n <;> simp <;> rfl
  · rw [if_neg hempty, ← looksNumeral, if_neg hlooks]
    cases deeper with
    | none =>
      rw [if_pos ⟨by simp [hempty, hlooks], rfl⟩]
      rfl
    | some followed =>
      obtain rfl := hdeeper followed rfl
      rw [if_neg (by simp), if_neg hlooks]
      rcases Expr.parse text with (flaw | _ | _ | _ | cause | _) | e <;> rfl

/-- **The value of a variable** is that of the expression that it writes, and zero if it writes
none. -/
theorem valueWithin_of_get? {vars : Variables} {name value : String}
    (h : vars.get? name = some value) (references : Nat) :
    valueWithin references name vars =
      if isReference value = true ∧ references = 0 then (.error .tooManyReferences, vars)
      else
        match Expr.ofValue value with
        | .ok e => e.eval (valueWithin (references - 1)) vars
        | .error (.malformed _) => (.ok 0, vars)
        | .error f => (.error f, vars) := by
  cases references with
  | zero =>
    have hnone : ∀ followed ∈ none, followed = valueWithin 0 := nofun
    change valueThrough none name vars = _
    rw [valueThrough_of_get? h hnone]
    simp
  | succ references =>
    have hsome : ∀ followed ∈ some (valueWithin references), followed = valueWithin references := by
      simp
    rw [valueWithin, valueThrough_of_get? h hsome]
    simp

/-- A variable that has no value counts as zero. -/
theorem valueWithin_of_not_get? {vars : Variables} {name : String} (h : vars.get? name = none)
    (references : Nat) : valueWithin references name vars = (.ok 0, vars) := by
  have hthrough (deeper : Option (String → Eval Int)) :
      valueThrough deeper name vars = (.ok 0, vars) := by
    rw [valueThrough, Eval.get_bind, h, Option.getD_none]
    rfl
  cases references with
  | zero => exact hthrough _
  | succ references => exact hthrough _

/-- A value that is no reference writes a number, or nothing that could be read. -/
theorem Expr.exists_number_of_ofValue {value : String} {e : Expr}
    (h : Expr.ofValue value = .ok e) (hvalue : isReference value ≠ true) : ∃ n, e = .number n := by
  rw [isReference] at hvalue
  rw [Expr.ofValue] at h
  by_cases hlooks : looksNumeral (Text.stripBlanks value) = true
  · rw [if_pos hlooks] at h
    rcases hread : readLiteral (Text.stripBlanks value).toList with cause | n
    · rw [hread] at h
      cases h
    · rw [hread] at h
      cases h
      exact ⟨n, rfl⟩
  · have hempty : Text.stripBlanks value = "" := by simpa [hlooks] using hvalue
    rw [if_neg hlooks, hempty, Expr.parse_empty] at h
    cases h
    exact ⟨0, rfl⟩

/-- A value is read and is none: if it is a reference then references may go that deep, and it
writes no expression. -/
def IsUnreadable (references : Nat) (value : String) (f : Error) : Prop :=
  (isReference value = true → references ≠ 0) ∧ Expr.ofValue value = .error f

/-- **Evaluation stops at a value** with an error: the value is a reference and no more of them may
be followed, or it cannot be read. -/
def StopsAt (references : Nat) (value : String) (f : Error) : Prop :=
  (isReference value = true ∧ references = 0 ∧ f = .tooManyReferences) ∨
    IsUnreadable references value f

theorem stopsAt_iff_of_isFault {f : Error} (hf : f.isFault = true) (references : Nat)
    (value : String) : StopsAt references value f ↔ IsUnreadable references value f := by
  rw [StopsAt, or_iff_right]
  rintro ⟨-, -, rfl⟩
  cases hf

/-- A value that cannot be read is malformed or brings a fault. -/
theorem Expr.isFault_of_ofValue {value : String} {f : Error} (h : Expr.ofValue value = .error f)
    (hform : f.isMalformed = false) : f.isFault = true := by
  rw [Expr.ofValue] at h
  split at h
  · rcases hread : readLiteral (Text.stripBlanks value).toList with cause | n <;> rw [hread] at h <;>
      cases h
    exact isFault_of_readLiteral hread hform
  · exact (Expr.isFault_of_parse h hform).1

theorem stopsAt_tooManyReferences_iff (references : Nat) (value : String) :
    StopsAt references value .tooManyReferences ↔ isReference value = true ∧ references = 0 := by
  have hread : ¬ IsUnreadable references value .tooManyReferences := by
    rintro ⟨-, h⟩
    cases Expr.isFault_of_ofValue h rfl
  simp [StopsAt, hread]

/-- A variable brings an error when its value does, or a variable that its value comes to. -/
theorem fails_valueWithin_iff {f : Error} (hop : f.isOperator = false)
    (hform : f.isMalformed = false) (references : Nat) (name : String) (vars : Variables) :
    Fails (valueWithin references name) vars f ↔
      ∃ value, vars.get? name = some value ∧ (StopsAt references value f ∨
        references ≠ 0 ∧ ∃ e, Expr.ofValue value = .ok e ∧
          Fails (e.eval (valueWithin (references - 1))) vars f) := by
  rcases hget : vars.get? name with _ | value
  · rw [Fails, valueWithin_of_not_get? hget]
    simp
  rw [Fails, valueWithin_of_get? hget]
  simp only [Option.some.injEq, exists_eq_left', StopsAt, IsUnreadable]
  by_cases hdeep : isReference value = true ∧ references = 0
  · simp [hdeep, eq_comm]
  have hstop : ¬ ((isReference value = true ∧ references = 0) ∧ f = .tooManyReferences) :=
    fun h => hdeep h.1
  rw [if_neg hdeep, ← and_assoc, or_iff_right hstop]
  have hread : isReference value = true → references ≠ 0 := not_and.1 hdeep
  rw [and_iff_right hread]
  rcases hvalue : Expr.ofValue value with cause | e
  · have hcounted (flaw : Flaw) : Error.malformed flaw ≠ f := by
      rintro rfl
      cases hform
    cases cause <;> simp [hcounted]
  · have hnumber (h : references = 0) : ¬ Fails (e.eval (valueWithin (references - 1))) vars f := by
      obtain ⟨n, rfl⟩ := Expr.exists_number_of_ofValue hvalue fun hdeeper => hread hdeeper h
      exact not_fails_pure _
    simp only [reduceCtorEq, false_or, Except.ok.injEq, exists_eq_left']
    exact ⟨fun h => ⟨fun hzero => hnumber hzero h, h⟩, And.right⟩

/-- **Evaluation comes to read a value**: it is that of a variable that is consulted, or evaluation
of the value of such a variable comes to read it. Of the references that may be followed there are
then `left` left. -/
inductive Expr.ComesTo :
    (references : Nat) → Expr → Variables → (left : Nat) → (entry : String × String) → Prop
  | consulted {references : Nat} {e : Expr} {vars store : Variables} {name value : String}
      (h : e.Consults (valueWithin references) (name, store) vars)
      (hvalue : store.get? name = some value) :
      ComesTo references e vars references (name, value)
  | followed {references : Nat} {e inner : Expr} {vars store : Variables} {name value : String}
      {left : Nat} {entry : String × String}
      (h : e.Consults (valueWithin (references + 1)) (name, store) vars)
      (hvalue : store.get? name = some value) (hinner : Expr.ofValue value = .ok inner)
      (hdeeper : ComesTo references inner store left entry) :
      ComesTo (references + 1) e vars left entry

/-- **An error comes from a value** that evaluation comes to read and stops at. -/
theorem Expr.fails_eval_iff_stopsAt {f : Error} (hop : f.isOperator = false)
    (hform : f.isMalformed = false) (references : Nat) (e : Expr) (vars : Variables) :
    Fails (e.eval (valueWithin references)) vars f ↔
      ∃ left entry, e.ComesTo references vars left entry ∧ StopsAt left entry.2 f := by
  constructor
  · intro h
    induction references generalizing e vars with
    | zero =>
      obtain ⟨⟨name, store⟩, hconsults, hfails⟩ := (fails_eval_iff hop e vars).1 h
      obtain ⟨value, hget, hvalue | ⟨hzero, -⟩⟩ :=
        (fails_valueWithin_iff hop hform 0 name store).1 hfails
      · exact ⟨_, _, .consulted hconsults hget, hvalue⟩
      · exact absurd rfl hzero
    | succ references ih =>
      obtain ⟨⟨name, store⟩, hconsults, hfails⟩ := (fails_eval_iff hop e vars).1 h
      obtain ⟨value, hget, hvalue | ⟨-, inner, hinner, hfails⟩⟩ :=
        (fails_valueWithin_iff hop hform _ name store).1 hfails
      · exact ⟨_, _, .consulted hconsults hget, hvalue⟩
      · obtain ⟨left, entry, hcomes, hentry⟩ := ih inner store hfails
        exact ⟨left, entry, .followed hconsults hget hinner hcomes, hentry⟩
  · rintro ⟨left, entry, hcomes, hentry⟩
    induction hcomes with
    | consulted h hvalue =>
      exact (fails_eval_iff hop _ _).2
        ⟨_, h, (fails_valueWithin_iff hop hform _ _ _).2 ⟨_, hvalue, .inl hentry⟩⟩
    | followed h hvalue hinner _ ih =>
      exact (fails_eval_iff hop _ _).2 ⟨_, h, (fails_valueWithin_iff hop hform _ _ _).2
        ⟨_, hvalue, .inr ⟨Nat.succ_ne_zero _, _, hinner, ih hentry⟩⟩⟩

/-- **A fault comes from a value** that evaluation comes to read. -/
theorem Expr.fails_eval_valueWithin_iff {f : Error} (hf : f.isFault = true) (references : Nat)
    (e : Expr) (vars : Variables) : Fails (e.eval (valueWithin references)) vars f ↔
      ∃ left entry, e.ComesTo references vars left entry ∧ IsUnreadable left entry.2 f := by
  rw [Expr.fails_eval_iff_stopsAt (Error.isOperator_of_isFault hf) (Error.isMalformed_of_isFault hf)]
  simp only [stopsAt_iff_of_isFault hf]

/-! ## The values that were there before -/

/-- The store has what was there before and the words that were assigned. -/
def IsAfter (vars store : Variables) : Prop := ∃ assigned, store = storeAfter vars assigned

theorem Expr.isAfter_of_eval {vars store next : Variables} {references : Nat} {e : Expr}
    {r : Except Error Int} (hstore : IsAfter vars store)
    (h : e.eval (valueWithin references) store = (r, next)) : IsAfter vars next := by
  obtain ⟨assigned, rfl⟩ := hstore
  rw [e.mirrors_evalWord (mirrors_wordWithin references) assigned] at h
  exact ⟨_, (Prod.mk.inj h).2.symm⟩

theorem Expr.Consults.isAfter {vars store : Variables} {references : Nat} {e : Expr}
    {place : String × Variables} (hstore : IsAfter vars store)
    (h : e.Consults (valueWithin references) place store) : IsAfter vars place.2 := by
  induction e generalizing store with
  | number value => cases h
  | «variable» name =>
    obtain rfl := h
    exact hstore
  | unary op e ih => exact ih hstore h
  | binary op left right ihl ihr =>
    rcases h with h | ⟨a, next, hleft, -, h⟩
    · exact ihl hstore h
    · exact ihr (isAfter_of_eval hstore hleft) h
  | conditional condition yes no ihc ihy ihn =>
    rcases h with h | ⟨a, next, hcondition, h⟩
    · exact ihc hstore h
    · split at h
      · exact ihy (isAfter_of_eval hstore hcondition) h
      · exact ihn (isAfter_of_eval hstore hcondition) h
  | assign op name value ih =>
    rcases h with h | ⟨a, next, hvalue, -, rfl⟩
    · exact ih hstore h
    · exact isAfter_of_eval hstore hvalue
  | step s name before =>
    obtain rfl := h
    exact hstore

/-- What was assigned can be read, so a value that cannot was there before. -/
theorem get?_of_isUnreadable {vars store : Variables} (hstore : IsAfter vars store) {f : Error}
    (hf : f.isFault = true) {references : Nat} {name value : String}
    (hget : store.get? name = some value) (hvalue : IsUnreadable references value f) :
    vars.get? name = some value := by
  obtain ⟨assigned, rfl⟩ := hstore
  have hfails := (fails_valueWithin_iff (Error.isOperator_of_isFault hf)
    (Error.isMalformed_of_isFault hf) references name _).2 ⟨value, hget, .inl (.inr hvalue)⟩
  rw [get?_storeAfter] at hget
  cases hlookup : assigned.lookup name with
  | none => rwa [hlookup] at hget
  | some w =>
    have hthrough (deeper : Option (String → Eval Int)) :
        ¬ Fails (valueThrough deeper name) (storeAfter vars assigned) f := by
      rw [Fails, valueThrough_assigned (w := w) (by rw [get?_storeAfter, hlookup])]
      split
      · rintro ⟨⟩
        cases hf
      · nofun
    cases references with
    | zero => exact absurd hfails (hthrough _)
    | succ references => exact absurd hfails (hthrough _)

theorem Expr.ComesTo.get? {vars store : Variables} {references left : Nat} {e : Expr}
    {entry : String × String} (h : e.ComesTo references store left entry)
    (hstore : IsAfter vars store) {f : Error} (hf : f.isFault = true)
    (hentry : IsUnreadable left entry.2 f) : vars.get? entry.1 = some entry.2 := by
  induction h with
  | consulted h hvalue => exact get?_of_isUnreadable (h.isAfter hstore) hf hvalue hentry
  | followed h _ _ _ ih => exact ih (h.isAfter hstore) hentry

/-! ## Values and texts -/

/-- The value is marked as a hexadecimal literal, and is none. -/
def IsBrokenHexadecimal (value : String) : Prop :=
  let text := (Text.stripBlanks value).toList
  isMarkedHex text = true ∧ ¬ IsLiteral text

/-- A text of digits is a literal unless one of them is of another script. -/
theorem isLiteral_of_allDigits {text : String} (h : Text.allDigits text = true) :
    IsLiteral text.toList ∨ ∃ c ∈ text.toList, isForeignDigit c = true := by
  rw [Text.allDigits, Bool.and_eq_true, List.all_eq_true] at h
  obtain ⟨hne, hdigits⟩ := h
  by_cases hforeign : ∃ c ∈ text.toList, isForeignDigit c = true
  · exact .inr hforeign
  · refine .inl (.decimal ⟨by simpa using hne, fun c hc => ?_⟩)
    by_contra hascii
    exact hforeign ⟨c, hc, by simp [isForeignDigit, hdigits c hc, hascii]⟩

/-- **A value brings a fault** only where its digits do, or as a broken hexadecimal literal. -/
theorem Expr.ofValue_error {value : String} {f : Error} (h : Expr.ofValue value = .error f)
    (hf : f.isFault = true) : HasFaultyDigits value.toList ∨ IsBrokenHexadecimal value := by
  have hwithin : (Text.stripBlanks value).toList <:+: value.toList := by
    rw [Text.stripBlanks, String.toList_ofList]
    exact Text.strip_infix _
  rw [Expr.ofValue] at h
  rw [IsBrokenHexadecimal]
  generalize Text.stripBlanks value = text at h hwithin
  have hliteral (hread : IsLiteral text.toList) (herror : readLiteral text.toList = .error f) :
      HasFaultyDigits value.toList := by
    have hlong : HasLongRun text.toList := hread.hasLongRun herror hf
    exact .inr (hlong.mono hwithin)
  by_cases hlooks : looksNumeral text = true
  · rw [if_pos hlooks] at h
    have herror : readLiteral text.toList = .error f := by
      rcases hread : readLiteral text.toList with cause | n <;> rw [hread] at h <;> cases h
      rfl
    by_cases hread : IsLiteral text.toList
    · exact .inl (hliteral hread herror)
    rw [looksNumeral, Bool.or_eq_true] at hlooks
    rcases hlooks with hdigits | hmark
    · obtain ⟨c, hc, hforeign⟩ := (isLiteral_of_allDigits hdigits).resolve_left hread
      exact .inl (.inl ⟨c, hwithin.subset hc, hforeign⟩)
    · exact .inr ⟨hmark, hread⟩
  · rw [if_neg hlooks] at h
    exact .inl ((Expr.hasFaultyDigits_of_parse h hf).mono hwithin)

/-! ## Whole texts -/

theorem Expr.range_of_eval {e : Expr} {vars : Variables} {references : Nat} {value : Int}
    (h : (e.eval (valueWithin references) vars).1 = .ok value) :
    -2 ^ 63 ≤ value ∧ value < 2 ^ 63 := by
  have heval : e.eval (valueWithin references) vars =
      ((e.evalWord (wordWithin vars references) []).1.map BitVec.toInt,
        storeAfter vars (e.evalWord (wordWithin vars references) []).2) :=
    e.mirrors_evalWord (mirrors_wordWithin references) []
  rw [heval] at h
  rcases hword : (e.evalWord (wordWithin vars references) []).1 with cause | w <;>
    rw [hword] at h <;> cases h
  exact ⟨BitVec.le_toInt w, BitVec.toInt_lt⟩

theorem evaluate_of_parse_error {text : String} {f : Error} (h : Expr.parse text = .error f)
    (vars : Variables) : evaluate text vars = (.error f, vars) := by
  rw [evaluate, h]
  rfl

theorem evaluate_of_parse {text : String} {e : Expr} (h : Expr.parse text = .ok e) :
    evaluate text = e.eval (valueWithin maxReferences) := by
  rw [evaluate, h, Eval.ok_bind]

/-- **What comes of a text.** What it gives is in the range of the words. It breaks off with a fault
exactly when there is one in the text, or in the value that a variable had and that evaluation comes
to read; so there are digits that bring faults, or a broken hexadecimal literal. Any other value
that is malformed counts as zero, and evaluation goes on. -/
theorem evaluate_cases (text : String) (vars : Variables) :
    (∀ value, (evaluate text vars).1 = .ok value → -2 ^ 63 ≤ value ∧ value < 2 ^ 63) ∧
    (∀ f, f.isFault = true → ((evaluate text vars).1 = .error f ↔
      Expr.parse text = .error f ∨ ∃ e left name value, Expr.parse text = .ok e ∧
        e.ComesTo maxReferences vars left (name, value) ∧ vars.get? name = some value ∧
        IsUnreadable left value f)) ∧
    (∀ f, f.isFault = true → (evaluate text vars).1 = .error f →
      HasFaultyDigits text.toList ∨ ∃ name value, vars.get? name = some value ∧
        (HasFaultyDigits value.toList ∨ IsBrokenHexadecimal value)) ∧
    ∀ references name value flaw, vars.get? name = some value →
      IsUnreadable references value (.malformed flaw) →
      valueWithin references name vars = (.ok 0, vars) := by
  have hfault (f : Error) (hf : f.isFault = true) : (evaluate text vars).1 = .error f ↔
      Expr.parse text = .error f ∨ ∃ e left name value, Expr.parse text = .ok e ∧
        e.ComesTo maxReferences vars left (name, value) ∧ vars.get? name = some value ∧
        IsUnreadable left value f := by
    rcases hparse : Expr.parse text with cause | e
    · rw [evaluate_of_parse_error hparse]
      simp
    · rw [evaluate_of_parse hparse]
      constructor
      · intro h
        obtain ⟨left, ⟨name, value⟩, hcomes, hvalue⟩ :=
          (Expr.fails_eval_valueWithin_iff hf maxReferences e vars).1 h
        exact .inr ⟨e, left, name, value, rfl, hcomes, hcomes.get? ⟨[], rfl⟩ hf hvalue, hvalue⟩
      · rintro (⟨⟨⟩⟩ | ⟨_, left, name, value, ⟨⟩, hcomes, -, hvalue⟩)
        exact (Expr.fails_eval_valueWithin_iff hf maxReferences e vars).2
          ⟨left, (name, value), hcomes, hvalue⟩
  refine ⟨fun value h => ?_, hfault, fun f hf h => ?_, fun references name value flaw hget h => ?_⟩
  · rcases hparse : Expr.parse text with cause | e
    · rw [evaluate_of_parse_error hparse] at h
      cases h
    · rw [evaluate_of_parse hparse] at h
      exact Expr.range_of_eval h
  · rcases (hfault f hf).1 h with h | ⟨e, left, name, value, -, -, hget, -, h⟩
    · exact .inl (Expr.hasFaultyDigits_of_parse h hf)
    · exact .inr ⟨name, value, hget, Expr.ofValue_error h hf⟩
  · rw [valueWithin_of_get? hget, if_neg (not_and.2 h.1), h.2]

/-- The mark of a hexadecimal literal without any digit, and an octal literal with a digit that is
none. -/
def brokenLiterals : Variables := .ofGlobals [("x", "0x"), ("y", "09")] []

/-- The mark brings a fault where the variable is consulted; the other literal counts as zero. -/
theorem evaluate_cases_brokenLiterals :
    (evaluate "x" brokenLiterals).1 = .error (.numeral (.malformed 16 "")) ∧
      valueWithin maxReferences "y" brokenLiterals = (.ok 0, brokenLiterals) := by
  obtain ⟨-, hfault, -, hzero⟩ := evaluate_cases "x" brokenLiterals
  have hx : brokenLiterals.get? "x" = some "0x" := by decide
  have hy : brokenLiterals.get? "y" = some "09" := by decide
  have hparse : Expr.parse "x" = .ok (.variable "x") := Expr.parse_name (by decide)
  have hvalue : IsUnreadable maxReferences "0x" (.numeral (.malformed 16 "")) :=
    ⟨by decide, by decide⟩
  constructor
  · exact (hfault _ rfl).2
      (.inr ⟨_, maxReferences, "x", "0x", hparse, .consulted rfl hx, hx, hvalue⟩)
  · exact hzero maxReferences "y" "09" (.badDigit "09") hy ⟨by decide, by decide⟩

/-- **Not every failure is reported.** The mark of a hexadecimal literal, alone in a variable, is
neither counted as zero nor reported as an error. -/
theorem exists_unreported : ¬ ∀ (text : String) (vars : Variables),
    (∃ value, (evaluate text vars).1 = .ok value) ∨
      ∃ e : Error, e.isFault = false ∧ (evaluate text vars).1 = .error e := by
  intro h
  have hx : brokenLiterals.get? "x" = some "0x" := by decide
  have hvalue : Expr.ofValue "0x" = .error (.numeral (.malformed 16 "")) := by decide
  have heval : (evaluate "x" brokenLiterals).1 = .error (.numeral (.malformed 16 "")) := by
    rw [evaluate_of_parse (Expr.parse_name (by decide)), Expr.eval, valueWithin_of_get? hx, hvalue,
      if_neg (by decide)]
  rcases h "x" brokenLiterals with ⟨value, hok⟩ | ⟨e, he, herror⟩
  · rw [heval] at hok
    cases hok
  · rw [heval] at herror
    cases herror
    cases he

end VirtualShell.Arith
