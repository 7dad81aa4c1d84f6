import Mathlib
import VirtualShell.Proofs.Step.Arithmetic
import VirtualShell.Proofs.Arith.Precedence

/-!
# Arithmetic on words

Evaluation works on integers, cuts some of its results to sixty-four bits and leaves others as they
are. Here is a second evaluator that works on words of sixty-four bits and on nothing else. A
variable that was assigned holds a word there; only the variables of the store it starts from are
texts. Both agree, with a word read as a signed number in two's complement.

So no operation leaves the range of the words. A variable is assigned the decimal numeral of a word
and gives that word back when it is read, also a negative one, which is read as an expression.

* `BinaryOp.apply_toInt` — an operator on numbers is the operator on words.
* `valueThrough_assigned` — what was assigned is read back.
* `Mirrors` — the relation between the two evaluators, kept from step to step.
* **`Expr.eval_eq_evalWord`** — the two agree on every expression, and what that says about the
  store.
-/

namespace VirtualShell.Arith

/-! ## Operators on words -/

/-- A word of sixty-four bits. -/
abbrev Word := BitVec 64

/-- Truth as a word. -/
def truth (b : Bool) : Word := if b then 1 else 0

/-- **An operator with one operand**, on words. -/
def UnaryOp.onWord (op : UnaryOp) (a : Word) : Word :=
  match op with
  | .negate => -a
  | .identity => a
  | .not => truth (a == 0)
  | .complement => ~~~a

/-- **An operator with two operands**, on words: shift counts are taken modulo sixty-four, the right
shift keeps the sign, comparisons are signed, the quotient is cut toward zero and the remainder has
the sign of the dividend. -/
def BinaryOp.onWords (op : BinaryOp) (a b : Word) : Except Error Word :=
  match op with
  | .comma => .ok b
  | .or => .ok (truth (a != 0 || b != 0))
  | .and => .ok (truth (a != 0 && b != 0))
  | .bitOr => .ok (a ||| b)
  | .bitXor => .ok (a ^^^ b)
  | .bitAnd => .ok (a &&& b)
  | .equal => .ok (truth (a == b))
  | .notEqual => .ok (truth (a != b))
  | .less => .ok (truth (a.slt b))
  | .lessEqual => .ok (truth (a.sle b))
  | .greater => .ok (truth (b.slt a))
  | .greaterEqual => .ok (truth (b.sle a))
  | .shiftLeft => .ok (a <<< (b.toNat % 64))
  | .shiftRight => .ok (a.sshiftRight (b.toNat % 64))
  | .add => .ok (a + b)
  | .subtract => .ok (a - b)
  | .multiply => .ok (a * b)
  | .divide => if b = 0 then .error .divisionByZero else .ok (a.sdiv b)
  | .remainder => if b = 0 then .error .divisionByZero else .ok (a.srem b)
  | .power => if b.slt 0 then .error .negativeExponent else .ok (a ^ b.toNat)

/-- **Wrapping** cuts to the last sixty-four bits. -/
theorem wrap_eq_toInt (n : Int) : wrap n = (BitVec.ofInt 64 n).toInt := by
  rw [wrap, BitVec.toInt_ofInt]
  rfl

theorem wrap_toInt (a : Word) : wrap a.toInt = a.toInt := by
  rw [wrap_eq_toInt, BitVec.ofInt_toInt]

theorem ofBool_eq_toInt (b : Bool) : ofBool b = (truth b).toInt := by cases b <;> rfl

theorem toInt_eq_zero {a : Word} : a.toInt = 0 ↔ a = 0 :=
  ⟨fun h => BitVec.eq_of_toInt_eq h, fun h => by rw [h]; rfl⟩

theorem onBits_eq_toInt (f : Word → Word → Word) (a b : Word) :
    onBits f a.toInt b.toInt = (f a b).toInt := by
  rw [onBits, BitVec.ofInt_toInt, BitVec.ofInt_toInt]

theorem shiftCount_toInt (b : Word) : shiftCount b.toInt = b.toNat % 64 := by
  rw [shiftCount, BitVec.toInt_eq_toNat_cond]
  split <;> omega

theorem ofInt_emod_wordSize (n : Int) : BitVec.ofInt 64 (n % wordSize) = BitVec.ofInt 64 n := by
  apply BitVec.eq_of_toInt_eq
  rw [BitVec.toInt_ofInt, BitVec.toInt_ofInt]
  exact Int.emod_bmod n wordSize

/-- **Squaring** computes the power. -/
theorem ofInt_powerMod (base : Int) (exponent : Nat) :
    BitVec.ofInt 64 (powerMod base exponent) = BitVec.ofInt 64 base ^ exponent := by
  fun_induction powerMod base exponent with
  | case1 base => rfl
  | case2 base exponent hne square hodd ih =>
    rw [ofInt_emod_wordSize, BitVec.ofInt_mul, ih, ofInt_emod_wordSize, BitVec.ofInt_mul, ← pow_two,
      ← pow_mul, ← pow_succ']
    congr 1
    omega
  | case3 base exponent hne square heven ih =>
    rw [ih, ofInt_emod_wordSize, BitVec.ofInt_mul, ← pow_two, ← pow_mul]
    congr 1
    omega

theorem toInt_beq (a b : Word) : (a.toInt == b.toInt) = (a == b) := by
  rw [Bool.beq_eq_decide_eq, Bool.beq_eq_decide_eq, decide_eq_decide, BitVec.toInt_inj]

theorem toInt_bne_zero (a : Word) : (a.toInt != 0) = (a != 0) :=
  congrArg not (toInt_beq a 0)

/-- An operator with one operand on numbers is the one on words. -/
theorem UnaryOp.apply_toInt (op : UnaryOp) (a : Word) : op.apply a.toInt = (op.onWord a).toInt := by
  cases op with
  | negate => rw [apply, wrap_eq_toInt, BitVec.ofInt_neg, BitVec.ofInt_toInt, onWord]
  | identity => rfl
  | not => rw [apply, onWord, ← ofBool_eq_toInt, ← toInt_beq]; rfl
  | complement =>
    have hlt := a.isLt
    rw [apply, onWord, BitVec.toInt_eq_toNat_cond, BitVec.toInt_eq_toNat_cond, BitVec.toNat_not]
    split_ifs <;> omega

theorem ofBool_slt (a b : Word) : ofBool (a.toInt < b.toInt) = (truth (a.slt b)).toInt := by
  rw [BitVec.slt_eq_decide, ofBool_eq_toInt]

theorem ofBool_sle (a b : Word) : ofBool (a.toInt ≤ b.toInt) = (truth (a.sle b)).toInt := by
  rw [BitVec.sle_eq_decide, ofBool_eq_toInt]

theorem wrap_shiftLeft (a : Word) (n : Nat) : wrap (a.toInt * Int.pow 2 n) = (a <<< n).toInt := by
  have htwo : BitVec.ofInt 64 (Int.pow 2 n) = BitVec.twoPow 64 n := by
    apply BitVec.eq_of_toNat_eq
    rw [BitVec.toNat_twoPow]
    change (BitVec.ofInt 64 ((2 : Int) ^ n)).toNat = _
    rw [BitVec.toNat_ofInt]
    norm_cast
  rw [wrap_eq_toInt, BitVec.ofInt_mul, BitVec.ofInt_toInt, htwo, BitVec.shiftLeft_eq_mul_twoPow]

theorem slt_zero (a : Word) : a.slt 0 = true ↔ a.toInt < 0 := by
  rw [BitVec.slt_eq_decide, decide_eq_true_iff]
  rfl

/-- **A word that is not negative** is the same number without a sign. -/
theorem toNat_toInt {a : Word} (h : ¬ a.toInt < 0) : a.toInt.toNat = a.toNat := by
  rw [BitVec.toInt_eq_toNat_cond] at h ⊢
  split_ifs at h ⊢ <;> omega

/-- **An operator with two operands** on numbers is the one on words, and fails as it does. -/
theorem BinaryOp.apply_toInt (op : BinaryOp) (a b : Word) :
    op.apply a.toInt b.toInt = (op.onWords a b).map BitVec.toInt := by
  cases op with
  | comma => rfl
  | or => rw [apply, toInt_bne_zero, toInt_bne_zero, ofBool_eq_toInt]; rfl
  | and => rw [apply, toInt_bne_zero, toInt_bne_zero, ofBool_eq_toInt]; rfl
  | bitOr => exact congrArg _ (onBits_eq_toInt (· ||| ·) a b)
  | bitXor => exact congrArg _ (onBits_eq_toInt (· ^^^ ·) a b)
  | bitAnd => exact congrArg _ (onBits_eq_toInt (· &&& ·) a b)
  | equal => rw [apply, toInt_beq, ofBool_eq_toInt]; rfl
  | notEqual => rw [apply, bne, toInt_beq, ofBool_eq_toInt]; rfl
  | less => exact congrArg _ (ofBool_slt a b)
  | lessEqual => exact congrArg _ (ofBool_sle a b)
  | greater => exact congrArg _ (ofBool_slt b a)
  | greaterEqual => exact congrArg _ (ofBool_sle b a)
  | shiftLeft => rw [apply, shiftCount_toInt, wrap_shiftLeft]; rfl
  | shiftRight => rw [apply, shiftCount_toInt, ← BitVec.toInt_sshiftRight]; rfl
  | add => exact congrArg _ (BitVec.toInt_add a b).symm
  | subtract => exact congrArg _ BitVec.toInt_sub.symm
  | multiply => exact congrArg _ (BitVec.toInt_mul a b).symm
  | divide =>
    rw [apply, onWords, if_congr toInt_eq_zero rfl rfl]
    split
    · rfl
    · exact congrArg _ (BitVec.toInt_sdiv a b).symm
  | remainder =>
    rw [apply, onWords, if_congr toInt_eq_zero rfl rfl]
    split
    · rfl
    · rw [← BitVec.toInt_srem, wrap_toInt]
      rfl
  | power =>
    rw [apply, onWords, if_congr (slt_zero b) rfl rfl]
    split
    · rfl
    · next h =>
      rw [wrap_eq_toInt, ofInt_powerMod, BitVec.ofInt_toInt, toNat_toInt h]
      rfl

-- the one quotient that is out of range wraps around
example : BinaryOp.apply .divide (-2 ^ 63) (-1) = .ok (-2 ^ 63) := by decide

/-! ## Reading an assigned variable back -/

theorem stripBlanks_of_isBlank {text : String}
    (h : ∀ c ∈ text.toList, Text.isBlank c = false) : Text.stripBlanks text = text := by
  have hdrop (chars : List Char) (hchars : ∀ c ∈ chars, Text.isBlank c = false) :
      chars.dropWhile Text.isBlank = chars := by
    cases chars with
    | nil => rfl
    | cons c chars => rw [List.dropWhile_cons_of_neg (by simp [hchars c List.mem_cons_self])]
  rw [Text.stripBlanks, Text.strip, hdrop _ h, hdrop _ (by simpa using h), List.reverse_reverse,
    String.ofList_toList]

/-- What is done with the store is done with the store that is there. -/
theorem Eval.get_bind {α : Type} (f : Variables → Eval α) (vars : Variables) :
    (get >>= f) vars = f vars vars := rfl

theorem Eval.ok_bind {α β : Type} (a : α) (f : α → Eval β) :
    (liftM (Except.ok a : Except Error α) >>= f) = f a := rfl

/-- The numeral of a number that is not negative counts as that number. -/
theorem valueThrough_toString {vars : Variables} {name : String} {n : Nat}
    (h : vars.get? name = some (toString n)) (hn : n ≤ 2 ^ 64)
    (deeper : Option (String → Eval Int)) :
    valueThrough deeper name vars = (.ok (wrap n), vars) := by
  have hdigits : ∀ c ∈ (toString n).toList, Text.isDecimal c = true := fun _ hc =>
    Text.isDecimal_of_isDigit (Text.isDigit_of_mem_toString hc)
  have hstrip : Text.stripBlanks (toString n) = toString n :=
    stripBlanks_of_isBlank fun c hc => Text.isBlank_of_isDecimal (hdigits c hc)
  have hempty : (toString n).isEmpty = false := by simp
  have hall : Text.allDigits (toString n) = true := by
    rw [Text.allDigits, hempty, Bool.not_false, Bool.true_and, List.all_eq_true]
    exact fun c hc => by rw [Text.isDigit, hdigits c hc, Bool.true_or]
  rw [valueThrough, Eval.get_bind, h, Option.getD_some, hstrip, hempty, if_neg Bool.false_ne_true,
    hall, Bool.true_or, if_pos rfl, readLiteral_toString (Text.length_toString_le hn)]
  rfl

/-- The numeral of a negative number counts as that number where it may be read as an expression. -/
theorem valueThrough_negative {vars : Variables} {name : String} {n : Nat}
    (h : vars.get? name = some ("-" ++ toString n)) (hn : n ≤ 2 ^ 64)
    (deeper : Option (String → Eval Int)) :
    valueThrough deeper name vars =
      (if deeper.isNone then .error .tooManyReferences else .ok (wrap (-wrap n)), vars) := by
  have hlist : ("-" ++ toString n).toList = '-' :: (toString n).toList := by
    rw [String.toList_append]
    rfl
  have hstrip : Text.stripBlanks ("-" ++ toString n) = "-" ++ toString n := by
    refine stripBlanks_of_isBlank fun c hc => ?_
    rw [hlist, List.mem_cons] at hc
    rcases hc with rfl | hc
    · decide
    · exact Text.isBlank_of_isDecimal (Text.isDecimal_of_isDigit (Text.isDigit_of_mem_toString hc))
  have hempty : ("-" ++ toString n).isEmpty = false := by
    rw [← Bool.not_eq_true, String.isEmpty_iff, ← String.toList_eq_nil_iff, hlist]
    exact List.cons_ne_nil _ _
  have hall : Text.allDigits ("-" ++ toString n) = false := by
    rw [Text.allDigits, hlist, List.all_cons, show Text.isDigit '-' = false by decide]
    simp
  have hhex : isMarkedHex ('-' :: (toString n).toList) = false := rfl
  have hparse : Expr.parse ("-" ++ toString n) = .ok (.unary .negate (.number n)) := by
    refine Expr.parse_of_tokens ?_ (tokens_negative n)
    simp only [Expr.isWritable, Bool.and_eq_true, decide_eq_true_eq]
    omega
  rw [valueThrough, Eval.get_bind, h, Option.getD_some, hstrip, hempty, if_neg Bool.false_ne_true,
    hall, hlist, hhex, Bool.or_self, if_neg Bool.false_ne_true]
  cases deeper with
  | none => rfl
  | some valueOf =>
    dsimp only
    rw [hparse]
    rfl

/-- A negation may wrap before and after. -/
theorem wrap_neg_wrap (n : Int) : wrap (-wrap n) = wrap (-n) := by
  rw [wrap_eq_toInt, wrap_eq_toInt n, BitVec.ofInt_neg, BitVec.ofInt_toInt, ← BitVec.ofInt_neg,
    ← wrap_eq_toInt]

/-- **What was assigned is read back.** Where references may go no deeper a negative number cannot
be read. -/
theorem valueThrough_assigned {vars : Variables} {name : String} {w : Word}
    (h : vars.get? name = some (toString w.toInt)) (deeper : Option (String → Eval Int)) :
    valueThrough deeper name vars =
      (if w.slt 0 && deeper.isNone then .error .tooManyReferences else .ok w.toInt, vars) := by
  have hrange := And.intro (BitVec.le_toInt w) (BitVec.toInt_lt (x := w))
  by_cases hneg : w.toInt < 0
  · obtain ⟨n, hn⟩ := Int.eq_negSucc_of_lt_zero hneg
    have hvalue : wrap (-wrap ((n + 1 : Nat) : Int)) = w.toInt := by
      rw [wrap_neg_wrap, show -((n + 1 : Nat) : Int) = Int.negSucc n from rfl, ← hn, wrap_toInt]
    rw [hn] at h hrange
    rw [valueThrough_negative (n := n + 1) h (by omega), hvalue, (slt_zero w).2 hneg, Bool.true_and]
  · obtain ⟨n, hn⟩ := Int.eq_ofNat_of_zero_le (Int.not_lt.1 hneg)
    have hpos : w.slt 0 = false := Bool.eq_false_iff.2 (mt (slt_zero w).1 hneg)
    rw [hn] at h hrange
    rw [valueThrough_toString (n := n) h (by omega), ← hn, wrap_toInt, hpos, Bool.false_and,
      if_neg Bool.false_ne_true]

/-! ## Evaluation on words -/

/-- The words that were assigned, the last one first. -/
abbrev Assigned := List (String × Word)

/-- **The store after some assignments.** Each word is kept as the decimal numeral of the signed
number. -/
def storeAfter (vars : Variables) (assigned : Assigned) : Variables :=
  assigned.foldr (fun entry vars => vars.set entry.1 (toString entry.2.toInt)) vars

/-- A computation that assigns words. -/
abbrev WordEval := ExceptT Error (StateM Assigned)

/-- Assign a word. -/
def setWord (name : String) (w : Word) : WordEval Unit := modify ((name, w) :: ·)

/-- **The value of an expression** in words. -/
def Expr.evalWord (valueOf : String → WordEval Word) : Expr → WordEval Word
  | .number value => pure (.ofInt 64 value)
  | .variable name => valueOf name
  | .unary op e => do
    let a ← e.evalWord valueOf
    return op.onWord a
  | .binary .and left right => do
    let a ← left.evalWord valueOf
    if a = 0 then return 0
    let b ← right.evalWord valueOf
    return truth (b != 0)
  | .binary .or left right => do
    let a ← left.evalWord valueOf
    if a ≠ 0 then return 1
    let b ← right.evalWord valueOf
    return truth (b != 0)
  | .binary op left right => do
    let a ← left.evalWord valueOf
    let b ← right.evalWord valueOf
    op.onWords a b
  | .conditional condition yes no => do
    let a ← condition.evalWord valueOf
    if a ≠ 0 then yes.evalWord valueOf else no.evalWord valueOf
  | .assign none name value => do
    let a ← value.evalWord valueOf
    setWord name a
    return a
  | .assign (some op) name value => do
    let a ← value.evalWord valueOf
    let old ← valueOf name
    let new ← op.onWords old a
    setWord name new
    return new
  | .step s name before => do
    let old ← valueOf name
    let new := match s with | .up => old + 1 | .down => old - 1
    setWord name new
    return if before then new else old

/-- The value of a variable that is some text in the store from before. -/
def wordOfText (deeper : Option (String → WordEval Word)) (text : String) : WordEval Word :=
  if text.isEmpty then return 0
  else if Text.allDigits text || isMarkedHex text.toList then
    match readLiteral text.toList with
    | .ok value => return .ofInt 64 value
    | .error (.malformed _) => return 0
    | .error e => throw e
  else
    match deeper with
    | none => throw .tooManyReferences
    | some valueOf =>
      match Expr.parse text with
      | .ok e => e.evalWord valueOf
      | .error (.malformed _) => return 0
      | .error e => throw e

/-- The value of a variable. It is the word that was assigned last; only a variable without one
counts as a text. A negative word is written as an expression, so it counts as a reference. -/
def wordThrough (vars : Variables) (deeper : Option (String → WordEval Word)) (name : String) :
    WordEval Word := do
  match (← get).lookup name with
  | some w => if w.slt 0 && deeper.isNone then throw .tooManyReferences else return w
  | none => wordOfText deeper (Text.stripBlanks ((vars.get? name).getD ""))

/-- The value of a variable, with a bound on how deep references may still go. -/
def wordWithin (vars : Variables) : (references : Nat) → (name : String) → WordEval Word
  | 0 => wordThrough vars none
  | references + 1 => wordThrough vars (some (wordWithin vars references))

/-- The store gives a variable the word that was assigned last, or what it had before. -/
theorem get?_storeAfter (vars : Variables) (assigned : Assigned) (name : String) :
    (storeAfter vars assigned).get? name =
      match assigned.lookup name with
      | some w => some (toString w.toInt)
      | none => vars.get? name := by
  induction assigned with
  | nil => rfl
  | cons entry assigned ih =>
    obtain ⟨other, w⟩ := entry
    rw [storeAfter, List.foldr_cons, ← storeAfter, Variables.get?_set, List.lookup_cons]
    by_cases hname : other = name
    · subst hname
      simp
    · rw [if_neg hname, ih, beq_false_of_ne (Ne.symm hname)]

/-! ## The two evaluators agree -/

section

variable {α β γ δ : Type} {vars : Variables}

/-- **The computation on numbers does what the one on words does**, whatever was assigned before:
the same result up to `read`, or the same failure, and the same assignments. -/
def Mirrors (vars : Variables) (read : β → α) (x : Eval α) (y : WordEval β) : Prop :=
  ∀ assigned, x (storeAfter vars assigned) =
    ((y assigned).1.map read, storeAfter vars (y assigned).2)

namespace Mirrors

theorem pure (read : β → α) (b : β) : Mirrors vars read (Pure.pure (read b)) (Pure.pure b) :=
  fun _ => rfl

theorem lift (read : β → α) (r : Except Error β) :
    Mirrors vars read (liftM (r.map read)) (liftM r) := fun _ => rfl

theorem set (name : String) (w : Word) :
    Mirrors vars id (setNumber name w.toInt) (setWord name w) := fun _ => rfl

theorem bind {read : β → α} {read' : δ → γ} {x : Eval α} {y : WordEval β} {f : α → Eval γ}
    {g : β → WordEval δ} (h : Mirrors vars read x y)
    (hnext : ∀ b, Mirrors vars read' (f (read b)) (g b)) :
    Mirrors vars read' (x >>= f) (y >>= g) := by
  intro assigned
  have hx : (x >>= f) (storeAfter vars assigned) =
    (match x (storeAfter vars assigned) with | (r, next) => ExceptT.bindCont f r next) := rfl
  have hy : (y >>= g) assigned = (match y assigned with | (r, next) => ExceptT.bindCont g r next) :=
    rfl
  rw [hx, hy, h assigned]
  rcases y assigned with ⟨_ | b, next⟩
  · rfl
  · exact hnext b next

theorem ite {read : β → α} {x x' : Eval α} {y y' : WordEval β} {p q : Prop} [Decidable p]
    [Decidable q] (hpq : p ↔ q) (h : Mirrors vars read x y) (h' : Mirrors vars read x' y') :
    Mirrors vars read (if p then x else x') (if q then y else y') := by
  by_cases hq : q
  · rwa [if_pos (hpq.2 hq), if_pos hq]
  · rwa [if_neg (mt hpq.1 hq), if_neg hq]

end Mirrors

open Mirrors

/-- An expression has the same value in both evaluators if its variables have. -/
theorem Expr.mirrors_evalWord {valueOf : String → Eval Int} {wordOf : String → WordEval Word}
    (h : ∀ name, Mirrors vars BitVec.toInt (valueOf name) (wordOf name)) (e : Expr) :
    Mirrors vars BitVec.toInt (e.eval valueOf) (e.evalWord wordOf) := by
  fun_induction Expr.eval valueOf e with
  | case1 value =>
    rw [wrap_eq_toInt]
    exact .pure _ _
  | case2 name => exact h name
  | case3 op e ih =>
    refine ih.bind fun a => ?_
    rw [op.apply_toInt]
    exact .pure _ _
  | case4 left right ihl ihr =>
    refine ihl.bind fun a => .ite toInt_eq_zero (.pure _ _) (ihr.bind fun b => ?_)
    rw [toInt_bne_zero, ofBool_eq_toInt]
    exact .pure _ _
  | case5 left right ihl ihr =>
    refine ihl.bind fun a => .ite (not_congr toInt_eq_zero) (.pure _ _) (ihr.bind fun b => ?_)
    rw [toInt_bne_zero, ofBool_eq_toInt]
    exact .pure _ _
  | case6 op left right hand hor ihl ihr =>
    rw [evalWord]
    · refine ihl.bind fun a => ihr.bind fun b => ?_
      rw [op.apply_toInt]
      exact .lift _ _
    · exact hand
    · exact hor
  | case7 condition yes no ihc ihy ihn =>
    exact ihc.bind fun a => .ite (not_congr toInt_eq_zero) ihy ihn
  | case8 name value ih => exact ih.bind fun a => (Mirrors.set name a).bind fun _ => .pure _ _
  | case9 op name value ih =>
    refine ih.bind fun a => (h name).bind fun old => ?_
    rw [op.apply_toInt]
    exact (Mirrors.lift BitVec.toInt _).bind fun new =>
      (Mirrors.set name new).bind fun _ => .pure _ _
  | case10 s name before =>
    refine (h name).bind fun old => ?_
    have hone : BitVec.toInt (1 : Word) = 1 := by decide
    have hassign (new : Word) : Mirrors vars BitVec.toInt
        (do setNumber name new.toInt; return if before then new.toInt else old.toInt)
        (do setWord name new; return if before then new else old) := by
      rw [← apply_ite BitVec.toInt]
      exact (Mirrors.set name new).bind fun _ => .pure _ _
    cases s with
    | up =>
      rw [show wrap (old.toInt + 1) = (old + 1).toInt by rw [BitVec.toInt_add, hone]; rfl]
      exact hassign (old + 1)
    | down =>
      rw [show wrap (old.toInt - 1) = (old - 1).toInt by rw [BitVec.toInt_sub, hone]; rfl]
      exact hassign (old - 1)

/-- A variable has the same value if the variables that it refers to have. -/
theorem mirrors_wordThrough {deeper : Option (String → Eval Int)}
    {deeperWord : Option (String → WordEval Word)}
    (hnone : deeper.isNone = deeperWord.isNone)
    (h : ∀ valueOf ∈ deeper, ∀ wordOf ∈ deeperWord, ∀ name,
      Mirrors vars BitVec.toInt (valueOf name) (wordOf name)) (name : String) :
    Mirrors vars BitVec.toInt (valueThrough deeper name) (wordThrough vars deeperWord name) := by
  intro assigned
  have hget := get?_storeAfter vars assigned name
  have hbind (f : Assigned → WordEval Word) : (get >>= f) assigned = f assigned assigned := rfl
  rw [wordThrough, hbind]
  cases hlookup : assigned.lookup name with
  | some w =>
    -- the text in the store is the numeral of the word
    rw [hlookup] at hget
    rw [valueThrough_assigned hget, hnone]
    dsimp only
    by_cases hdeep : (w.slt 0 && deeperWord.isNone) = true
    · rw [if_pos hdeep, if_pos hdeep]
      rfl
    · rw [if_neg hdeep, if_neg hdeep]
      rfl
  | none =>
    -- the text is that of the first store, and both read it in the same way
    rw [hlookup] at hget
    rw [valueThrough, Eval.get_bind, hget]
    dsimp only
    unfold wordOfText
    generalize Text.stripBlanks ((vars.get? name).getD "") = text
    by_cases hempty : text.isEmpty = true
    · rw [if_pos hempty, if_pos hempty]
      rfl
    rw [if_neg hempty, if_neg hempty]
    by_cases hnumeral : (Text.allDigits text || isMarkedHex text.toList) = true
    · rw [if_pos hnumeral, if_pos hnumeral]
      cases readLiteral text.toList with
      | ok value =>
        dsimp only
        rw [wrap_eq_toInt]
        rfl
      | error e => cases e <;> rfl
    · rw [if_neg hnumeral, if_neg hnumeral]
      cases deeper with
      | none =>
        cases deeperWord with
        | none => rfl
        | some wordOf => cases hnone
      | some valueOf =>
        cases deeperWord with
        | none => cases hnone
        | some wordOf =>
          dsimp only
          cases Expr.parse text with
          | ok e => exact e.mirrors_evalWord (h valueOf rfl wordOf rfl) assigned
          | error e => cases e <;> rfl

/-- **A variable has the same value** in both evaluators. -/
theorem mirrors_wordWithin (references : Nat) (name : String) :
    Mirrors vars BitVec.toInt (valueWithin references name) (wordWithin vars references name) := by
  induction references generalizing name with
  | zero => exact mirrors_wordThrough rfl (by simp) name
  | succ references ih => exact mirrors_wordThrough rfl (by simpa using ih) name

end

/-! ## The store holds words -/

/-- **The variable holds the word** in the store: its text is the decimal numeral of the word, and
the word is its value, both as a part of an expression and as a text of its own. -/
structure Holds (store : Variables) (name : String) (w : Word) : Prop where
  text : store.get? name = some (toString w.toInt)
  value : (Expr.variable name).eval (valueWithin maxReferences) store = (.ok w.toInt, store)
  alone : isName name = true → evaluate name store = (.ok w.toInt, store)

theorem Expr.parse_name {name : String} (h : isName name = true) :
    Expr.parse name = .ok (.variable name) := by
  have htokens : tokens name = .ok [.name name] := by
    simpa [Token.spelling] using
      tokens_spaced (List.forall_mem_singleton.2 (show Token.IsSpelled (.name name) from h))
  exact parse_of_tokens h htokens

theorem holds_of_get? {store : Variables} {name : String} {w : Word}
    (h : store.get? name = some (toString w.toInt)) : Holds store name w := by
  have hvalue : valueWithin maxReferences name store = (.ok w.toInt, store) := by
    rw [maxReferences, valueWithin, valueThrough_assigned h, Option.isNone_some, Bool.and_false,
      if_neg Bool.false_ne_true]
  have heval : (Expr.variable name).eval (valueWithin maxReferences) store =
      (.ok w.toInt, store) := by
    rw [Expr.eval, hvalue]
  refine ⟨h, heval, fun hname => ?_⟩
  rw [evaluate, Expr.parse_name hname, Eval.ok_bind, heval]

/-- **Arithmetic is that of words of sixty-four bits** in two's complement. Every operator is the
one on words. The evaluation of an expression gives the value that it has on words, or fails as it does
there, and leaves the variables with the words that were assigned. So a value is in the range of
the words, and at every moment a variable that was assigned holds its word. -/
theorem Expr.eval_eq_evalWord (e : Expr) (vars : Variables) (references : Nat) :
    let outcome := e.evalWord (wordWithin vars references) []
    (∀ (op : UnaryOp) (a : Word), op.apply a.toInt = (op.onWord a).toInt) ∧
    (∀ (op : BinaryOp) (a b : Word),
      op.apply a.toInt b.toInt = (op.onWords a b).map BitVec.toInt) ∧
    e.eval (valueWithin references) vars =
      (outcome.1.map BitVec.toInt, storeAfter vars outcome.2) ∧
    (∀ value, (e.eval (valueWithin references) vars).1 = .ok value →
      -2 ^ 63 ≤ value ∧ value < 2 ^ 63) ∧
    ∀ assigned, assigned <:+ outcome.2 → ∀ name w, assigned.lookup name = some w →
      Holds (storeAfter vars assigned) name w := by
  intro outcome
  have heval : e.eval (valueWithin references) vars =
      (outcome.1.map BitVec.toInt, storeAfter vars outcome.2) :=
    e.mirrors_evalWord (mirrors_wordWithin references) []
  refine ⟨UnaryOp.apply_toInt, BinaryOp.apply_toInt, heval, fun value hvalue => ?_,
    fun assigned _ name w hlookup => holds_of_get? ?_⟩
  · rw [heval] at hvalue
    cases hword : outcome.1 with
    | error failure =>
      rw [hword] at hvalue
      cases hvalue
    | ok w =>
      rw [hword] at hvalue
      cases hvalue
      exact ⟨BitVec.le_toInt w, BitVec.toInt_lt⟩
  · rw [get?_storeAfter, hlookup]

/-- The largest number is assigned, and one is added to it. -/
def pastTheLargest : Expr :=
  .binary .comma (.assign none "n" (.number 9223372036854775807)) (.step .up "n" true)

/-- The value is the smallest number, and the variable gives it back. -/
theorem Expr.eval_eq_evalWord_pastTheLargest :
    let before := Variables.ofGlobals [] []
    let after := storeAfter before [("n", .intMin 64), ("n", .intMax 64)]
    pastTheLargest.eval (valueWithin 0) before = (.ok (-2 ^ 63), after) ∧
      (-2 ^ 63 : Int) < 2 ^ 63 ∧ evaluate "n" after = (.ok (-2 ^ 63), after) := by
  intro before after
  have houtcome : pastTheLargest.evalWord (wordWithin before 0) [] =
      (.ok (.intMin 64), [("n", .intMin 64), ("n", .intMax 64)]) := by rfl
  obtain ⟨-, -, heval, hrange, hholds⟩ := pastTheLargest.eval_eq_evalWord before 0
  rw [houtcome] at heval hholds
  have hvalue : (BitVec.intMin 64).toInt = -2 ^ 63 := by decide
  have hn := (hholds _ (List.suffix_refl _) "n" (.intMin 64) rfl).alone (by decide)
  rw [hvalue] at hn
  refine ⟨heval, (hrange (-2 ^ 63) ?_).2, hn⟩
  rw [heval]
  rfl

end VirtualShell.Arith
