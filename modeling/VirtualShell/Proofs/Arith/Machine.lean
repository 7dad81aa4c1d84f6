import Mathlib
import VirtualShell.Proofs.Arith.Failure

/-!
# Evaluation step by step

Values of variables may be expressions, which refer to other variables or to themselves, and an
evaluation may change them while they are followed. So the value of an expression is not found by
recursion on the expression alone. What there is instead is a depth: it grows by one where a
reference is followed and goes back by one where the reference is left, with a value or with an
error, and past `maxReferences` no reference is followed.

`Machine` is the evaluation with this one counter and with the frames of what is still to be done.
Each step only looks at what stands in front, and nothing about a machine says that its steps come
to an end. The bound on the references of `valueWithin` is what the depth leaves of `maxReferences`,
and the induction goes on this number first and on the expression then.

* `Machine.next` — one step.
* `Machine.Reaches.bind` — a computation and what is done with its value are run one after the
  other.
* `Machine.Follows.reaches_eval`, `Machine.follows_valueWithin` — from any expression and any
  variable, whatever frames there are, the steps lead to what `Expr.eval` and `valueWithin` say. The
  frames and the depth are then as they were.
* `valueWithin_of_circle` — references in a circle go too deep.
* **`Machine.halts`** — so evaluation comes to its end, and references that go too deep
  are reported.
-/

namespace VirtualShell.Arith

/-! ## Machines -/

/-- What is still to be done, once there is a value. -/
inductive Frame where
  | unary (op : UnaryOp)
  /-- The right operand is evaluated next, unless the left one decides. -/
  | right (op : BinaryOp) (right : Expr)
  | binary (op : BinaryOp) (left : Int)
  | choose (yes no : Expr)
  | assign (name : String)
  /-- The old value is combined with the value. It is looked up next. -/
  | combine (op : BinaryOp) (name : String)
  | combined (op : BinaryOp) (name : String) (value : Int)
  | step (step : Step) (name : String) (before : Bool)
  /-- The value is that of a variable, and the depth is one more than it was. -/
  | reference
  deriving DecidableEq

/-- What is done next. -/
inductive Control where
  | evaluate (e : Expr)
  | look (name : String)
  | give (value : Int)
  | fail (cause : Error)
  deriving DecidableEq

/-- An evaluation under way. -/
structure Machine where
  control : Control
  frames : List Frame
  depth : Nat
  vars : Variables
  deriving DecidableEq

/-- What is done with a value that is followed. -/
def Control.ofParse : Except Error Expr → Control
  | .ok e => .evaluate e
  | .error f => .fail f

/-- What is done about an error in the value of a variable: a malformed value counts as zero. -/
def Control.recover : Error → Control
  | .malformed _ => .give 0
  | f => .fail f

/-- What is given or reported. -/
def Control.ofResult : Except Error Int → Control
  | .ok value => .give value
  | .error f => .fail f

namespace Machine

/-- An expression is taken apart. -/
def evaluate (e : Expr) (frames : List Frame) (depth : Nat) (vars : Variables) : Machine :=
  match e with
  | .number value => ⟨.give (wrap value), frames, depth, vars⟩
  | .variable name => ⟨.look name, frames, depth, vars⟩
  | .unary op e => ⟨.evaluate e, .unary op :: frames, depth, vars⟩
  | .binary op left right => ⟨.evaluate left, .right op right :: frames, depth, vars⟩
  | .conditional condition yes no => ⟨.evaluate condition, .choose yes no :: frames, depth, vars⟩
  | .assign none name value => ⟨.evaluate value, .assign name :: frames, depth, vars⟩
  | .assign (some op) name value => ⟨.evaluate value, .combine op name :: frames, depth, vars⟩
  | .step s name before => ⟨.look name, .step s name before :: frames, depth, vars⟩

/-- A variable is looked up. Its value is followed if it is a reference, and this counts before it
is known whether it may be followed and whether it is an expression. -/
def look (name : String) (frames : List Frame) (depth : Nat) (vars : Variables) : Machine :=
  match vars.get? name with
  | none => ⟨.give 0, frames, depth, vars⟩
  | some value =>
    if isReference value then
      let control :=
        if maxReferences < depth + 1 then .fail .tooManyReferences
        else .ofParse (Expr.ofValue value)
      ⟨control, .reference :: frames, depth + 1, vars⟩
    else
      match Expr.ofValue value with
      | .ok e => ⟨.evaluate e, frames, depth, vars⟩
      | .error f => ⟨.recover f, frames, depth, vars⟩

/-- A value is handed to a frame. -/
def give (value : Int) (frame : Frame) (frames : List Frame) (depth : Nat) (vars : Variables) :
    Machine :=
  match frame with
  | .unary op => ⟨.give (op.apply value), frames, depth, vars⟩
  | .right op right =>
    if op.decides value then ⟨.give (ofBool (value != 0)), frames, depth, vars⟩
    else ⟨.evaluate right, .binary op value :: frames, depth, vars⟩
  | .binary op left => ⟨.ofResult (op.apply left value), frames, depth, vars⟩
  | .choose yes no => ⟨.evaluate (if value ≠ 0 then yes else no), frames, depth, vars⟩
  | .assign name => ⟨.give value, frames, depth, vars.set name (toString value)⟩
  | .combine op name => ⟨.look name, .combined op name value :: frames, depth, vars⟩
  | .combined op name right =>
    match op.apply value right with
    | .ok new => ⟨.give new, frames, depth, vars.set name (toString new)⟩
    | .error f => ⟨.fail f, frames, depth, vars⟩
  | .step s name before =>
    let new := wrap (match s with | .up => value + 1 | .down => value - 1)
    ⟨.give (if before then new else value), frames, depth, vars.set name (toString new)⟩
  | .reference => ⟨.give value, frames, depth - 1, vars⟩

/-- An error goes through a frame. Only where a reference was followed is something done about it. -/
def fail (f : Error) (frame : Frame) (frames : List Frame) (depth : Nat) (vars : Variables) :
    Machine :=
  match frame with
  | .reference => ⟨.recover f, frames, depth - 1, vars⟩
  | _ => ⟨.fail f, frames, depth, vars⟩

/-- **One step.** Nothing happens any more where a value or an error has no frames to go through. -/
def next (m : Machine) : Machine :=
  match m with
  | ⟨.evaluate e, frames, depth, vars⟩ => evaluate e frames depth vars
  | ⟨.look name, frames, depth, vars⟩ => look name frames depth vars
  | ⟨.give value, frame :: frames, depth, vars⟩ => give value frame frames depth vars
  | ⟨.fail f, frame :: frames, depth, vars⟩ => fail f frame frames depth vars
  | ⟨_, [], _, _⟩ => m

/-- Nothing is done yet. -/
def start (e : Expr) (vars : Variables) : Machine := ⟨.evaluate e, [], 0, vars⟩

/-- There is an outcome, and what is done with it stands in the frames. -/
def answer (frames : List Frame) (depth : Nat) (outcome : Except Error Int × Variables) : Machine :=
  ⟨.ofResult outcome.1, frames, depth, outcome.2⟩

/-- There is an outcome, and nothing is left to do. -/
def done (outcome : Except Error Int × Variables) : Machine := answer [] 0 outcome

theorem next_done (outcome : Except Error Int × Variables) : (done outcome).next = done outcome := by
  rcases outcome with ⟨cause | value, vars⟩ <;> rfl

/-! ## Runs -/

/-- Some number of steps lead from one machine to another. -/
def Reaches (m target : Machine) : Prop := ∃ steps, next^[steps] m = target

theorem Reaches.refl (m : Machine) : Reaches m m := ⟨0, rfl⟩

theorem Reaches.trans {m m' target : Machine} (h : Reaches m m') (h' : Reaches m' target) :
    Reaches m target := by
  obtain ⟨steps, rfl⟩ := h
  obtain ⟨steps', rfl⟩ := h'
  exact ⟨steps' + steps, Function.iterate_add_apply next steps' steps m⟩

/-- One step and more. -/
theorem Reaches.of_next {m m' target : Machine} (h : Reaches m' target) (hnext : m.next = m') :
    Reaches m target := by
  subst hnext
  exact Reaches.trans ⟨1, rfl⟩ h

/-- One step. -/
theorem Reaches.single {m target : Machine} (h : m.next = target) : Reaches m target :=
  (Reaches.refl target).of_next h

section

variable {frame : Frame} {frames : List Frame} {depth : Nat} {vars : Variables} {m : Machine}

theorem next_fail (hframe : frame ≠ .reference) (f : Error) :
    next ⟨.fail f, frame :: frames, depth, vars⟩ = ⟨.fail f, frames, depth, vars⟩ := by
  cases frame <;> first | rfl | exact absurd rfl hframe

/-- **A computation and what is done with its value.** The frame holds what is done with it; an error
goes through the frame. -/
theorem Reaches.bind {x : Eval Int} {f : Int → Eval Int}
    (hx : Reaches m (answer (frame :: frames) depth (x vars)))
    (hf : ∀ a store, Reaches ⟨.give a, frame :: frames, depth, store⟩
      (answer frames depth (f a store)))
    (hframe : frame ≠ .reference) : Reaches m (answer frames depth ((x >>= f) vars)) := by
  have hbind : (x >>= f) vars = (match x vars with | (r, store) => ExceptT.bindCont f r store) := rfl
  rw [hbind]
  rcases hrun : x vars with ⟨cause | a, store⟩ <;> rw [hrun] at hx
  · exact hx.trans (.single (next_fail hframe cause))
  · exact hx.trans (hf a store)

end

/-! ## Expressions -/

/-- Variables have the values that are given, and the frames and the depth are as they were once
they are found. -/
def Follows (valueOf : String → Eval Int) (depth : Nat) : Prop :=
  ∀ name frames vars, Reaches ⟨.look name, frames, depth, vars⟩
    (answer frames depth (valueOf name vars))

/-- **Expressions have the values** that come from those of variables. -/
theorem Follows.reaches_eval {valueOf : String → Eval Int} {depth : Nat}
    (h : Follows valueOf depth) (e : Expr) (frames : List Frame) (vars : Variables) :
    Reaches ⟨.evaluate e, frames, depth, vars⟩ (answer frames depth (e.eval valueOf vars)) := by
  induction e generalizing frames vars with
  | number value => exact .single rfl
  | «variable» name => exact (h name frames vars).of_next rfl
  | unary op e ih => exact .bind ((ih _ vars).of_next rfl) (fun a store => .single rfl) nofun
  | binary op left right ihl ihr =>
    rw [Expr.eval_binary]
    refine .bind ((ihl _ vars).of_next rfl) (fun a store => ?_) nofun
    cases hdecides : op.decides a with
    | true => exact .single (if_pos hdecides)
    | false =>
      have hright := (ihr (.binary op a :: frames) store).bind (f := fun b => op.apply a b)
        (fun b last => .single rfl) nofun
      refine hright.of_next ?_
      rw [next, give, if_neg (by simp [hdecides])]
  | conditional condition yes no ihc ihy ihn =>
    refine .bind ((ihc _ vars).of_next rfl) (fun a store => ?_) nofun
    split
    · next ha => exact (ihy frames store).of_next (by rw [next, give, if_pos ha])
    · next ha => exact (ihn frames store).of_next (by rw [next, give, if_neg ha])
  | assign op name value ih =>
    cases op with
    | none => exact .bind ((ih _ vars).of_next rfl) (fun a store => .single rfl) nofun
    | some op =>
      refine .bind ((ih _ vars).of_next rfl) (fun a store => ?_) nofun
      refine .bind ((h name _ store).of_next rfl) (fun old last => .single ?_) nofun
      rw [next, give]
      rcases op.apply old a with cause | new <;> rfl
  | step s name before =>
    exact .bind ((h name _ vars).of_next rfl) (fun old store => .single rfl) nofun

/-! ## Variables -/

/-- What is said to be malformed is the value of a variable, which then counts as zero, and never an
expression that is evaluated. -/
theorem not_fails_malformed (references : Nat) (e : Expr) (vars : Variables) (flaw : Flaw) :
    ¬ Eval.Fails (e.eval (valueWithin references)) vars (.malformed flaw) := by
  induction references using Nat.strong_induction_on generalizing e vars with
  | _ references ih =>
    rw [Expr.fails_eval_iff rfl]
    rintro ⟨⟨name, store⟩, -, h⟩
    rcases hget : store.get? name with _ | value
    · rw [Eval.Fails, valueWithin_of_not_get? hget] at h
      cases h
    rw [Eval.Fails, valueWithin_of_get? hget] at h
    split at h
    · cases h
    next hfollowed =>
    split at h
    · next inner hvalue =>
      cases references with
      | succ references => exact ih references (Nat.lt_succ_self _) inner store h
      | zero =>
        obtain ⟨n, rfl⟩ := Expr.exists_number_of_ofValue hvalue fun href => hfollowed ⟨href, rfl⟩
        cases h
    · cases h
    · next f hmalformed _ =>
      cases h
      exact hmalformed flaw rfl

/-- A reference is left. -/
theorem next_answer_reference {outcome : Except Error Int × Variables}
    (h : ∀ flaw, outcome.1 ≠ .error (.malformed flaw)) (frames : List Frame) (depth : Nat) :
    (answer (.reference :: frames) (depth + 1) outcome).next = answer frames depth outcome := by
  rcases outcome with ⟨cause | value, vars⟩
  · cases cause with
    | malformed flaw => exact absurd rfl (h flaw)
    | _ => rfl
  · rfl

/-- A reference is followed, if it may be, and is left again. -/
theorem reaches_look_of_isReference {references depth : Nat} {name value : String}
    {vars : Variables} (h : depth + references = maxReferences)
    (hdeeper : references ≠ 0 → Follows (valueWithin (references - 1)) (depth + 1))
    (hget : vars.get? name = some value) (href : isReference value = true) (frames : List Frame) :
    Reaches ⟨.look name, frames, depth, vars⟩
      (answer frames depth (valueWithin references name vars)) := by
  rw [valueWithin_of_get? hget]
  by_cases hzero : references = 0
  · have hnext : next ⟨.look name, frames, depth, vars⟩ =
        ⟨.fail .tooManyReferences, .reference :: frames, depth + 1, vars⟩ := by
      simp only [next, look, hget, href, if_true, if_pos (show maxReferences < depth + 1 by omega)]
    rw [if_pos ⟨href, hzero⟩]
    exact (Reaches.single rfl).of_next hnext
  have hnext : next ⟨.look name, frames, depth, vars⟩ =
      ⟨.ofParse (Expr.ofValue value), .reference :: frames, depth + 1, vars⟩ := by
    simp only [next, look, hget, href, if_true, if_neg (show ¬ maxReferences < depth + 1 by omega)]
  rw [if_neg fun hstop => hzero hstop.2]
  refine Reaches.of_next ?_ hnext
  rcases Expr.ofValue value with cause | e
  · refine Reaches.single ?_
    cases cause <;> rfl
  · have hinner := (hdeeper hzero).reaches_eval e (.reference :: frames) vars
    exact hinner.trans (.single (next_answer_reference
      (fun flaw => not_fails_malformed (references - 1) e vars flaw) frames depth))

/-- A value that is no reference is found without any. -/
theorem reaches_look_of_not_isReference {references depth : Nat} {name value : String}
    {vars : Variables} (hget : vars.get? name = some value) (href : isReference value ≠ true)
    (frames : List Frame) : Reaches ⟨.look name, frames, depth, vars⟩
      (answer frames depth (valueWithin references name vars)) := by
  rw [valueWithin_of_get? hget, if_neg fun hstop => href hstop.1]
  rcases hvalue : Expr.ofValue value with cause | e
  · refine Reaches.single ?_
    simp only [next, look, hget, href, hvalue, if_false, Bool.false_eq_true]
    cases cause <;> rfl
  · obtain ⟨n, rfl⟩ := Expr.exists_number_of_ofValue hvalue href
    have hnext : next ⟨.look name, frames, depth, vars⟩ =
        ⟨.evaluate (.number n), frames, depth, vars⟩ := by
      simp only [next, look, hget, href, hvalue, if_false, Bool.false_eq_true]
    exact (Reaches.single rfl).of_next hnext

/-- **Variables have their values**: the references that may still be followed are what the depth
leaves of `maxReferences`. -/
theorem follows_valueWithin {references depth : Nat} (h : depth + references = maxReferences) :
    Follows (valueWithin references) depth := by
  induction references using Nat.strong_induction_on generalizing depth with
  | _ references ih =>
    intro name frames vars
    rcases hget : vars.get? name with _ | value
    · rw [valueWithin_of_not_get? hget]
      exact .single (by rw [next, look, hget]; rfl)
    by_cases href : isReference value = true
    · refine reaches_look_of_isReference h (fun hzero => ?_) hget href frames
      exact ih (references - 1) (by omega) (by omega)
    · exact reaches_look_of_not_isReference hget href frames

end Machine

/-! ## Ends -/

/-- **References in a circle** go too deep: each of the variables has another one of them, or itself,
as its value. -/
theorem valueWithin_of_circle {vars : Variables} {names : Set String}
    (h : ∀ name ∈ names, ∃ value, ∃ other ∈ names,
      vars.get? name = some value ∧ Expr.ofValue value = .ok (.variable other))
    (references : Nat) {name : String} (hname : name ∈ names) :
    valueWithin references name vars = (.error .tooManyReferences, vars) := by
  induction references generalizing name with
  | zero =>
    obtain ⟨value, other, -, hget, hvalue⟩ := h name hname
    have href : isReference value = true := by
      by_contra href
      obtain ⟨n, hn⟩ := Expr.exists_number_of_ofValue hvalue href
      cases hn
    rw [valueWithin_of_get? hget, if_pos ⟨href, rfl⟩]
  | succ references ih =>
    obtain ⟨value, other, hother, hget, hvalue⟩ := h name hname
    rw [valueWithin_of_get? hget, if_neg fun hstop => Nat.succ_ne_zero _ hstop.2, hvalue]
    exact ih hother

/-- **Evaluation comes to its end**, whatever the values of variables are and whatever becomes of
them on the way: after some steps there is the value or the error that `Expr.eval` gives, together
with the store that it leaves, and no depth is left over. References that go too deep are reported,
and nothing else is reported as that: this happens exactly when evaluation comes to a value that is
one more reference, `maxReferences` of them having been followed. -/
theorem Machine.halts (e : Expr) (vars : Variables) :
    (∃ steps, ∀ n ≥ steps, Machine.next^[n] (.start e vars) =
      .done (e.eval (valueWithin maxReferences) vars)) ∧
    ((e.eval (valueWithin maxReferences) vars).1 = .error .tooManyReferences ↔
      ∃ name value, e.ComesTo maxReferences vars 0 (name, value) ∧ isReference value = true) := by
  constructor
  · obtain ⟨steps, hsteps⟩ := (Machine.follows_valueWithin (Nat.zero_add _)).reaches_eval e [] vars
    refine ⟨steps, fun n hn => ?_⟩
    obtain ⟨more, rfl⟩ := Nat.exists_eq_add_of_le' hn
    rw [Function.iterate_add_apply, Machine.start, hsteps]
    exact Function.iterate_fixed (Machine.next_done _) more
  · have hstops := Expr.fails_eval_iff_stopsAt (f := .tooManyReferences) rfl rfl maxReferences e vars
    rw [Eval.Fails] at hstops
    rw [hstops]
    simp only [stopsAt_tooManyReferences_iff]
    constructor
    · rintro ⟨left, ⟨name, value⟩, hcomes, href, rfl⟩
      exact ⟨name, value, hcomes, href⟩
    · rintro ⟨name, value, hcomes, href⟩
      exact ⟨0, (name, value), hcomes, href, rfl⟩

end VirtualShell.Arith
