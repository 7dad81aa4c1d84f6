import VirtualShell.Arith.Eval

/-!
# Arithmetic and scopes

An arithmetic text may assign variables, but opens and closes no scope, also when it fails.
-/

namespace VirtualShell.Arith

variable {α β : Type}

/-- A computation leaves as many scopes open as it found. -/
def Eval.KeepsDepth (x : Eval α) : Prop := ∀ vars : Variables, (x vars).2.depth = vars.depth

namespace Eval.KeepsDepth

theorem pure (a : α) : KeepsDepth (Pure.pure a : Eval α) := fun _ => rfl

theorem throw (e : Error) : KeepsDepth (MonadExcept.throw e : Eval α) := fun _ => rfl

theorem get : KeepsDepth (MonadState.get : Eval Variables) := fun _ => rfl

theorem lift (r : Except Error α) : KeepsDepth (liftM r : Eval α) := fun _ => rfl

theorem setNumber (name : String) (value : Int) : KeepsDepth (Arith.setNumber name value) :=
  fun vars => vars.depth_set name (toString value)

theorem bind {x : Eval α} {f : α → Eval β} (hx : KeepsDepth x) (hf : ∀ a, KeepsDepth (f a)) :
    KeepsDepth (x >>= f) := by
  intro vars
  have hvars := hx vars
  change (match x vars with | (r, next) => ExceptT.bindCont f r next).2.depth = vars.depth
  rcases h : x vars with ⟨_ | a, next⟩
  · rw [h] at hvars
    exact hvars
  · rw [h] at hvars
    exact (hf a next).trans hvars

end Eval.KeepsDepth

open Eval

theorem Expr.keepsDepth_eval {valueOf : String → Eval Int} (h : ∀ name, KeepsDepth (valueOf name))
    (e : Expr) : KeepsDepth (e.eval valueOf) := by
  fun_induction Expr.eval valueOf e with
  | case1 value => exact .pure _
  | case2 name => exact h name
  | case3 op e ih => exact ih.bind fun _ => .pure _
  | case4 left right ihl ihr =>
    refine ihl.bind fun a => ?_
    split
    · exact .pure _
    · exact ihr.bind fun _ => .pure _
  | case5 left right ihl ihr =>
    refine ihl.bind fun a => ?_
    split
    · exact .pure _
    · exact ihr.bind fun _ => .pure _
  | case6 op left right _ _ ihl ihr =>
    exact ihl.bind fun _ => ihr.bind fun _ => .lift _
  | case7 condition yes no ihc ihy ihn =>
    refine ihc.bind fun a => ?_
    split
    · exact ihy
    · exact ihn
  | case8 name value ih => exact ih.bind fun _ => (KeepsDepth.setNumber _ _).bind fun _ => .pure _
  | case9 op name value ih =>
    exact ih.bind fun _ => (h name).bind fun _ => (KeepsDepth.lift _).bind fun _ =>
      (KeepsDepth.setNumber _ _).bind fun _ => .pure _
  | case10 s name before =>
    exact (h name).bind fun _ => (KeepsDepth.setNumber _ _).bind fun _ => .pure _

theorem keepsDepth_valueThrough {deeper : Option (String → Eval Int)}
    (h : ∀ valueOf ∈ deeper, ∀ name, KeepsDepth (valueOf name)) (name : String) :
    KeepsDepth (valueThrough deeper name) := by
  unfold valueThrough
  refine KeepsDepth.get.bind fun vars => ?_
  extract_lets text
  clear_value text
  split
  · exact .pure _
  split
  · generalize readLiteral text.toList = literal
    split
    · exact .pure _
    · exact .pure _
    · exact .throw _
  split
  · exact .throw _
  · next valueOf =>
    split
    · exact Expr.keepsDepth_eval (h valueOf rfl) _
    · exact .pure _
    · exact .throw _

theorem keepsDepth_valueWithin (references : Nat) (name : String) :
    KeepsDepth (valueWithin references name) := by
  induction references generalizing name with
  | zero => exact keepsDepth_valueThrough (by simp) name
  | succ references ih => exact keepsDepth_valueThrough (by simpa using ih) name

/-- **Arithmetic opens and closes no scope.** -/
theorem depth_evaluate (text : String) (vars : Variables) :
    (evaluate text vars).2.depth = vars.depth := by
  have h : KeepsDepth (evaluate text) :=
    (KeepsDepth.lift _).bind fun e => e.keepsDepth_eval (keepsDepth_valueWithin maxReferences)
  exact h vars

end VirtualShell.Arith
