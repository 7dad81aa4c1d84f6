import VirtualShell.Proofs.Condition.Answer
import VirtualShell.Proofs.Condition.Shape
import VirtualShell.Proofs.Glob.Literal
import VirtualShell.Proofs.Reading.RegexTest
import VirtualShell.Session

/-!
# Operands of tests

The words of a test are expanded before they are read as a condition, so a text that a variable
holds can be taken for an operator. In tests of two operands that happens to an exclamation mark
alone, in front of a test that is not the last one, and in other conditions in the places that
`Layout.IsClear` lists. In any other place what an operand is expanded to does not change what is
tested.

* `Condition.Expr.Tells` — what a condition tells in a shell that it does not change.
* `Runner.testShape` — the shape of the condition that words are expanded to.
* `Runner.testShape_layout` — it is the shape in which the condition is written.
* **`Script.test_equalities`** — two equalities between variables tell whether the texts are the
  same; written conditions have their own shape in all shells in which they are clear, and any words
  the same shape in two shells in which they are expanded to alike texts.
-/

namespace VirtualShell

open Run

namespace Condition

/-! ## Answers -/

/-- The answer of a condition in a shell that is left as it was. -/
def Expr.Tells (e : Expr) (shell : Shell) (answer : Bool) : Prop :=
  (e.answer .brackets).run shell = (.ok (.ok answer), shell)

theorem Expr.Tells.and {left right : Expr} {shell : Shell} {a b : Bool}
    (hleft : left.Tells shell a) (hright : right.Tells shell b) :
    (Expr.and left right).Tells shell (a && b) := by
  rw [Tells, answer]
  change ((left.answer .brackets).run >>= ExceptT.bindCont _ : Run _) shell = _
  rw [bind_apply, hleft]
  cases a with
  | true => exact hright
  | false => rfl

/-- A condition that tells something has a status and no message. -/
theorem Expr.Tells.report_status {words : List Operand} {e : Expr} {shell : Shell} {answer : Bool}
    (h : e.Tells shell answer) (hparse : Expr.parse .brackets words = .ok e) :
    (report <$> status .brackets words) shell =
      (.ok (.ofStatus (if answer then 0 else 1)), shell) := by
  rw [status_of_parse hparse, map_eq_pure_bind, map_eq_pure_bind, bind_assoc, bind_apply, h]
  cases answer <;> rfl

/-- A text that is quoted stands for itself as a pattern. -/
def Operand.ofQuoted (text : String) : Operand := ⟨text, some (Glob.escape text)⟩

/-- An equality of quoted texts. -/
def equality (left right : String) : Layout Operand .test :=
  .binary (.ofQuoted left) .equalTwice (.ofQuoted right)

/-- It tells whether the texts are the same. -/
theorem tells_equality (left right : String) (shell : Shell) :
    (equality left right).expr.Tells shell (left == right) := by
  have hequal : isEqual left right (some (Glob.escape right)) = pure (left == right) := by
    rw [isEqual, Glob.isMatchOf_escape]
    rfl
  change ((isEqual left right (some (Glob.escape right)) : Run Bool) >>=
    fun answer => pure (Except.ok answer)) shell = _
  rw [hequal]
  rfl

/-- Two equalities of quoted texts. -/
def equalities (s t u v : String) : Layout Operand .or :=
  .conjunction (.and (.test (equality s t)) (equality u v))

theorem isClear_equalities {s : String} (hs : s ≠ "!") (t u v : String) :
    (equalities s t u v).IsClear 0 :=
  ⟨fun _ => hs, nofun⟩

end Condition

open Condition

/-! ## Shapes in a shell -/

/-- **The shape of the condition** that the words of a test are expanded to. -/
def Runner.testShape (r : Runner) (words : List Word) : Run (Except Error Expr) := do
  return shapeOf (Expr.parse .brackets (← words.mapM (Word.operand r.expander)))

theorem Runner.testShape_apply {r : Runner} {words : List Word} {shell after : Shell}
    {operands : List Operand}
    (h : words.mapM (Word.operand r.expander) shell = (.ok operands, after)) :
    r.testShape words shell = (.ok (shapeOf (Expr.parse .brackets operands)), after) := by
  rw [testShape, bind_apply, h]
  rfl

/-- What is put in the places of the operands makes no difference to the shape. -/
theorem Condition.Layout.shape_of_mapM {α β : Type} {t : Tier} {f : α → Run β} {e : Layout α t}
    {filled : Layout β t} {shell after : Shell} (h : e.mapM f shell = (.ok filled, after)) :
    filled.shape = e.shape := by
  induction e generalizing shell after with
  | text | unary =>
    obtain ⟨operand, next, -, hfilled⟩ := bind_apply_eq_ok_iff.1 h
    cases hfilled
    rfl
  | binary =>
    obtain ⟨left, next, -, hright⟩ := bind_apply_eq_ok_iff.1 h
    obtain ⟨right, next, -, hfilled⟩ := bind_apply_eq_ok_iff.1 hright
    cases hfilled
    rfl
  | not _ ih | group _ ih | test _ ih | conjunction _ ih =>
    obtain ⟨inner, next, hinner, hfilled⟩ := bind_apply_eq_ok_iff.1 h
    cases hfilled
    simp only [Layout.shape, ih hinner]
  | and _ _ ihl ihr | or _ _ ihl ihr =>
    obtain ⟨left, next, hleft, hright⟩ := bind_apply_eq_ok_iff.1 h
    obtain ⟨right, next, hright, hfilled⟩ := bind_apply_eq_ok_iff.1 hright
    cases hfilled
    simp only [Layout.shape, ihl hleft, ihr hright]

/-- **A test of words in the places of a written condition** has the shape of that condition when the
words are expanded to texts that are not taken for operators. -/
theorem Runner.testShape_layout {r : Runner} {layout : Layout Word .or} {shell after : Shell}
    {filled : Layout Operand .or}
    (h : layout.mapM (Word.operand r.expander) shell = (.ok filled, after))
    (hclear : filled.IsClear 0) :
    r.testShape (layout.words Word.ofLiteral) shell = (.ok (.ok layout.shape), after) := by
  have hliteral (text : String) :
      (Word.ofLiteral text).operand r.expander = pure (Operand.ofLiteral text) :=
    funext fun shell => Word.operand_ofLiteral r.expander text shell
  have hwords : (layout.words Word.ofLiteral).mapM (Word.operand r.expander) shell =
      (.ok filled.operands, after) := by
    rw [Layout.mapM_words hliteral, map_eq_pure_bind, bind_apply, h]
    rfl
  rw [testShape_apply hwords, Layout.parse_operands hclear, shapeOf, Layout.shape_expr,
    Layout.shape_of_mapM h]

/-! ## Equalities of variables -/

/-- A variable between double quotes is a word of a test. -/
theorem Word.inTest_ofVariable {name : String} (h : Arith.isName name = true) :
    (ofVariable name).InTest (.ofDepth (maxNesting - 1)) :=
  .operand (isWordText_ofVariable h) (raw_ofVariable_ne name (by decide))
    (raw_ofVariable_ne name (by decide)) (parts_ofVariable h (maxNesting - 3))

theorem Word.inTest_equal : (ofLiteral "==").InTest (.ofDepth (maxNesting - 1)) := by
  have hplain : IsPlainWord "==" :=
    ⟨by decide, by decide, by simp [isMetacharacter, Delimiter.marks]⟩
  exact .operand hplain.isWordText (by decide) (by decide)
    (Level.partsOf_unmarked _ (fun c hc => (hplain.chars c hc).2) (by decide) (by decide))

namespace Script

/-- The words of two equalities between variables. -/
def equalities (a b c d : String) : List Word :=
  [.ofVariable a, .ofLiteral "==", .ofVariable b, .ofLiteral "&&",
    .ofVariable c, .ofLiteral "==", .ofVariable d]

section

variable {a b c d : String} (ha : Arith.isName a = true) (hb : Arith.isName b = true)
  (hc : Arith.isName c = true) (hd : Arith.isName d = true)
include ha hb hc hd

theorem inTest_equalities :
    ∀ word ∈ equalities a b c d, word.InTest (.ofDepth (maxNesting - 1)) := by
  have hand : (Word.ofLiteral "&&").InTest (.ofDepth (maxNesting - 1)) :=
    @Word.InTest.operator _ (.connective .and) rfl
  simp only [equalities, List.forall_mem_cons]
  exact ⟨Word.inTest_ofVariable ha, Word.inTest_equal, Word.inTest_ofVariable hb, hand,
    Word.inTest_ofVariable hc, Word.inTest_equal, Word.inTest_ofVariable hd, nofun⟩

/-- The variables are expanded to their values. -/
theorem operand_equalities {shell : Shell} {s t u v : String}
    (hs : shell.variables.get? a = some s) (ht : shell.variables.get? b = some t)
    (hu : shell.variables.get? c = some u) (hv : shell.variables.get? d = some v) (x : Expander) :
    List.Forall₂ (fun word operand => word.operand x shell = (.ok operand, shell))
      (equalities a b c d) (Condition.equalities s t u v).operands :=
  .cons (Word.operand_ofVariable ha hs x) (.cons (Word.operand_ofLiteral x _ _)
    (.cons (Word.operand_ofVariable hb ht x) (.cons (Word.operand_ofLiteral x _ _)
      (.cons (Word.operand_ofVariable hc hu x) (.cons (Word.operand_ofLiteral x _ _)
        (.cons (Word.operand_ofVariable hd hv x) .nil))))))

/-- **The operands of tests.** Two equalities that are joined by "and" hold just if both pairs of
texts are the same, and never fail, whatever the texts are: only the first one must not be an
exclamation mark. In general the shape of a condition is the one in which it is written, in every
shell in which no operand is in a place where it is taken for an operator; and any words make a
condition of the same shape in two shells if they are expanded to the same texts there, or to texts
that are not spelled like an operator. -/
theorem test_equalities (hlength : (testText (equalities a b c d)).length ≤ maxScriptLength) :
    parse (testText (equalities a b c d)) = .ok (.ofTest (equalities a b c d)) ∧
      (∀ (r : Runner) (shell : Shell) (s t u v : String),
        shell.variables.get? a = some s → shell.variables.get? b = some t →
        shell.variables.get? c = some u → shell.variables.get? d = some v → s ≠ "!" →
          Compound.run r (.test (equalities a b c d)) shell =
            (.ok (.ofStatus (if s = t ∧ u = v then 0 else 1)), shell)) ∧
      (∀ (r : Runner) (layout : Layout Word .or) (shell after : Shell) (filled : Layout Operand .or),
        layout.mapM (Word.operand r.expander) shell = (.ok filled, after) → filled.IsClear 0 →
          r.testShape (layout.words Word.ofLiteral) shell = (.ok (.ok layout.shape), after)) ∧
      ∀ (r : Runner) (words : List Word) (shell after shell' after' : Shell)
        (operands operands' : List Operand),
        words.mapM (Word.operand r.expander) shell = (.ok operands, after) →
        words.mapM (Word.operand r.expander) shell' = (.ok operands', after') →
        List.Forall₂ (Operand.Alike .brackets) operands operands' →
          (r.testShape words shell).1 = (r.testShape words shell').1 := by
  refine ⟨?_, fun r shell s t u v hs ht hu hv hne => ?_,
    fun r layout shell after filled => Runner.testShape_layout,
    fun r words shell after shell' after' operands operands' h h' halike => ?_⟩
  · exact parse_test (by simp [equalities]) (inTest_equalities ha hb hc hd) hlength
      (by change 10 ≤ maxTokenCount; decide)
  · have htells : (Condition.equalities s t u v).expr.Tells shell (s == t && u == v) :=
      (tells_equality s t shell).and (tells_equality u v shell)
    have hreport := htells.report_status (Layout.parse_operands (isClear_equalities hne t u v))
    refine (Runner.condition_apply (operand_equalities ha hb hc hd hs ht hu hv _)).trans
      (hreport.trans ?_)
    simp only [Bool.and_eq_true, beq_iff_eq]
  · rw [Runner.testShape_apply h, Runner.testShape_apply h', shapeOf_parse halike]

end

/-- A shell in which four variables are texts. -/
def shellOf (s t u v : String) : Shell :=
  .start .bare "/" (.ofGlobals [("a", s), ("b", t), ("c", u), ("d", v)] []) (.ofClock ⟨0, 0⟩)

theorem operand_equalities_shellOf (s t u v : String) (x : Expander) :
    List.Forall₂ (fun word operand => word.operand x (shellOf s t u v) =
      (.ok operand, shellOf s t u v)) (equalities "a" "b" "c" "d")
      (Condition.equalities s t u v).operands :=
  operand_equalities (by decide) (by decide) (by decide) (by decide) rfl rfl rfl rfl x

/-- `! ( -n "$a" && "$b" ) || "$c" < "$d"`. -/
def mixed : Layout Word .or :=
  .or (.conjunction (.test (.not (.group (.conjunction (.and
      (.test (.unary .isNotEmpty (.ofVariable "a"))) (.text (.ofVariable "b"))))))))
    (.test (.binary (.ofVariable "c") .before (.ofVariable "d")))

/-- Patterns, blanks, parentheses and operators are operands in their places. -/
theorem test_equalities_marks :
    Arith.isName "a" = true ∧ Arith.isName "b" = true ∧ Arith.isName "c" = true ∧
      Arith.isName "d" = true ∧
      (testText (equalities "a" "b" "c" "d")).length ≤ maxScriptLength ∧
      parse (testText (equalities "a" "b" "c" "d")) = .ok (.ofTest (equalities "a" "b" "c" "d")) ∧
      ∀ r : Runner,
        Compound.run r (.test (equalities "a" "b" "c" "d")) (shellOf "-f *" "-f *" "!" "!") =
            (.ok (.ofStatus 0), shellOf "-f *" "-f *" "!" "!") ∧
          r.testShape (mixed.words Word.ofLiteral) (shellOf "-f *" "b" "(" "==") =
            (.ok (.ok (.or (.not (.group (.and (.unary .isNotEmpty "") (.text ""))))
              (.binary .before "" "" none))), shellOf "-f *" "b" "(" "==") ∧
          (r.testShape (equalities "a" "b" "c" "d") (shellOf "-f *" "" "!" "!")).1 =
            (r.testShape (equalities "a" "b" "c" "d") (shellOf "x" "y" "!" "!")).1 := by
  have hlength : (testText (equalities "a" "b" "c" "d")).length ≤ maxScriptLength := by decide
  obtain ⟨hparse, hrun, hlayout, hshape⟩ := test_equalities (a := "a") (b := "b") (c := "c")
    (d := "d") (by decide) (by decide) (by decide) (by decide) hlength
  refine ⟨by decide, by decide, by decide, by decide, hlength, hparse, fun r => ⟨?_, ?_, ?_⟩⟩
  · exact hrun r _ "-f *" "-f *" "!" "!" rfl rfl rfl rfl (by decide)
  · have hoperand (name value : String) (hname : Arith.isName name = true)
        (hvalue : (shellOf "-f *" "b" "(" "==").variables.get? name = some value) :
        (Word.ofVariable name).operand r.expander (shellOf "-f *" "b" "(" "==") =
          (.ok (.ofQuoted value), shellOf "-f *" "b" "(" "==") :=
      Word.operand_ofVariable hname hvalue r.expander
    refine hlayout r mixed _ _ (.or (.conjunction (.test (.not (.group (.conjunction (.and
      (.test (.unary .isNotEmpty (.ofQuoted "-f *"))) (.text (.ofQuoted "b"))))))))
      (.test (.binary (.ofQuoted "(") .before (.ofQuoted "==")))) ?_ ?_
    · simp only [mixed, Layout.mapM, bind_apply, pure_apply, hoperand "a" "-f *" (by decide) rfl,
        hoperand "b" "b" (by decide) rfl, hoperand "c" "(" (by decide) rfl,
        hoperand "d" "==" (by decide) rfl]
    · decide
  · have hplain {text text' : String} (h : Form.brackets.isSyntax text = false)
        (h' : Form.brackets.isSyntax text' = false) :
        Operand.Alike .brackets (.ofQuoted text) (.ofQuoted text') := .inr ⟨h, h'⟩
    have hsame (operand : Operand) : Operand.Alike .brackets operand operand := .inl rfl
    exact hshape r _ _ _ _ _ _ _
      (Word.mapM_operand (operand_equalities_shellOf "-f *" "" "!" "!" r.expander))
      (Word.mapM_operand (operand_equalities_shellOf "x" "y" "!" "!" r.expander))
      (.cons (hplain (by decide) (by decide)) (.cons (hsame _)
        (.cons (hplain (by decide) (by decide)) (.cons (hsame _) (.cons (hsame _) (.cons (hsame _)
          (.cons (hsame _) .nil)))))))

/-- An exclamation mark negates the first test, so what follows it is taken apart in a wrong way; and
a text that is spelled like an operator asks for an operand. -/
theorem test_equalities_negated :
    (∀ r : Runner,
      (Compound.run r (.test (equalities "a" "b" "c" "d")) (shellOf "!" "x" "y" "y")).1 =
        .ok (report (2, some (.unexpected "x")))) ∧
      ∀ r : Runner, (r.testShape [.ofVariable "a"] (shellOf "x" "" "" "")).1 = .ok (.ok (.text "")) ∧
        (r.testShape [.ofVariable "a"] (shellOf "-f" "" "" "")).1 =
          .ok (.error (.noOperand .isFile)) := by
  have hword (s : String) (r : Runner) :
      [Word.ofVariable "a"].mapM (Word.operand r.expander) (shellOf s "" "" "") =
        (.ok [.ofQuoted s], shellOf s "" "" "") :=
    Word.mapM_operand (.cons (Word.operand_ofVariable (by decide) rfl _) .nil)
  refine ⟨fun r => ?_, fun r => ⟨?_, ?_⟩⟩
  · have hparse : Expr.parse .brackets (Condition.equalities "!" "x" "y" "y").operands =
        .error (.unexpected "x") := by
      cbv
    refine (congrArg Prod.fst (Runner.condition_apply
      (operand_equalities_shellOf "!" "x" "y" "y" _))).trans ?_
    rw [status, if_neg (by decide), hparse]
    rfl
  · rw [Runner.testShape_apply (hword "x" r)]
    cbv
  · rw [Runner.testShape_apply (hword "-f" r)]
    cbv

end Script

end VirtualShell
