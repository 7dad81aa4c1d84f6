import VirtualShell.Builtin.Registry
import VirtualShell.Proofs.Condition.Answer
import VirtualShell.Proofs.Condition.Grammar

/-!
# Short tests

A command that tests one text or compares two has so few arguments that their number tells what each
of them is. So the texts are never taken for operators, whatever they are.

* `ShortForm` — the short forms, and what they say.
* `ShortForm.reads` — they are read as they are meant.
* **`Builtin.test_shortForm`** — `test` and `[` tell what they say, for all texts.
-/

namespace VirtualShell

open Run

namespace Condition

/-- The comparisons of two texts. -/
inductive TextComparison where
  | equal
  | equalTwice
  | notEqual
  | before
  | after
  deriving DecidableEq, Repr

/-- The test that a comparison is. -/
def TextComparison.op : TextComparison → BinaryOp
  | equal => .equal
  | equalTwice => .equalTwice
  | notEqual => .notEqual
  | before => .before
  | after => .after

/-- Two texts compare in this way; texts are ordered by their characters from left to right. -/
def TextComparison.holds : TextComparison → String → String → Bool
  | equal, a, b | equalTwice, a, b => a == b
  | notEqual, a, b => a != b
  | before, a, b => a < b
  | after, a, b => b < a

/-- **A short test** of any texts. -/
inductive ShortForm where
  | text (a : String)
  | isNotEmpty (a : String)
  | isEmpty (a : String)
  | compare (a : String) (comparison : TextComparison) (b : String)
  | not (negated : ShortForm)
  deriving DecidableEq, Repr

namespace ShortForm

/-- Its arguments. -/
def arguments : ShortForm → List String
  | text a => [a]
  | isNotEmpty a => ["-n", a]
  | isEmpty a => ["-z", a]
  | compare a comparison b => [a, comparison.op.spelling, b]
  | not e => "!" :: e.arguments

/-- **What it says.** -/
def holds : ShortForm → Bool
  | text a | isNotEmpty a => a != ""
  | isEmpty a => a == ""
  | compare a comparison b => comparison.holds a b
  | not e => !e.holds

/-- The condition that it means. -/
def tree : ShortForm → Expr
  | text a => .text a
  | isNotEmpty a => .unary .isNotEmpty a
  | isEmpty a => .unary .isEmpty a
  | compare a comparison b => .binary comparison.op a b none
  | not e => .not e.tree

/-! ## Reading -/

theorem arguments_ne_nil (e : ShortForm) : e.arguments ≠ [] := by
  cases e <;> simp [arguments]

/-- Two arguments start with an operator before one operand, or with a negation. -/
theorem head?_arguments {e : ShortForm} (h : e.arguments.length = 2) :
    ∀ first ∈ e.arguments.head?, BinaryOp.ofSpelling? first = none := by
  cases e with
  | text | compare => cases h
  | isNotEmpty | isEmpty | not =>
    rintro first ⟨⟩
    rfl

/-- **A short test is read as it is meant.** -/
theorem reads (e : ShortForm) :
    Reads .command e.tree (e.arguments.map .ofText) [] .test := by
  induction e with
  | text a => exact .text (.ofText a) (.inr ⟨rfl, rfl⟩) (absurd rfl) nofun
  | isNotEmpty a | isEmpty a => exact .unary _ (.ofText a) rfl (absurd rfl)
  | compare a comparison b =>
    have hreads : Reads .command _ _ [] .test :=
      .binary (.ofText a) (.ofText comparison.op.spelling) (.ofText b)
        comparison.op.ofSpelling?_spelling (by cases comparison <;> nofun) (absurd rfl)
    simpa [Operand.ofText, arguments, tree] using hreads
  | not e ih =>
    refine .not rfl (by simpa using e.arguments_ne_nil) (fun hlength first hfirst => ?_) ih
    rw [List.head?_map] at hfirst
    obtain ⟨text, htext, rfl⟩ := Option.map_eq_some_iff.1 hfirst
    exact head?_arguments (by simpa using hlength) text htext

theorem parse_arguments (e : ShortForm) :
    Expr.parse .command (e.arguments.map .ofText) = .ok e.tree :=
  (e.reads.test.conjunction nofun).parse (by simpa using e.arguments_ne_nil)

/-! ## Answers -/

theorem isEmpty_eq_beq (s : String) : s.isEmpty = (s == "") := by
  rw [Bool.eq_iff_iff, String.isEmpty_iff, beq_iff_eq]

/-- **A short test is answered by what it says**, and nothing changes. -/
theorem answer_tree (e : ShortForm) (shell : Shell) :
    (e.tree.answer .command).run shell = (.ok (.ok e.holds), shell) := by
  induction e with
  | text a | isNotEmpty a =>
    rw [holds, bne, ← isEmpty_eq_beq]
    rfl
  | isEmpty a =>
    rw [holds, ← isEmpty_eq_beq]
    rfl
  | compare a comparison b => cases comparison <;> rfl
  | not e ih =>
    change ((e.tree.answer .command).run >>= ExceptT.bindCont _ : Run _) shell = _
    rw [bind_apply, ih]
    rfl

theorem status_arguments (e : ShortForm) (shell : Shell) :
    status .command (e.arguments.map .ofText) shell =
      (.ok (if e.holds then 0 else 1, none), shell) := by
  rw [status_of_parse e.parse_arguments, map_eq_pure_bind, bind_apply, e.answer_tree]
  cases e.holds <;> rfl

end ShortForm

end Condition

namespace Builtin

open Condition

theorem answer_shortForm (name : String) (e : ShortForm) (shell : Shell) :
    answer name e.arguments shell = (.ok (.ofStatus (if e.holds then 0 else 1)), shell) := by
  change (status .command (e.arguments.map .ofText) >>= _ : Run Outcome) shell = _
  rw [bind_apply, e.status_arguments]
  rfl

/-- **Short tests.** `test` and `[` with one text, with `-n` or `-z` before a text or with a
comparison between two texts, and with exclamation marks before any of these, have status zero if
this holds of the texts and one otherwise, and change nothing. What the texts are spelled like makes
no difference. -/
theorem test_shortForm (e : ShortForm) (shell : Shell) :
    (named? "test").map (fun run => run e.arguments shell) =
        some (.ok (.ofStatus (if e.holds then 0 else 1)), shell) ∧
      (named? "[").map (fun run => run (e.arguments ++ ["]"]) shell) =
        some (.ok (.ofStatus (if e.holds then 0 else 1)), shell) := by
  constructor
  · exact congrArg some (answer_shortForm "test" e shell)
  · have hbracket : bracket (e.arguments ++ ["]"]) = answer "[" e.arguments := by
      rw [bracket, List.getLast?_concat, if_pos rfl, List.dropLast_concat]
    refine congrArg some ?_
    dsimp only
    rw [hbracket, answer_shortForm]

end Builtin

end VirtualShell
