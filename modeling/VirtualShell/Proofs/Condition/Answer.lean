import Mathlib.Data.List.Forall2
import VirtualShell.Execution.Script
import VirtualShell.Proofs.Condition.Layout
import VirtualShell.Proofs.Expansion.QuotedVariable
import VirtualShell.Proofs.Step.Basic

/-!
# Tests between double brackets

A test expands its words one after another, reads what they are expanded to as a condition and
answers it. Where the words are expanded without changing anything, their texts and patterns alone
decide.

* `Word.operand` — a word as an operand: a variable between double quotes is its value.
* `Runner.condition_apply` — a test whose words change nothing.
* `Condition.status_of_parse` — what a condition tells when it is answered.
-/

namespace VirtualShell

open Run

namespace Condition

/-- An expanded word. -/
def Operand.ofSegments (segments : List Segment) : Operand :=
  ⟨Segment.textOf segments, some (Segment.patternOf segments)⟩

/-- What a test tells: a status, or a message as well. -/
def report : Int × Option Error → Outcome
  | (status, some e) => .failure ("bash: [[: " ++ e.message ++ "\n") status
  | (status, none) => .ofStatus status

end Condition

/-- A word as an operand. -/
def Word.operand (x : Expander) (word : Word) : Run Condition.Operand := do
  return .ofSegments (← word.expand x false)

theorem Word.operand_of_expand {x : Expander} {word : Word} {shell : Shell}
    {segments : List Segment} (h : word.expand x false shell = (.ok segments, shell)) :
    word.operand x shell = (.ok (.ofSegments segments), shell) := by
  rw [operand, bind_apply, h]
  rfl

/-- A variable between double quotes is its value, and as a pattern stands for that alone. -/
theorem Word.operand_ofVariable {name value : String} {shell : Shell}
    (h : Arith.isName name = true) (hvalue : shell.variables.get? name = some value)
    (x : Expander) : (Word.ofVariable name).operand x shell =
      (.ok ⟨value, some (Glob.escape value)⟩, shell) := by
  rw [operand_of_expand (expand_ofVariable h hvalue x)]
  simp [Condition.Operand.ofSegments, Segment.textOf, Segment.patternOf, Segment.pattern,
    Segment.literal, Glob.escape, String.join]

theorem Word.operand_ofLiteral (x : Expander) (text : String) (shell : Shell) :
    (Word.ofLiteral text).operand x shell = (.ok (.ofLiteral text), shell) := by
  have hexpand : (ofLiteral text).expand x false shell = (.ok [.literal false text], shell) := rfl
  rw [operand_of_expand hexpand]
  simp [Condition.Operand.ofSegments, Condition.Operand.ofLiteral, Segment.textOf,
    Segment.patternOf, Segment.pattern, Segment.literal, String.join]

theorem Runner.condition_eq (r : Runner) (words : List Word) :
    r.condition words = words.mapM (Word.operand r.expander) >>= fun operands =>
      Condition.report <$> Condition.status .brackets operands := by
  refine (congrArg (words.mapM (Word.operand r.expander) >>= ·) (funext fun operands => ?_) :
    r.condition words = _)
  rw [map_eq_pure_bind]
  refine congrArg (Condition.status .brackets operands >>= ·) (funext fun found => ?_)
  rcases found with ⟨status, _ | e⟩ <;> rfl

/-- Words that change nothing when they are expanded. -/
theorem Word.mapM_operand {x : Expander} {shell : Shell} {words : List Word}
    {operands : List Condition.Operand}
    (h : List.Forall₂ (fun word operand => word.operand x shell = (.ok operand, shell))
      words operands) :
    words.mapM (operand x) shell = (.ok operands, shell) := by
  induction h with
  | nil => rfl
  | cons hword _ ih =>
    rw [List.mapM_cons, bind_apply, hword]
    dsimp only
    rw [bind_apply, ih]
    rfl

/-- **A test whose words change nothing** when they are expanded. -/
theorem Runner.condition_apply {r : Runner} {shell : Shell} {words : List Word}
    {operands : List Condition.Operand}
    (h : List.Forall₂ (fun word operand => word.operand r.expander shell = (.ok operand, shell))
      words operands) :
    r.condition words shell =
      (Condition.report <$> Condition.status .brackets operands) shell := by
  rw [condition_eq, bind_apply, Word.mapM_operand h]

namespace Condition

/-- The status of an answer, and a message without one. -/
def statusOf : Except Error Bool → Int × Option Error
  | .ok true => (0, none)
  | .ok false => (1, none)
  | .error e => (2, some e)

theorem status_of_parse {form : Form} {words : List Operand} {e : Expr}
    (h : Expr.parse form words = .ok e) : status form words = statusOf <$> (e.answer form).run := by
  have hmore : words.isEmpty = false := by
    cases words with
    | nil => cases h
    | cons first later => rfl
  rw [status, hmore, if_neg (by simp), h, map_eq_pure_bind]
  refine congrArg ((e.answer form).run >>= ·) (funext fun answer => ?_)
  rcases answer with e | _ | _ <;> rfl

end Condition

end VirtualShell
