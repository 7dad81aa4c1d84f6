import Mathlib
import VirtualShell.Proofs.Step.Basic
import VirtualShell.Session

/-!
# Leaving a selection

A signal that leaves an `if` or a `case` takes along what was written before it. What the statements
of a body are left by carries the output of all tests and bodies before them. A test is run on its
own: what leaves the condition of a later clause, or a pattern that is tried after a body has run,
carries only what that test has written.

* `Statement.LeftBy` — where a signal comes out of some statements.
* `Clause.LeftBy`, `CaseItem.LeftBy` — where a signal comes out of the clauses of a selection.
* `Place.kept` — what of the output before it a signal takes along.
* **`Compound.selection_leftBy_iff`** — what leaves a selection, and with which output.
-/

namespace VirtualShell

/-! ## Outputs -/

namespace Output

@[simp] theorem empty_append (a : Output) : empty ++ a = a := by
  change append empty a = a
  simp [append, empty]

@[simp] theorem append_empty (a : Output) : a ++ empty = a := by
  change append a empty = a
  simp [append, empty]

theorem append_assoc (a b c : Output) : a ++ b ++ c = a ++ (b ++ c) := by
  change append (append a b) c = append a (append b c)
  simp [append, String.append_assoc]

end Output

/-! ## Statements -/

section

variable (r : Runner) (s : Signal) (own : Output) (final : Shell)

/-- **Where a signal comes out of some statements.** Those before it have run to their ends and have
written something; the signal carries an output of its own. -/
inductive Statement.LeftBy : List Statement → Shell → (written : Output) → Prop where
  | here {statement : Statement} {rest : List Statement} {shell : Shell}
      (hrun : statement.run r shell = (.error (.signal s own), final)) :
      LeftBy (statement :: rest) shell .empty
  | later {statement : Statement} {rest : List Statement} {shell next : Shell} {o : Outcome}
      {written : Output} (hrun : statement.run r shell = (.ok o, next))
      (hrest : LeftBy rest next written) :
      LeftBy (statement :: rest) shell (o.output ++ written)

/-- Some statements run to their ends and write something. -/
inductive Statement.Complete : List Statement → Shell → (written : Output) → Prop where
  | nil : Complete [] final .empty
  | cons {statement : Statement} {rest : List Statement} {shell next : Shell} {o : Outcome}
      {written : Output} (hrun : statement.run r shell = (.ok o, next))
      (hrest : Complete rest next written) :
      Complete (statement :: rest) shell (o.output ++ written)

end

section

variable {r : Runner} {s : Signal} {own output : Output} {shell final : Shell}

/-- **A signal that leaves statements** takes along what those before it wrote. -/
theorem Statement.LeftBy.runAll {statements : List Statement} {written : Output}
    (hleft : LeftBy r s own final statements shell written) (o : Outcome) :
    Statement.runAll r o statements shell =
      (.error (.signal s (o.output ++ (written ++ own))), final) := by
  induction hleft generalizing o with
  | here hrun =>
    rw [Statement.runAll, Run.bind_apply, Run.after, hrun]
    simp [Interrupt.after]
  | later hrun _ ih =>
    rw [Statement.runAll, Run.bind_apply, Run.after, hrun]
    dsimp only
    rw [ih, Outcome.after, Output.append_assoc, Output.append_assoc]

/-- Every signal that leaves statements comes out of one of them. -/
theorem Statement.exists_leftBy {o : Outcome} {statements : List Statement}
    (hrun : Statement.runAll r o statements shell = (.error (.signal s output), final)) :
    ∃ written own, LeftBy r s own final statements shell written ∧
      output = o.output ++ (written ++ own) := by
  induction statements generalizing o shell with
  | nil => cases hrun
  | cons statement rest ih =>
    rw [Statement.runAll, Run.bind_apply, Run.after] at hrun
    rcases hfirst : statement.run r shell with ⟨i | new, next⟩
    · rw [hfirst] at hrun
      cases i with
      | signal _ own =>
        cases hrun
        exact ⟨.empty, own, .here hfirst, by simp⟩
      | fault => cases hrun
    · rw [hfirst] at hrun
      obtain ⟨written, own, hleft, rfl⟩ := ih hrun
      exact ⟨_, own, .later hfirst hleft, by simp [Outcome.after, Output.append_assoc]⟩

/-- **Statements that run to their ends** write what each of them writes, after what was written
before. -/
theorem Statement.Complete.runAll {statements : List Statement} {written : Output}
    (hcomplete : Complete r final statements shell written) (o : Outcome) :
    ∃ status,
      Statement.runAll r o statements shell = (.ok ⟨o.output ++ written, status⟩, final) := by
  induction hcomplete generalizing o with
  | nil => exact ⟨o.status, by simp [Statement.runAll, Run.pure_apply]⟩
  | @cons _ _ _ _ new _ hrun _ ih =>
    rw [Statement.runAll, Run.bind_apply, Run.after, hrun]
    obtain ⟨status, hstatus⟩ := ih (new.after o.output)
    refine ⟨status, ?_⟩
    dsimp only
    rw [hstatus, Outcome.after, Output.append_assoc]

theorem Statement.exists_complete {o o' : Outcome} {statements : List Statement}
    (hrun : Statement.runAll r o statements shell = (.ok o', final)) :
    ∃ written, Complete r final statements shell written ∧ o'.output = o.output ++ written := by
  induction statements generalizing o shell with
  | nil =>
    cases hrun
    exact ⟨.empty, .nil, by simp⟩
  | cons statement rest ih =>
    rw [Statement.runAll, Run.bind_apply, Run.after] at hrun
    rcases hfirst : statement.run r shell with ⟨i | new, next⟩
    · rw [hfirst] at hrun
      cases hrun
    · rw [hfirst] at hrun
      obtain ⟨written, hcomplete, hwritten⟩ := ih hrun
      exact ⟨_, .cons hfirst hcomplete, by rw [hwritten, Outcome.after, Output.append_assoc]⟩

end

/-! ## Places -/

/-- Where a signal comes out of a selection: of what decides on a clause, or of what is run because
of that. -/
inductive Place where
  | test
  | body
  deriving DecidableEq, Repr

/-- **What is kept of the output** of the tests and bodies before this place. -/
def Place.kept (place : Place) (before : Output) : Output :=
  match place with
  | .test => .empty
  | .body => before

/-! ## Clauses -/

section

variable (r : Runner) (s : Signal) (own : Output) (final : Shell)

/-- **Where a signal comes out of the clauses of an `if`.** The conditions before this place have
written something, and so have the statements before it in its own block. -/
inductive Clause.LeftBy (orElse : List Statement) :
    List Clause → Shell → (before : Output) → Place → (written : Output) → Prop where
  | condition {condition body : List Statement} {rest : List Clause} {shell : Shell}
      {written : Output} (hleft : Statement.LeftBy r s own final condition shell written) :
      LeftBy orElse (⟨condition, body⟩ :: rest) shell .empty .test written
  | body {condition body : List Statement} {rest : List Clause} {shell next : Shell} {o : Outcome}
      {written : Output}
      (hcondition : Statement.runAll r .success condition shell = (.ok o, next))
      (hstatus : o.status = 0) (hleft : Statement.LeftBy r s own final body next written) :
      LeftBy orElse (⟨condition, body⟩ :: rest) shell o.output .body written
  | next {condition body : List Statement} {rest : List Clause} {shell next : Shell} {o : Outcome}
      {before written : Output} {place : Place}
      (hcondition : Statement.runAll r .success condition shell = (.ok o, next))
      (hstatus : o.status ≠ 0) (hrest : LeftBy orElse rest next before place written) :
      LeftBy orElse (⟨condition, body⟩ :: rest) shell (o.output ++ before) place written
  | orElse {shell : Shell} {written : Output}
      (hleft : Statement.LeftBy r s own final orElse shell written) :
      LeftBy orElse [] shell .empty .body written

/-- The decision on a clause of a `case`. After a clause that fell through nothing is tested. -/
def CaseItem.choice (subject : String) (through : Bool) (patterns : List Word) : Run Bool :=
  if through then pure true else matchesAny r.expander subject patterns

/-- **Where a signal comes out of the clauses of a `case`.** The bodies before this place have
written something, and so have the statements before it in its own body. -/
inductive CaseItem.LeftBy (subject : String) : (through : Bool) →
    List CaseItem → Shell → (before : Output) → Place → (written : Output) → Prop where
  | pattern {through : Bool} {item : CaseItem} {rest : List CaseItem} {shell : Shell}
      (htest : choice r subject through item.patterns shell = (.error (.signal s own), final)) :
      LeftBy subject through (item :: rest) shell .empty .test .empty
  | skip {through : Bool} {item : CaseItem} {rest : List CaseItem} {shell next : Shell}
      {before written : Output} {place : Place}
      (htest : choice r subject through item.patterns shell = (.ok false, next))
      (hrest : LeftBy subject false rest next before place written) :
      LeftBy subject through (item :: rest) shell before place written
  | body {through : Bool} {item : CaseItem} {rest : List CaseItem} {shell next : Shell}
      {written : Output} (htest : choice r subject through item.patterns shell = (.ok true, next))
      (hleft : Statement.LeftBy r s own final item.body next written) :
      LeftBy subject through (item :: rest) shell .empty .body written
  | next {through : Bool} {item : CaseItem} {rest : List CaseItem} {shell next after : Shell}
      {printed before written : Output} {place : Place}
      (htest : choice r subject through item.patterns shell = (.ok true, next))
      (hbody : Statement.Complete r after item.body next printed) (hending : item.ending ≠ .stop)
      (hrest : LeftBy subject (item.ending == .fallThrough) rest after before place written) :
      LeftBy subject through (item :: rest) shell (printed ++ before) place written

end

section

variable {r : Runner} {s : Signal} {own output : Output} {shell final : Shell}

/-- A signal that leaves the clauses of an `if` takes along what is kept at its place. -/
theorem Clause.LeftBy.runFirst {orElse : List Statement} {clauses : List Clause}
    {before written : Output} {place : Place}
    (hleft : LeftBy r s own final orElse clauses shell before place written) (earlier : Output) :
    Clause.runFirst r (fun written => Statement.runAll r ⟨written, 0⟩ orElse) earlier clauses shell =
      (.error (.signal s (place.kept (earlier ++ before) ++ (written ++ own))), final) := by
  induction hleft generalizing earlier with
  | condition hleft =>
    rw [Clause.runFirst, Run.bind_apply, hleft.runAll]
    simp [Outcome.success, Outcome.ofStatus, Place.kept]
  | body hcondition hstatus hleft =>
    rw [Clause.runFirst, Run.bind_apply, hcondition]
    dsimp only
    rw [if_pos hstatus, hleft.runAll, Place.kept]
  | next hcondition hstatus _ ih =>
    rw [Clause.runFirst, Run.bind_apply, hcondition]
    dsimp only
    rw [if_neg hstatus, ih, Output.append_assoc]
  | orElse hleft =>
    rw [Clause.runFirst, hleft.runAll]
    simp [Place.kept]

/-- Every signal that leaves the clauses of an `if` comes out of one of them. -/
theorem Clause.exists_leftBy {orElse : List Statement} {clauses : List Clause} {earlier : Output}
    (hrun : Clause.runFirst r (fun written => Statement.runAll r ⟨written, 0⟩ orElse) earlier clauses
      shell = (.error (.signal s output), final)) :
    ∃ before place written own, LeftBy r s own final orElse clauses shell before place written ∧
      output = place.kept (earlier ++ before) ++ (written ++ own) := by
  induction clauses generalizing earlier shell with
  | nil =>
    obtain ⟨written, own, hleft, rfl⟩ := Statement.exists_leftBy hrun
    exact ⟨.empty, .body, written, own, .orElse hleft, by simp [Place.kept]⟩
  | cons clause rest ih =>
    obtain ⟨condition, body⟩ := clause
    rw [Clause.runFirst, Run.bind_apply] at hrun
    rcases hcondition : Statement.runAll r .success condition shell with ⟨i | o, next⟩
    · rw [hcondition] at hrun
      cases hrun
      obtain ⟨written, own, hleft, rfl⟩ := Statement.exists_leftBy hcondition
      exact ⟨.empty, .test, written, own, .condition hleft, by
        simp [Outcome.success, Outcome.ofStatus, Place.kept]⟩
    · rw [hcondition] at hrun
      dsimp only at hrun
      by_cases hstatus : o.status = 0
      · rw [if_pos hstatus] at hrun
        obtain ⟨written, own, hleft, rfl⟩ := Statement.exists_leftBy hrun
        exact ⟨o.output, .body, written, own, .body hcondition hstatus hleft, rfl⟩
      · rw [if_neg hstatus] at hrun
        obtain ⟨before, place, written, own, hleft, rfl⟩ := ih hrun
        exact ⟨_, place, written, own, .next hcondition hstatus hleft, by rw [Output.append_assoc]⟩

/-- One clause of a `case`: the decision on it, its body, and the clauses after it. -/
theorem CaseItem.runFrom_cons (r : Runner) (subject : String) (through : Bool) (o : Outcome)
    (item : CaseItem) (rest : List CaseItem) (shell : Shell) :
    CaseItem.runFrom r subject through o (item :: rest) shell =
      match choice r subject through item.patterns shell with
      | (.error i, next) => (.error i, next)
      | (.ok false, next) => CaseItem.runFrom r subject false o rest next
      | (.ok true, next) =>
        match Statement.runAll r o item.body next with
        | (.error i, after) => (.error i, after)
        | (.ok o, after) =>
          if item.ending = .stop then (.ok o, after)
          else CaseItem.runFrom r subject (item.ending == .fallThrough) o rest after := by
  obtain ⟨patterns, body, ending⟩ := item
  have hbind : CaseItem.runFrom r subject through o (⟨patterns, body, ending⟩ :: rest) =
      (do
        let chosen ← choice r subject through patterns
        if !chosen then CaseItem.runFrom r subject false o rest
        else
          let o ← Statement.runAll r o body
          if ending = .stop then return o
          else CaseItem.runFrom r subject (ending == .fallThrough) o rest) := by
    cases through <;> cases ending <;> rfl
  rw [hbind, Run.bind_apply]
  rcases choice r subject through patterns shell with ⟨i | chosen, next⟩
  · rfl
  · cases chosen with
    | false => rfl
    | true =>
      dsimp only
      rw [if_neg (by simp), Run.bind_apply]
      rcases Statement.runAll r o body next with ⟨i | o, after⟩
      · rfl
      · cases ending <;> rfl

/-- A signal that leaves the clauses of a `case` takes along what is kept at its place. -/
theorem CaseItem.LeftBy.runFrom {subject : String} {through : Bool} {items : List CaseItem}
    {before written : Output} {place : Place}
    (hleft : LeftBy r s own final subject through items shell before place written) (o : Outcome) :
    CaseItem.runFrom r subject through o items shell =
      (.error (.signal s (place.kept (o.output ++ before) ++ (written ++ own))), final) := by
  induction hleft generalizing o with
  | pattern htest =>
    rw [runFrom_cons, htest]
    simp [Place.kept]
  | skip htest _ ih =>
    rw [runFrom_cons, htest]
    exact ih o
  | body htest hleft =>
    rw [runFrom_cons, htest]
    dsimp only
    rw [hleft.runAll]
    simp [Place.kept]
  | next htest hbody hending _ ih =>
    obtain ⟨status, hstatus⟩ := hbody.runAll o
    rw [runFrom_cons, htest]
    dsimp only
    rw [hstatus]
    dsimp only
    rw [if_neg hending, ih, Output.append_assoc]

/-- Every signal that leaves the clauses of a `case` comes out of one of them. -/
theorem CaseItem.exists_leftBy {subject : String} {through : Bool} {o : Outcome}
    {items : List CaseItem}
    (hrun : CaseItem.runFrom r subject through o items shell =
      (.error (.signal s output), final)) :
    ∃ before place written own,
      LeftBy r s own final subject through items shell before place written ∧
        output = place.kept (o.output ++ before) ++ (written ++ own) := by
  induction items generalizing through o shell with
  | nil => cases hrun
  | cons item rest ih =>
    rw [runFrom_cons] at hrun
    rcases htest : choice r subject through item.patterns shell with ⟨i | chosen, next⟩
    · rw [htest] at hrun
      cases hrun
      exact ⟨.empty, .test, .empty, output, .pattern htest, by simp [Place.kept]⟩
    · rw [htest] at hrun
      cases chosen with
      | false =>
        obtain ⟨before, place, written, own, hleft, rfl⟩ := ih hrun
        exact ⟨before, place, written, own, .skip htest hleft, rfl⟩
      | true =>
        dsimp only at hrun
        rcases hbody : Statement.runAll r o item.body next with ⟨i | o', after⟩
        · rw [hbody] at hrun
          cases hrun
          obtain ⟨written, own, hleft, rfl⟩ := Statement.exists_leftBy hbody
          exact ⟨.empty, .body, written, own, .body htest hleft, by simp [Place.kept]⟩
        · rw [hbody] at hrun
          dsimp only at hrun
          by_cases hending : item.ending = .stop
          · rw [if_pos hending] at hrun
            cases hrun
          · rw [if_neg hending] at hrun
            obtain ⟨printed, hcomplete, hprinted⟩ := Statement.exists_complete hbody
            obtain ⟨before, place, written, own, hleft, rfl⟩ := ih hrun
            exact ⟨_, place, written, own, .next htest hcomplete hending hleft, by
              rw [hprinted, Output.append_assoc]⟩

end

/-! ## Selections -/

/-- **What leaves a selection.** A signal leaves an `if` exactly when it comes out of one of the
clauses, and a `case` when it comes out of the subject or of one of the clauses. It takes along what
is kept of the output before that place, and then its own. -/
theorem Compound.selection_leftBy_iff (r : Runner) (s : Signal) (output : Output)
    (shell final : Shell) :
    (∀ clauses orElse,
      Compound.run r (.ifElse clauses orElse) shell = (.error (.signal s output), final) ↔
        ∃ before place written own,
          Clause.LeftBy r s own final (orElse.getD []) clauses shell before place written ∧
            output = place.kept before ++ (written ++ own)) ∧
    ∀ subject items,
      Compound.run r (.case subject items) shell = (.error (.signal s output), final) ↔
        subject.text r.expander shell = (.error (.signal s output), final) ∨
        ∃ text next before place written own,
          subject.text r.expander shell = (.ok text, next) ∧
          CaseItem.LeftBy r s own final text false items next before place written ∧
            output = place.kept before ++ (written ++ own) := by
  refine ⟨fun clauses orElse => ?_, fun subject items => ?_⟩
  · have hrun : Compound.run r (.ifElse clauses orElse) shell =
        Clause.runFirst r (fun written => Statement.runAll r ⟨written, 0⟩ (orElse.getD [])) .empty
          clauses shell := by
      cases orElse <;> rfl
    rw [hrun]
    constructor
    · intro hsignal
      obtain ⟨before, place, written, own, hleft, rfl⟩ := Clause.exists_leftBy hsignal
      exact ⟨before, place, written, own, hleft, by rw [Output.empty_append]⟩
    · rintro ⟨before, place, written, own, hleft, rfl⟩
      rw [hleft.runFirst, Output.empty_append]
  · rw [Compound.run, Run.bind_apply]
    rcases subject.text r.expander shell with ⟨i | text, next⟩
    · dsimp only
      constructor
      · rintro ⟨⟩
        exact .inl rfl
      · rintro (⟨⟨⟩⟩ | ⟨_, _, _, _, _, _, ⟨⟩, -⟩)
        rfl
    · dsimp only
      constructor
      · intro hsignal
        obtain ⟨before, place, written, own, hleft, rfl⟩ := CaseItem.exists_leftBy hsignal
        refine .inr ⟨text, next, before, place, written, own, rfl, hleft, ?_⟩
        simp [Outcome.success, Outcome.ofStatus]
      · rintro (⟨⟨⟩⟩ | ⟨_, _, before, place, written, own, ⟨⟩, hleft, rfl⟩)
        rw [hleft.runFrom]
        simp [Outcome.success, Outcome.ofStatus]

/-- The first condition of an `if` writes a line and fails, and the second one ends the script: the
line is lost. -/
theorem Compound.selection_loses_output :
    let r := Runner.ofLimits .standard Utility.all
    let shell := Shell.start .bare "/" (.ofGlobals [] []) (.ofClock ⟨0, 0⟩)
    let run (name : String) (arguments : List String) : Statement :=
      ⟨⟨[.simple ⟨[], some (.ofLiteral name), arguments.map .ofLiteral, [], 1⟩], false⟩, [], false⟩
    let first := [run "echo" ["a"], run "false" []]
    (Statement.runAll r .success first shell).1 = .ok ⟨⟨"a\n", ""⟩, 1⟩ ∧
      (Compound.run r (.ifElse [⟨first, []⟩, ⟨[run "exit" ["3"]], []⟩] none) shell).1 =
        .error (.signal (.exit 3) .empty) := by
  cbv

end VirtualShell
