import VirtualShell.Proofs.Expansion.AllParameters
import VirtualShell.Proofs.Session.GroupInput
import VirtualShell.Proofs.Session.Plain

/-!
# Passing all positional parameters on

A command whose only argument are all positional parameters between double quotes is run with
exactly these parameters. So a function of this one command does what it would do if the arguments
of its call were written out there.

* `Run.SameWith` — two steps are the same where the positional parameters are given ones.
* `Runner.simple_forwarding` — a command that passes all positional parameters on.
* `Runner.CallsItself.call_forwarding` — a function of such a command.
* **`Runner.forwards_parameters`** — all positional parameters are passed on as they are.
-/

namespace VirtualShell

open Run

/-! ## Commands -/

/-- A command of a name and some words. -/
def SimpleCommand.ofWords (name : String) (words : List Word) (line : Nat) : SimpleCommand :=
  ⟨[], some (.ofLiteral name), words, [], line⟩

namespace Runner

variable {name : String} (hne : name ≠ "") (hplain : Glob.hasWildcard name = false)

include hne hplain

theorem simple_ofWords (r : Runner) {words : List Word} {arguments : List String} {shell : Shell}
    (line : Nat) (input : String)
    (hwords : Word.allFields r.expander words shell = (.ok arguments, shell)) :
    r.simple (.ofWords name words line) input shell = r.named name arguments input shell :=
  r.simple_of_words input
    (Word.allFields_cons (Word.fields_ofLiteral r.expander hne hplain shell) hwords)

/-- **All positional parameters** between quotes are the arguments of a command. -/
theorem simple_forwarding (r : Runner) (line : Nat) (input : String) (shell : Shell) :
    r.simple (.ofWords name [.enclosing "" ""] line) input shell =
      r.named name shell.parameters input shell := by
  have hfields := Word.fields_enclosing r.expander "" "" shell
  have hnone : Word.allFields r.expander [] shell = (.ok [], shell) := rfl
  have hall := Word.allFields_cons hfields hnone
  rw [enclose_empty, List.append_nil] at hall
  exact r.simple_ofWords hne hplain line input hall

end Runner

/-! ## Steps with given parameters -/

namespace Run

/-- **Two steps that are the same** where the positional parameters are these. -/
def SameWith {α : Type} (parameters : List String) (x y : Run α) : Prop :=
  ∀ shell : Shell, shell.parameters = parameters → x shell = y shell

namespace SameWith

section

variable {α β : Type} {parameters : List String} {x y : Run α} (h : SameWith parameters x y)

include h

theorem bind (f : α → Run β) : SameWith parameters (x >>= f) (y >>= f) := by
  intro shell hshell
  rw [bind_apply, bind_apply, h shell hshell]

theorem after (written : Output) : SameWith parameters (Run.after written x)
    (Run.after written y) := by
  intro shell hshell
  simp only [Run.after, h shell hshell]

theorem tryCatch (f : Interrupt → Run α) :
    SameWith parameters (tryCatch x f) (tryCatch y f) := by
  intro shell hshell
  rw [tryCatch_apply, tryCatch_apply, h shell hshell]

theorem during {enter : Shell → Shell} {leave : Shell → Shell → Shell}
    (henter : ∀ shell, (enter shell).parameters = shell.parameters) :
    SameWith parameters (Run.during enter leave x) (Run.during enter leave y) := by
  intro shell hshell
  simp only [Run.during, h (enter shell) ((henter shell).trans hshell)]

end

section

variable {parameters : List String} {x y : Run Outcome} (h : SameWith parameters x y)

include h

theorem withExpansionErrors :
    SameWith parameters (Run.withExpansionErrors x) (Run.withExpansionErrors y) :=
  fun shell hshell => withExpansionErrors_congr (h { shell with expansionErrors := "" } hshell)

theorem withInput (input : String) :
    SameWith parameters (Run.withInput input x) (Run.withInput input y) := by
  refine h.during fun shell => ?_
  split <;> rfl

theorem around (streams : Streams) :
    SameWith parameters (streams.around x) (streams.around y) :=
  fun shell hshell => around_congr streams (h shell hshell)

end

end SameWith

end Run

/-! ## A command in a group -/

section

variable {r : Runner} {parameters : List String} {command other : Command}
  (h : ∀ input, SameWith parameters (Command.run r command input) (Command.run r other input))
  (hlabel : command.label = other.label)

include h hlabel

theorem Command.sameWith_runStages (several : Bool) (input : String) (o : Outcome) :
    SameWith parameters (runStages r several input o [command])
      (runStages r several input o [other]) := by
  rw [runStages, runStages, hlabel]
  exact (((h input).tryCatch _).after _).bind _

theorem Pipeline.sameWith_run (negated : Bool) :
    SameWith parameters (run r ⟨[command], negated⟩) (run r ⟨[other], negated⟩) := by
  intro shell hshell
  rw [run, run, bind_apply, bind_apply, get_apply]
  exact (Command.sameWith_runStages h hlabel _ _ _).bind _ shell hshell

theorem Statement.sameWith_run : SameWith parameters (run r (Parser.statementOf command))
    (run r (Parser.statementOf other)) := by
  intro shell hshell
  rw [Parser.statementOf, Parser.statementOf, run_eq, run_eq, bind_apply, bind_apply]
  have hcounted := congrArg Frame.parameters (confined_accept r.limits shell).1
  rcases hcount : accept r.limits shell with ⟨i | counted, next⟩
  · rfl
  · rw [hcount] at hcounted
    exact (Pipeline.sameWith_run h hlabel false).bind _ next (hcounted.trans hshell)

/-- **Groups of one command** are the same where the commands are. -/
theorem Command.sameWith_group (input : String) : SameWith parameters
    (run r (.compound (.group [Parser.statementOf command]) []) input)
    (run r (.compound (.group [Parser.statementOf other]) []) input) := by
  have hbody : SameWith parameters (Compound.run r (.group [Parser.statementOf command]))
      (Compound.run r (.group [Parser.statementOf other])) := by
    rw [Compound.run, Compound.run, Statement.runAll, Statement.runAll]
    exact ((Statement.sameWith_run h hlabel).after _).bind _
  rw [run, run]
  exact SameWith.withExpansionErrors ((hbody.withInput _).around _)

end

/-! ## Functions -/

/-- A function of one command. -/
def FunctionBody.ofCommand (command : SimpleCommand) : FunctionBody :=
  ⟨.group [Parser.statementOf (.simple command)], []⟩

/-- **A function that passes its arguments on** does what it would do with the arguments written out
in quotes. -/
theorem Runner.CallsItself.call_forwarding {limits : Limits} {utilities : List (String × Utility)}
    {r : Runner} (hr : r.CallsItself limits utilities) {name : String} (hne : name ≠ "")
    (hplain : Glob.hasWildcard name = false) (line : Nat) (function : String)
    (arguments : List String) (input : String) :
    r.call function (.ofCommand (.ofWords name [.enclosing "" ""] line)) arguments input =
      r.call function (.ofCommand (.ofWords name (arguments.map .inQuotes) line)) arguments
        input := by
  have hsame (input : String) : SameWith arguments
      (Command.run r (.simple (.ofWords name [.enclosing "" ""] line)) input)
      (Command.run r (.simple (.ofWords name (arguments.map .inQuotes) line)) input) := by
    rw [Command.run, Command.run]
    refine SameWith.withExpansionErrors fun shell hshell => ?_
    rw [r.simple_forwarding hne hplain, hshell]
    have hwords := Word.allFields_inQuotes r.expander arguments shell
    exact (r.simple_ofWords hne hplain line input hwords).symm
  funext shell
  rw [hr.call, hr.call]
  split
  · rfl
  · exact calling_congr (Command.sameWith_group hsame rfl input _ rfl)

/-! ## The main statement -/

/-- **All positional parameters are passed on as they are.** Between double quotes they are the
fields of the word, whatever is in them, the first one with the text before them and the last one
with the text behind them; separators and files make no difference. So a command that is given all
of them has exactly these arguments, and a function of this command hands on those of its call. -/
theorem Runner.forwards_parameters (limits : Limits) (utilities : List (String × Utility))
    {before behind : String} (hbefore : Quotation.IsPlain before)
    (hbehind : Quotation.IsPlain behind) {name : String} (hne : name ≠ "")
    (hplain : Glob.hasWildcard name = false) :
    let r := Runner.ofLimits limits utilities
    (∃ word, Word.parse ("\"" ++ before ++ "$@" ++ behind ++ "\"") = .ok word ∧
      ∀ (x : Expander) (shell : Shell),
        word.fields x shell = (.ok (enclose before behind shell.parameters), shell)) ∧
    ∃ all, Word.parse "\"$@\"" = .ok all ∧
      (∀ line input shell, r.simple (.ofWords name [all] line) input shell =
        r.named name shell.parameters input shell) ∧
      ∀ line function arguments input,
        r.call function (.ofCommand (.ofWords name [all] line)) arguments input =
          r.call function (.ofCommand (.ofWords name (arguments.map .inQuotes) line)) arguments
            input := by
  intro r
  have hr : r.CallsItself limits utilities := callsItself_ofLimits limits utilities
  have hparse := Word.parse_enclosing Quotation.isPlain_empty Quotation.isPlain_empty
  exact ⟨⟨.enclosing before behind, Word.parse_enclosing hbefore hbehind,
      fun x => Word.fields_enclosing x before behind⟩,
    .enclosing "" "", hparse, r.simple_forwarding hne hplain, hr.call_forwarding hne hplain⟩

/-- Blanks and a star around parameters that are empty, of two lines and a wildcard. -/
theorem Runner.forwards_parameters_blanks :
    Quotation.IsPlain "a b" ∧ Quotation.IsPlain " *" ∧ "g" ≠ "" ∧ Glob.hasWildcard "g" = false ∧
    (∃ word, Word.parse "\"a b$@ *\"" = .ok word ∧ ∀ (x : Expander) (shell : Shell),
      shell.parameters = ["", "c\n d", "?"] →
        word.fields x shell = (.ok ["a b", "c\n d", "? *"], shell)) ∧
    ∀ line input shell, (Runner.ofLimits .standard []).simple
      (.ofWords "g" [.enclosing "" ""] line) input shell =
        (Runner.ofLimits .standard []).named "g" shell.parameters input shell := by
  have hbefore : Quotation.IsPlain "a b" := by simp [Quotation.IsPlain, Quotation.meaningful]
  have hbehind : Quotation.IsPlain " *" := by simp [Quotation.IsPlain, Quotation.meaningful]
  have hne : "g" ≠ "" := by decide
  have hplain : Glob.hasWildcard "g" = false := by decide
  obtain ⟨⟨word, hparse, hfields⟩, all, hall, hsimple, -⟩ :=
    forwards_parameters .standard [] hbefore hbehind hne hplain
  refine ⟨hbefore, hbehind, hne, hplain, ⟨word, hparse, fun x shell hshell => ?_⟩, ?_⟩
  · rw [hfields, hshell]
    rfl
  · have hparse := Word.parse_enclosing Quotation.isPlain_empty Quotation.isPlain_empty
    obtain rfl : Word.enclosing "" "" = all := Except.ok.inj (hparse.symm.trans hall)
    exact hsimple

end VirtualShell
