import VirtualShell.Proofs.Utility.Basic
import VirtualShell.Utility.Cat
import VirtualShell.Utility.Count
import VirtualShell.Utility.Excerpt
import VirtualShell.Utility.Search

/-!
# Utilities that read their operands

`cat`, `head`, `tail` and `wc` say that an operand is missing or a directory, and go on with the next
one. They do not expect an operand whose path leads nowhere, because a file stands on the way or too
many links do: it breaks them, and what was written for the operands before it is lost.

`grep` asks whether an operand is there before it reads it, so the operands themselves never break it.
But when it goes down into a directory it takes every path below for a file; a link below that leads
nowhere breaks it. So does a pattern that is refused for another reason than a flaw.

* `Utility.Cat.breaksAt_run`, `Utility.Excerpt.breaksAt_run`, `Utility.Count.breaksAt_run` — one such
  operand is enough.
* `Utility.Search.breaksAt_sourcesOf` — an operand breaks the search by what is below it.
* **`Utility.Search.breaksAt_run`** — when `grep` breaks.
-/

namespace VirtualShell.Utility

variable {call : Call} {files : FileSystem}

/-- The dash that stands for missing operands has no path to lose. -/
theorem lostOperand_or_dash (operands : List String) :
    (∃ file ∈ (if operands.isEmpty then ["-"] else operands), LostOperand call files file) ↔
      ∃ file ∈ operands, LostOperand call files file := by
  cases operands with
  | nil => simp [LostOperand]
  | cons => rfl

/-! ## Joining, excerpts and counts -/

namespace Cat

theorem breaksAt_writeFiles (hroot : files.nodeAt? .root = some .directory) (number : Bool)
    (o : Outcome) (line : Nat) (operands : List String) :
    BreaksAt files (writeFiles call number o line operands) ↔
      ∃ file ∈ operands, LostOperand call files file := by
  induction operands generalizing o line with
  | nil => exact iff_of_false (not_breaksAt_pure o) (by simp)
  | cons file rest ih =>
    rw [List.exists_mem_cons_iff, writeFiles]
    refine breaksAt_textOf_bind hroot fun found => ?_
    cases found with
    | error => exact ih _ _
    | ok text => exact ih _ _

/-- **`cat` breaks** at an operand whose path leads nowhere. -/
theorem breaksAt_run (hroot : files.nodeAt? .root = some .directory) :
    BreaksAt files (run call) ↔ ∃ number operands,
      readArguments false call.arguments = .ok (number, operands) ∧
        ∃ file ∈ operands, LostOperand call files file := by
  rw [run]
  cases readArguments false call.arguments with
  | error e => exact iff_of_false (not_breaksAt_pure _) (by simp)
  | ok arguments =>
    obtain ⟨number, operands⟩ := arguments
    dsimp only
    rw [breaksAt_writeFiles hroot, lostOperand_or_dash]
    simp

end Cat

namespace Excerpt

theorem breaksAt_writeFiles (hroot : files.nodeAt? .root = some .directory) (name : String)
    (select : List String → List String) (withHeaders isFirst : Bool) (o : Outcome)
    (operands : List String) :
    BreaksAt files (writeFiles name select call withHeaders isFirst o operands) ↔
      ∃ file ∈ operands, LostOperand call files file := by
  induction operands generalizing isFirst o with
  | nil => exact iff_of_false (not_breaksAt_pure o) (by simp)
  | cons file rest ih =>
    rw [List.exists_mem_cons_iff, writeFiles]
    refine breaksAt_textOf_bind hroot fun found => ?_
    cases found with
    | error => exact ih _ _
    | ok text => exact ih _ _

/-- **`head` and `tail` break** at an operand whose path leads nowhere, if their number of lines is
one. -/
theorem breaksAt_run (hroot : files.nodeAt? .root = some .directory) (name : String)
    (select : LineCount → List String → List String) :
    BreaksAt files (run name select call) ↔ ∃ count operands,
      readArguments none call.arguments = .ok (count, operands) ∧
        (count.elim (some .standard) LineCount.read?).isSome ∧
        ∃ file ∈ operands, LostOperand call files file := by
  rw [run]
  cases readArguments none call.arguments with
  | error e => exact iff_of_false (not_breaksAt_pure _) (by simp)
  | ok arguments =>
    obtain ⟨count, operands⟩ := arguments
    dsimp only
    cases hcount : count.elim (some .standard) LineCount.read? with
    | none => exact iff_of_false (not_breaksAt_pure _) (by simp [hcount])
    | some lines =>
      dsimp only
      rw [breaksAt_writeFiles hroot, lostOperand_or_dash]
      simp [hcount]

end Excerpt

namespace Count

theorem breaksAt_readFiles (hroot : files.nodeAt? .root = some .directory) (named : Bool)
    (o : Outcome) (operands : List String) :
    BreaksAt files (readFiles call named o operands) ↔
      ∃ file ∈ operands, LostOperand call files file := by
  induction operands generalizing o with
  | nil => exact iff_of_false (not_breaksAt_pure _) (by simp)
  | cons file rest ih =>
    rw [List.exists_mem_cons_iff, readFiles]
    refine breaksAt_textOf_bind hroot fun found => ?_
    cases found with
    | error => exact ih _
    | ok text => exact (breaksAt_bind_pure _).trans (ih o)

/-- **`wc` breaks** at an operand whose path leads nowhere. -/
theorem breaksAt_run (hroot : files.nodeAt? .root = some .directory) :
    BreaksAt files (run call) ↔ ∃ chosen operands,
      rules.read [] call.arguments = .ok (chosen, operands) ∧
        ∃ file ∈ operands, LostOperand call files file := by
  rw [run]
  cases rules.read [] call.arguments with
  | error e => exact iff_of_false (not_breaksAt_pure _) (by simp)
  | ok arguments =>
    obtain ⟨chosen, operands⟩ := arguments
    dsimp only
    rw [breaksAt_bind_pure, breaksAt_readFiles hroot]
    cases operands with
    | nil => simp [LostOperand]
    | cons => simp

end Count

namespace Search

/-- **Something below a directory leads nowhere.** -/
def HasLostBelow (files : FileSystem) (path : String) : Prop :=
  ∃ p ∈ files.paths, p.startsWith (Text.dropSlashes path ++ "/") ∧ ¬ files.has p

theorem quiet_sourcesBelow (shown path : String) : Quiet (sourcesBelow shown path) := by
  rw [sourcesBelow]
  exact quiet_get.bind fun _ => quiet_mapM (fun _ => (quiet_ask _).bind fun _ => quiet_pure _) _

theorem breaksAt_sourcesBelow (hroot : files.nodeAt? .root = some .directory) (shown path : String) :
    BreaksAt files (sourcesBelow shown path) ↔ HasLostBelow files path := by
  rw [sourcesBelow, breaksAt_get_bind, HasLostBelow]
  dsimp only
  rw [breaksAt_mapM fun _ => (quiet_ask _).bind fun _ => quiet_pure _]
  simp only [breaksAt_bind_pure, breaksAt_ask, List.mem_filter, Bool.and_eq_true,
    Bool.not_eq_true', Bool.eq_false_iff, and_assoc]
  refine exists_congr fun p => and_congr_right fun _ => and_congr_right fun _ => ?_
  constructor
  · rintro ⟨hdirectory, e, he⟩ hhas
    obtain ⟨content, hread⟩ := FileSystem.exists_read hroot hhas hdirectory
    rw [hread] at he
    cases he
  · intro hhas
    exact ⟨mt FileSystem.has_of_isDirectory hhas, FileSystem.exists_read_error hhas⟩

theorem quiet_sourcesOf (recursive : Bool) (operand : String) :
    Quiet (sourcesOf call recursive operand) := by
  rw [sourcesOf]
  split
  · exact quiet_pure _
  · refine quiet_get.bind fun _ => ?_
    split
    · exact quiet_pure _
    · split
      · split
        · exact quiet_sourcesBelow _ _
        · exact quiet_pure _
      · exact (quiet_ask _).bind fun _ => quiet_pure _

/-- **An operand breaks the search** by what is below it. -/
theorem breaksAt_sourcesOf (hroot : files.nodeAt? .root = some .directory) (recursive : Bool)
    (operand : String) : BreaksAt files (sourcesOf call recursive operand) ↔
      operand ≠ "-" ∧ recursive = true ∧ files.isDirectory (pathOf call operand) ∧
        HasLostBelow files (pathOf call operand) := by
  rw [sourcesOf]
  by_cases hdash : operand = "-"
  · rw [if_pos hdash]
    exact iff_of_false (not_breaksAt_pure _) (by simp [hdash])
  rw [if_neg hdash, breaksAt_get_bind]
  by_cases hhas : files.has (pathOf call operand)
  · by_cases hdirectory : files.isDirectory (pathOf call operand)
    · cases recursive with
      | true => simp [hhas, hdirectory, hdash, breaksAt_sourcesBelow hroot]
      | false => simpa [hhas, hdirectory] using not_breaksAt_pure _
    · obtain ⟨content, hread⟩ := FileSystem.exists_read hroot hhas hdirectory
      simp only [hhas, hdirectory, Bool.not_true, Bool.false_eq_true, if_false, false_and,
        and_false, breaksAt_bind_pure, breaksAt_ask, hread]
      simp
  · have hdirectory := mt FileSystem.has_of_isDirectory hhas
    simpa [hhas, hdirectory] using not_breaksAt_pure _

/-- The operands that are searched. -/
def searched (s : Settings) (operands : List String) : List String :=
  if !operands.isEmpty then operands else if s.recursive then ["."] else ["-"]

/-- **`grep` breaks** on a pattern that is refused without a flaw, and when it goes down into a
directory with something below it that leads nowhere. -/
theorem breaksAt_run (hroot : files.nodeAt? .root = some .directory) :
    BreaksAt files (run call) ↔ ∃ s operands pattern,
      readArguments .standard call.arguments = .ok (s, operands) ∧ s.pattern = some pattern ∧
        ((∃ e, Regex.compile call.host.named? s.flags (s.expression pattern) = .error e ∧
            ∀ flaw place, e ≠ .flaw flaw place) ∨
          (∃ regex, Regex.compile call.host.named? s.flags (s.expression pattern) = .ok regex) ∧
            s.recursive ∧ ∃ operand ∈ searched s operands, operand ≠ "-" ∧
              files.isDirectory (pathOf call operand) ∧ HasLostBelow files (pathOf call operand)) := by
  rw [run]
  rcases hread : readArguments .standard call.arguments with e | ⟨s, operands⟩
  · exact iff_of_false (not_breaksAt_pure _) (by simp)
  dsimp only
  cases hpattern : s.pattern with
  | none => exact iff_of_false (not_breaksAt_pure _) (by simp_all)
  | some pattern =>
    dsimp only
    rcases hcompile : Regex.compile call.host.named? s.flags (s.expression pattern) with e | regex
    · cases e with
      | flaw flaw place =>
        refine iff_of_false (not_breaksAt_pure _) ?_
        rintro ⟨_, _, _, ⟨⟩, hsome, hbreaks⟩
        cases hpattern.symm.trans hsome
        rcases hbreaks with ⟨e, he, hflaw⟩ | ⟨⟨regex, hregex⟩, -⟩
        · cases hcompile.symm.trans he
          exact hflaw _ _ rfl
        · cases hcompile.symm.trans hregex
      | repetitionTooLarge | incompatibleFlags | numeral =>
        exact iff_of_true (breaksAt_throw _)
          ⟨s, operands, pattern, rfl, hpattern, .inl ⟨_, hcompile, by simp⟩⟩
    · dsimp only
      rw [breaksAt_bind_pure, breaksAt_mapM fun _ => quiet_sourcesOf _ _]
      simp only [breaksAt_sourcesOf hroot]
      constructor
      · rintro ⟨operand, hmem, hdash, hrecursive, hbelow⟩
        exact ⟨s, operands, pattern, rfl, hpattern,
          .inr ⟨⟨regex, hcompile⟩, hrecursive, operand, hmem, hdash, hbelow⟩⟩
      · rintro ⟨_, _, _, ⟨⟩, hsome, hbreaks⟩
        cases hpattern.symm.trans hsome
        rcases hbreaks with ⟨e, he, -⟩ | ⟨-, hrecursive, operand, hmem, hdash, hbelow⟩
        · cases hcompile.symm.trans he
        · exact ⟨operand, hmem, hdash, hrecursive, hbelow⟩

end Search

end VirtualShell.Utility
