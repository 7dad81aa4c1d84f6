import VirtualShell.Proofs.Reading.Numeral
import VirtualShell.Proofs.Utility.Basic
import VirtualShell.Utility.Sort

/-!
# Sorting that breaks

`sort` stops at the first operand that it cannot read. It expects this one to be missing or a
directory and says so; if its path leads nowhere, it breaks. The arguments are read before, and they
break it when a field number of a key has too many digits, which is no flaw like the others.

* `Utility.Sort.Numerable` — a numeral is all that reading arguments breaks on.
* `Utility.Sort.breaksAt_run` — the first operand that cannot be read decides.
-/

namespace VirtualShell.Utility.Sort

variable {α β : Type} {call : Call} {files : FileSystem}

/-! ## Reading arguments -/

/-- **A reading breaks on a numeral only**, and then this has too many digits. -/
def Numerable (x : Reading α) : Prop :=
  ∀ f, x.run = .error f →
    ∃ count, Text.maxDecimalDigits < count ∧ f = .numeral (.tooManyDigits count)

theorem numerable_pure (a : α) : Numerable (pure a : Reading α) := nofun

theorem numerable_throw (flaw : Flaw) : Numerable (throw flaw : Reading α) := nofun

theorem Numerable.bind {x : Reading α} {f : α → Reading β} (hx : Numerable x)
    (hf : ∀ a, Numerable (f a)) : Numerable (x >>= f) := by
  intro fault hfault
  rw [ExceptT.run_bind] at hfault
  rcases hrun : x.run with e | flaw | a <;> rw [hrun] at hfault
  · cases hfault
    exact hx fault hrun
  · cases hfault
  · exact hf a fault hfault

/-- The digits of a field number are decimal ones. -/
theorem isDecimal_of_fieldDigits? {part digits : String} (h : fieldDigits? part = some digits) :
    digits.toList ≠ [] ∧ ∀ c ∈ digits.toList, Text.isDecimal c = true := by
  rw [fieldDigits?, List.span_eq_takeWhile_dropWhile] at h
  simp only [Option.ite_none_right_eq_some, Bool.and_eq_true, Bool.not_eq_true',
    List.isEmpty_eq_false_iff, Option.some.injEq] at h
  obtain ⟨⟨hne, -⟩, rfl⟩ := h
  rw [String.toList_ofList]
  exact ⟨hne, fun c hc => List.mem_takeWhile_imp hc⟩

theorem numerable_readField (key which part : String) : Numerable (readField key which part) := by
  rw [readField]
  cases hdigits : fieldDigits? part with
  | none => exact numerable_throw _
  | some digits =>
    obtain ⟨hne, hdecimal⟩ := isDecimal_of_fieldDigits? hdigits
    by_cases hmany : Text.maxDecimalDigits < digits.toList.length
    · have hread := Text.readDecimal_of_many_digits hdecimal hmany
      rw [String.ofList_toList] at hread
      dsimp only
      rw [hread]
      rintro f ⟨⟩
      exact ⟨_, hmany, rfl⟩
    · obtain ⟨n, -, hread⟩ := Text.readDecimal_of_digits hdecimal hne (Nat.not_lt.1 hmany)
      rw [String.ofList_toList] at hread
      dsimp only
      rw [hread]
      dsimp only
      split
      · exact numerable_throw _
      · exact numerable_pure _

theorem numerable_readKey (key : String) : Numerable (readKey key) := by
  rw [readKey]
  split
  · exact (numerable_readField _ _ _).bind fun _ => numerable_pure _
  · exact (numerable_readField _ _ _).bind fun _ =>
      (numerable_readField _ _ _).bind fun _ => numerable_pure _

theorem numerable_readSeparator (text : String) : Numerable (readSeparator text) := by
  rw [readSeparator]
  split
  · exact numerable_throw _
  · exact numerable_pure _
  · exact numerable_throw _

theorem numerable_assign (s : Settings) (isKey : Bool) (value : String) :
    Numerable (s.assign isKey value) := by
  rw [Settings.assign]
  split
  · exact (numerable_readKey _).bind fun _ => numerable_pure _
  · exact (numerable_readSeparator _).bind fun _ => numerable_pure _

theorem numerable_letters (s : Settings) (letters : List Char) : Numerable (s.letters letters) := by
  induction letters generalizing s with
  | nil => exact numerable_pure _
  | cons c rest ih =>
    rw [Settings.letters]
    split
    · split
      · exact numerable_pure _
      · exact (numerable_assign _ _ _).bind fun _ => numerable_pure _
    · split
      · exact ih _
      · exact numerable_throw _

/-- **Reading the arguments of `sort`** breaks on a numeral only. -/
theorem numerable_readArguments (s : Settings) (words : List String) :
    Numerable (readArguments s words) := by
  induction hn : words.length using Nat.strong_induction_on generalizing s words with
  | _ n ih =>
    subst hn
    rw [readArguments.eq_def]
    split
    · exact numerable_pure _
    next word rest =>
    have hrest (s : Settings) : Numerable (readArguments s rest) :=
      ih rest.length (by simp) s rest rfl
    have hnext (s : Settings) (value : String) (words : List String) (h : rest = value :: words) :
        Numerable (readArguments s words) :=
      ih words.length (by simp [h]) s words rfl
    split
    · exact numerable_pure _
    · split
      · exact hrest _
      · exact (numerable_assign _ _ _).bind fun _ => hrest _
      · split
        · split
          · exact numerable_throw _
          · exact (numerable_assign _ _ _).bind fun _ => hnext _ _ _ rfl
        · split
          · exact numerable_throw _
          · split
            · refine (numerable_letters _ _).bind fun ⟨s, needed⟩ => ?_
              cases needed with
              | none => exact hrest s
              | some c =>
                cases rest with
                | nil => exact numerable_throw _
                | cons value words =>
                  exact (numerable_assign _ _ _).bind fun _ => hnext _ _ _ rfl
            · exact (hrest _).bind fun _ => numerable_pure _

/-! ## Reading files -/

/-- **The first operand that cannot be read** is one whose path leads nowhere. -/
def LostFirst (call : Call) (files : FileSystem) (operands : List String) : Prop :=
  ∃ before file after, operands = before ++ file :: after ∧ LostOperand call files file ∧
    ∀ earlier ∈ before, ReadableOperand call files earlier

theorem lostFirst_cons_iff {file : String} {rest : List String} :
    LostFirst call files (file :: rest) ↔ LostOperand call files file ∨
      ReadableOperand call files file ∧ LostFirst call files rest := by
  constructor
  · rintro ⟨before, lost, after, heq, hlost, hbefore⟩
    cases before with
    | nil =>
      cases heq
      exact .inl hlost
    | cons earlier before =>
      cases heq
      exact .inr ⟨hbefore _ List.mem_cons_self, before, lost, after, rfl, hlost,
        fun other hother => hbefore other (List.mem_cons_of_mem _ hother)⟩
  · rintro (hlost | ⟨hread, before, lost, after, rfl, hlost, hbefore⟩)
    · exact ⟨[], file, rest, rfl, hlost, by simp⟩
    · exact ⟨file :: before, lost, after, rfl, hlost, List.forall_mem_cons.2 ⟨hread, hbefore⟩⟩

theorem breaksAt_readFiles (call : Call) (hroot : files.nodeAt? .root = some .directory)
    (operands : List String) :
    BreaksAt files (readFiles call operands) ↔ LostFirst call files operands := by
  induction operands with
  | nil => exact iff_of_false (not_breaksAt_pure _) (by simp [LostFirst])
  | cons file rest ih =>
    rw [readFiles, breaksAt_bind, lostFirst_cons_iff]
    rcases textOf_cases hroot call file with ⟨hlost, hbreaks⟩ | ⟨hlost, found, hfound, hreadable⟩
    · simp [hlost, hbreaks]
    · have hreads : ¬ BreaksAt files (textOf call file) := not_breaksAt_iff.2 ⟨found, by rw [hfound]⟩
      simp only [hlost, hreads, hfound, ← hreadable, false_or, Except.ok.injEq, exists_eq_left']
      cases found with
      | error reason => exact iff_of_false (not_breaksAt_pure _) (by simp)
      | ok text =>
        rw [← ih, and_iff_right ⟨text, rfl⟩]
        refine breaksAt_bind_of_sure fun more next => ?_
        cases more <;> exact not_breaksAt_pure _

/-- **`sort` breaks** on a field number with too many digits, and at the first operand that cannot be
read if its path leads nowhere. -/
theorem breaksAt_run (hroot : files.nodeAt? .root = some .directory) :
    BreaksAt files (run call) ↔ "--help" ∉ call.arguments ∧
      ((∃ count, (readArguments .standard call.arguments).run =
          .error (.numeral (.tooManyDigits count))) ∨
        ∃ s operands, (readArguments .standard call.arguments).run = .ok (.ok (s, operands)) ∧
          LostFirst call files operands) := by
  rw [run]
  by_cases hhelp : "--help" ∈ call.arguments
  · rw [if_pos hhelp]
    exact iff_of_false (not_breaksAt_pure _) fun h => h.1 hhelp
  · rw [if_neg hhelp]
    rcases hrun : (readArguments .standard call.arguments).run with fault | flaw | ⟨s, operands⟩
    · obtain ⟨count, -, rfl⟩ := numerable_readArguments _ _ fault hrun
      exact iff_of_true (breaksAt_throw _) ⟨hhelp, .inl ⟨count, rfl⟩⟩
    · exact iff_of_false (not_breaksAt_pure _) (by simp)
    · have hfiles := breaksAt_readFiles call hroot
        (if operands.isEmpty then ["-"] else operands)
      have hdash : LostFirst call files (if operands.isEmpty then ["-"] else operands) ↔
          LostFirst call files operands := by
        cases operands with
        | nil =>
          have hnone : ¬ LostFirst call files [] := by simp [LostFirst]
          exact lostFirst_cons_iff.trans (by simp [hnone, LostOperand])
        | cons => rfl
      dsimp only
      rw [breaksAt_bind_of_sure, hfiles, hdash]
      · simp [hhelp]
      · intro found next
        cases found <;> exact not_breaksAt_pure _

end VirtualShell.Utility.Sort
