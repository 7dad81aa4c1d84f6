import VirtualShell.Proofs.Expansion.AllParameters
import VirtualShell.Proofs.Reading.SourceCommand
import VirtualShell.Proofs.Reading.SourceTokens

/-!
# Variables between double quotes

A variable between double quotes is a word of one piece. It is expanded to the value of the variable
as one quoted text, whatever characters the value has.

* `Word.ofVariable` — the word.
* `Word.isWordText_ofVariable` — the scan of a word passes over it.
* `Word.parts_ofVariable` — it is read as one piece.
* **`Word.expand_ofVariable`** — what it is expanded to.
-/

namespace VirtualShell

/-- A variable between double quotes. -/
def Word.ofVariable (name : String) : Word :=
  ⟨[.doubleQuoted [.parameter name none]], "\"$" ++ name ++ "\""⟩

theorem Word.toList_raw_ofVariable (name : String) :
    (Word.ofVariable name).raw.toList = '"' :: ('$' :: name.toList ++ ['"']) := by
  simp [Word.ofVariable]

theorem Word.raw_ofVariable_ne (name : String) {text : String}
    (h : text.toList.head? ≠ some '"') : (ofVariable name).raw ≠ text := by
  rintro rfl
  rw [toList_raw_ofVariable] at h
  exact h rfl

theorem Text.ne_of_isNameStart {c x : Char} (hc : isNameStart c = true)
    (hx : isNameStart x = false) : c ≠ x := by
  rintro rfl
  rw [hc] at hx
  cases hx

theorem Arith.ne_of_isName {name other : String} (h : isName name = true)
    (hother : isName other = false) : name ≠ other := by
  rintro rfl
  rw [h] at hother
  cases hother

/-! ## Reading it -/

section

variable {name : String} (h : Arith.isName name = true)
include h

/-- The characters of a name stand for themselves between double quotes. -/
theorem Quotation.isPlain_name : IsPlain name := by
  intro c hc hmeaningful
  have hmark : c ∈ Delimiter.marks := by
    revert hmeaningful
    simp only [meaningful, Delimiter.marks, List.mem_cons, List.not_mem_nil, or_false]
    rintro (rfl | rfl | rfl | rfl) <;> simp
  exact ((isPlainWord_of_isName h).chars c hc).2 hmark

/-- A dollar sign before a name opens nothing. -/
theorem Quotation.scan_dollar_name (stop : Char → Bool) (read rest : List Char) :
    Delimiter.scan stop [.double] read ('$' :: (name.toList ++ rest)) =
      Delimiter.scan stop [.double] (name.toList.reverse ++ '$' :: read) rest := by
  obtain ⟨c, chars, hname, hstart, -⟩ := Arith.exists_cons_of_isName h
  have hmove : Delimiter.move (some .double) '$' (name.toList ++ rest).head? = .pass := by
    have hparen : c ≠ '(' := Text.ne_of_isNameStart hstart (by decide)
    have hbrace : c ≠ '\x7b' := Text.ne_of_isNameStart hstart (by decide)
    rw [hname, List.cons_append, List.head?_cons]
    simp [Delimiter.move, hparen, hbrace]
  have hpass : Delimiter.scan stop [.double] read ('$' :: (name.toList ++ rest)) =
      Delimiter.scan stop [.double] ('$' :: read) (name.toList ++ rest) := by
    refine Delimiter.scan_pass _ _ rfl ?_
    exact hmove
  rw [hpass, scan_plain (isPlain_name h)]

theorem Word.passes_ofVariable : Delimiter.Passes (ofVariable name).raw.toList := by
  intro read rest
  have hraw : (ofVariable name).raw.toList ++ rest = '"' :: '$' :: (name.toList ++ '"' :: rest) := by
    simp [toList_raw_ofVariable]
  rw [hraw, Delimiter.scan_enter _ _ rfl rfl, Quotation.scan_dollar_name h,
    Delimiter.scan_leave _ _ rfl rfl, toList_raw_ofVariable]
  simp

/-- **The scan of a word** passes over a variable between double quotes. -/
theorem Word.isWordText_ofVariable : IsWordText (ofVariable name).raw.toList := by
  have hpasses := passes_ofVariable h
  rw [toList_raw_ofVariable] at hpasses ⊢
  exact isWordText_cons rfl (by decide) (by decide) (Text.isDigit_of_ascii (by decide)) hpasses

theorem Quotation.close_variable :
    Delimiter.close .double ('$' :: name.toList ++ ['"']) = .ok ('$' :: name.toList, []) := by
  rw [Delimiter.close, List.cons_append, scan_dollar_name h, Delimiter.scan_leave _ _ rfl rfl,
    List.tail_cons, Delimiter.scan_stop _ fun _ _ => rfl]
  simp

/-- A name that ends the text is taken as a whole. -/
theorem takeParameter_name : takeParameter name.toList = some (name.toList, []) := by
  obtain ⟨c, chars, hname, hstart, hchars⟩ := Arith.exists_cons_of_isName h
  have hdrop : chars.dropWhile Text.isNameChar = [] := by simpa using hchars
  have htake : chars.takeWhile Text.isNameChar = chars := by simpa using hchars
  rw [hname, takeParameter, takeName, if_pos hstart, hdrop, htake]

/-- **It is read as one piece.** -/
theorem Word.parts_ofVariable (n : Nat) :
    (Level.ofDepth (n + 2)).parts .unquoted (ofVariable name).raw.toList =
      .ok (ofVariable name).parts := by
  have hinner : (Level.ofDepth (n + 1)).parts .double ('$' :: name.toList) =
      .ok [.parameter name none] := by
    change (Level.ofDepth n).partsOf .double ('$' :: name.toList) = _
    obtain ⟨c, chars, hname, hstart, hchars⟩ := Arith.exists_cons_of_isName h
    have hparameter := takeParameter_name h
    have hread : (RawPart.parameter name.toList).read (Level.ofDepth n) =
        .ok (.parameter name none) := by
      rw [RawPart.read, String.ofList_toList]
    rw [hname] at hparameter hread ⊢
    rw [Level.partsOf_eq_assemble, Piece.ofText, if_neg (by decide)]
    dsimp only
    rw [Piece.cut_cons (by decide), Piece.take, if_neg (by decide), if_neg (by decide),
      if_neg (by decide), if_pos (by decide), Piece.takeDollar_parameter
        (Text.ne_of_isNameStart hstart (by decide)) (Text.ne_of_isNameStart hstart (by decide))
        (by simp), hparameter, Piece.cut, Level.assemble, hread]
    rfl
  change (Level.ofDepth (n + 1)).partsOf .unquoted _ = _
  rw [toList_raw_ofVariable, Level.partsOf]
  exact Quotation.scanParts_enclosed (Level.ofDepth (n + 1)) (Quotation.close_variable h) hinner

/-! ## Expanding it -/

/-- The parameter of such a name is a variable. -/
theorem Shell.parameter?_name (shell : Shell) :
    shell.parameter? name = .ok (shell.variables.get? name) := by
  obtain ⟨c, chars, hname, hstart, -⟩ := Arith.exists_cons_of_isName h
  have hdigits : Text.allDigits name = false := by
    rw [Text.allDigits, hname, List.all_cons, Arith.isDigit_of_isNameStart hstart]
    simp
  unfold parameter?
  split
  case h_9 => rw [hdigits]; rfl
  all_goals exact absurd rfl (Arith.ne_of_isName h (by decide))

end

variable {name value : String} {shell : Shell} (h : Arith.isName name = true)
  (hvalue : shell.variables.get? name = some value)
include h hvalue

/-- **It is expanded to the value** of the variable, as a quoted text. -/
theorem Word.expand_ofVariable (x : Expander) :
    (ofVariable name).expand x false shell =
      (.ok [.literal true "", .literal true value], shell) := by
  have hall : name ≠ "@" := Arith.ne_of_isName h (by decide)
  have hjoined : name ≠ "*" := Arith.ne_of_isName h (by decide)
  have hparameter : expandParameter name true shell = (.ok [.literal true value], shell) := by
    rw [expandParameter, Run.bind_apply]
    change (if (true && decide (name = "@")) = true then _ else _ : Run _) shell = _
    rw [if_neg (by simp [hall]), if_neg (by simp [hjoined]), Shell.parameter?_name h, hvalue]
    rfl
  have hinner : Part.expandAll x [.parameter name none] true shell =
      (.ok [.literal true value], shell) := by
    rw [Part.expandAll, Run.bind_apply, Part.expand, hparameter]
    rfl
  have hpiece : Part.expand x (.doubleQuoted [.parameter name none]) false shell =
      (.ok [.literal true "", .literal true value], shell) := by
    have hnone : holdsAllParameters [.parameter name none] = false := by
      simp [holdsAllParameters, hall]
    rw [Part.expand, Run.bind_apply, hinner]
    dsimp only
    rw [hnone]
    rfl
  change Part.expandAll x [.doubleQuoted [.parameter name none]] false shell = _
  rw [Part.expandAll, Run.bind_apply, hpiece]
  rfl

end VirtualShell
