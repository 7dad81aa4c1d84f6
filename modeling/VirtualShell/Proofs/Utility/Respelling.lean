import VirtualShell.Proofs.FileSystem.Path
import VirtualShell.Utility.Registry

/-!
# The spelling of a directory

The directory of a shell is a text, and many texts mean the same place: slashes may be doubled, there
may be one at the end or none at the start, and names may lead up again. One of these texts is the
path as it is written. A utility that reads its operands from its directory cannot tell them apart,
since all it does with the directory is to find the places of operands.

* `Path.normalText` — the normal spelling of a text.
* `Call.respelled` — a call with its directory in the normal spelling.
* **`Utility.apply_respelled`** — all utilities do the same in either spelling, apart from the one
  that shows it.
-/

namespace VirtualShell

/-! ## Normal spellings -/

namespace Path

/-- **The normal spelling** of a text: how the place is written that the text means. -/
def normalText (text : String) : String := (ofString text).render

@[simp] theorem ofString_normalText (text : String) : ofString (normalText text) = ofString text :=
  ofString_render (isNormal_ofString text)

theorem normalText_render {p : Path} (h : p.IsNormal) : normalText p.render = p.render :=
  congrArg render (ofString_render h)

theorem normalText_slash : normalText "/" = "/" := by
  rw [normalText, ofString_slash]
  rfl

end Path

/-! ## Calls -/

/-- A call with its directory in the normal spelling. -/
def Call.respelled (call : Call) : Call :=
  { call with directory := Path.normalText call.directory }

@[simp] theorem Call.respelled_host (call : Call) : call.respelled.host = call.host := rfl

namespace Utility

variable (call : Call)

@[simp] theorem pathOf_respelled : pathOf call.respelled = pathOf call := by
  funext operand
  simp only [pathOf, Call.respelled, Path.ofString_normalText]

@[simp] theorem textOf_respelled : textOf call.respelled = textOf call := by
  funext operand
  simp only [textOf, pathOf_respelled]
  rfl

/-! ## Reading -/

theorem Cat.writeFiles_respelled (number : Bool) (o : Outcome) (line : Nat)
    (operands : List String) : writeFiles call.respelled number o line operands =
      writeFiles call number o line operands := by
  induction operands generalizing o line with
  | nil => rfl
  | cons operand operands ih => simp only [writeFiles, textOf_respelled, ih]

theorem Excerpt.writeFiles_respelled (name : String) (select : List String → List String)
    (withHeaders isFirst : Bool) (o : Outcome) (operands : List String) :
    writeFiles name select call.respelled withHeaders isFirst o operands =
      writeFiles name select call withHeaders isFirst o operands := by
  induction operands generalizing isFirst o with
  | nil => rfl
  | cons operand operands ih => simp only [writeFiles, textOf_respelled, ih]

theorem Count.readFiles_respelled (named : Bool) (o : Outcome) (operands : List String) :
    readFiles call.respelled named o operands = readFiles call named o operands := by
  induction operands generalizing o with
  | nil => rfl
  | cons operand operands ih => simp only [readFiles, textOf_respelled, ih]

theorem Sort.readFiles_respelled (operands : List String) :
    readFiles call.respelled operands = readFiles call operands := by
  induction operands with
  | nil => rfl
  | cons operand operands ih => simp only [readFiles, textOf_respelled, ih]

theorem Search.sourcesOf_respelled (recursive : Bool) :
    sourcesOf call.respelled recursive = sourcesOf call recursive := by
  funext operand
  simp only [sourcesOf, pathOf_respelled]
  rfl

theorem Cat.run_respelled : run call.respelled = run call := by
  simp only [run, writeFiles_respelled]
  rfl

theorem Excerpt.run_respelled (name : String)
    (select : LineCount → List String → List String) :
    run name select call.respelled = run name select call := by
  simp only [run, writeFiles_respelled]
  rfl

theorem Count.run_respelled : run call.respelled = run call := by
  simp only [run, readFiles_respelled]
  rfl

theorem Sort.run_respelled : run call.respelled = run call := by
  simp only [run, readFiles_respelled]
  rfl

theorem Search.run_respelled : run call.respelled = run call := by
  simp only [run, sourcesOf_respelled]
  rfl

/-! ## Listing -/

/-- On the way down the same directories are listed. -/
theorem Listing.listDirectory_respelled (s : Settings) (withHeaders : Bool) (depth : Nat) :
    listDirectory call.respelled s withHeaders depth = listDirectory call s withHeaders depth := by
  induction depth with
  | zero => rfl
  | succ depth ih =>
    funext page shown
    simp only [listDirectory, pathOf_respelled, Call.respelled_host, ih]

theorem Listing.run_respelled : run call.respelled = run call := by
  simp only [run, sortOperands, pathOf_respelled, listDirectory_respelled]
  rfl

/-! ## Changing -/

theorem Directory.makeAll_respelled (s : Settings) (o : Outcome) (names : List String) :
    makeAll call.respelled s o names = makeAll call s o names := by
  induction names generalizing o with
  | nil => rfl
  | cons name names ih => simp only [makeAll, pathOf_respelled, ih]

theorem Directory.make_respelled : make call.respelled = make call := by
  simp only [make, makeAll_respelled]
  rfl

theorem File.removeFile_respelled : removeFile call.respelled = removeFile call := by
  funext s o file
  simp only [removeFile, pathOf_respelled]

theorem File.remove_respelled : remove call.respelled = remove call := by
  simp only [remove, removeFile_respelled]
  rfl

theorem File.touchFile_respelled : touchFile call.respelled = touchFile call := by
  funext existing o file
  simp only [touchFile, pathOf_respelled]

theorem File.touch_respelled : touch call.respelled = touch call := by
  simp only [touch, touchFile_respelled]
  rfl

/-! ## All utilities -/

/-- **Utilities do not see how their directory is spelled**, apart from the one that shows it. -/
theorem apply_respelled {name : String} {utility : Utility} (h : (name, utility) ∈ all)
    (hname : name ≠ "pwd") : utility call.respelled = utility call := by
  simp only [all, List.mem_cons, Prod.mk.injEq, List.not_mem_nil, or_false] at h
  rcases h with ⟨-, rfl⟩ | ⟨-, rfl⟩ | ⟨-, rfl⟩ | ⟨-, rfl⟩ | ⟨-, rfl⟩ | ⟨rfl, -⟩ | ⟨-, rfl⟩ |
    ⟨-, rfl⟩ | ⟨-, rfl⟩ | ⟨-, rfl⟩ | ⟨-, rfl⟩ | ⟨-, rfl⟩ | ⟨-, rfl⟩ | ⟨-, rfl⟩ | ⟨-, rfl⟩ | ⟨-, rfl⟩
  · rfl
  · exact Cat.run_respelled call
  · exact Search.run_respelled call
  · exact Listing.run_respelled call
  · exact Directory.make_respelled call
  · exact absurd rfl hname
  · exact File.touch_respelled call
  · exact File.remove_respelled call
  · exact Excerpt.run_respelled call _ _
  · exact Excerpt.run_respelled call _ _
  · exact Count.run_respelled call
  · exact Sort.run_respelled call
  all_goals rfl

end Utility

end VirtualShell
