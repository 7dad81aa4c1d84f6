import Mathlib
import VirtualShell.Proofs.Step.Basic
import VirtualShell.Proofs.Variables.Change
import VirtualShell.Session

/-!
# Exported names and scopes

The bindings of a scope go when it is closed, but all scopes share one set of exported names, and a
removal takes its name out of this set whichever binding it removes. So what is left of the changes
that a scope keeps to itself are the names they have removed: these are no longer exported, although
the bindings around the scope are as they were.

* `Variables.Innermost` — changes that only touch what the innermost scope binds itself.
* `Variables.withdraw` — the variables when some names are no longer exported.
* `Variables.environment_withdraw_iff` — when the environment is the same without these names.
* **`Variables.scope_withdraws`** — what is left of a scope, of a call and of assignments for the
  time of a command.
-/

namespace VirtualShell

namespace Variables

/-! ## Changes of the innermost scope -/

/-- The change only touches what the innermost scope binds itself, or is about to bind. -/
def Change.StaysInside (vars : Variables) : Change → Prop
  | ask _ | declare _ _ => True
  | set name _ | erase name => vars.isDeclared name
  | push _ _ | pop => False

/-- **Changes that the innermost scope keeps to itself**, each judged at its own moment. -/
def Innermost (vars : Variables) : List Change → Prop
  | [] => True
  | change :: rest => change.StaysInside vars ∧ (change.apply vars).Innermost rest

/-- The names that some changes remove. -/
def removedNames (changes : List Change) : List String :=
  changes.filterMap fun
    | .erase name => some name
    | _ => none

/-- The variables when some names are no longer exported. -/
def withdraw (vars : Variables) (names : List String) : Variables :=
  { vars with exported := vars.exported.filter (· ∉ names) }

theorem withdraw_nil (vars : Variables) : vars.withdraw [] = vars := by
  simp [withdraw]

theorem withdraw_withdraw (vars : Variables) (first rest : List String) :
    (vars.withdraw first).withdraw rest = vars.withdraw (first ++ rest) := by
  simp only [withdraw, List.filter_filter, List.mem_append, not_or]
  congr 2
  funext name
  simp [Bool.and_comm]

/-- The variables with other bindings in the innermost scope. -/
def rebind (vars : Variables) (bindings : Table String String) : Variables :=
  match vars.scopes with
  | [] => vars
  | s :: rest => { vars with scopes := { s with bindings } :: rest }

theorem rebind_self {vars : Variables} {s : Scope} {rest : List Scope}
    (hscopes : vars.scopes = s :: rest) : vars.rebind s.bindings = vars := by
  obtain ⟨scopes, globals, exported⟩ := vars
  cases hscopes
  rfl

/-- **One change** of the innermost scope gives it other bindings, and withdraws what it removes. -/
theorem apply_of_staysInside {vars : Variables} {change : Change} {s : Scope} {rest : List Scope}
    (hscopes : vars.scopes = s :: rest) (h : change.StaysInside vars) :
    ∃ bindings, change.apply vars = (vars.rebind bindings).withdraw (removedNames [change]) := by
  have hbinds {name : String} (h : vars.isDeclared name) : s.bindings.contains name := by
    rwa [isDeclared, hscopes] at h
  cases change with
  | ask name =>
    exact ⟨s.bindings, by rw [rebind_self hscopes]; exact (withdraw_nil vars).symm⟩
  | declare name value =>
    refine ⟨s.bindings.insert name value, ?_⟩
    simp [Change.apply, removedNames, withdraw_nil, declare, rebind, hscopes]
  | set name value =>
    refine ⟨s.bindings.insert name value, ?_⟩
    simp [Change.apply, removedNames, withdraw_nil, Variables.set, setLocal?, rebind, hscopes,
      hbinds h]
  | erase name =>
    refine ⟨s.bindings.erase name, ?_⟩
    simp [Change.apply, removedNames, withdraw, erase?, eraseLocal?, rebind, hscopes, hbinds h]
  | push _ _ => exact h.elim
  | pop => exact h.elim

/-- **Changes** of the innermost scope give it other bindings, and withdraw what they remove. -/
theorem Innermost.afterAll_eq {vars : Variables} {changes : List Change}
    (h : vars.Innermost changes) (hdepth : vars.scopes ≠ []) :
    ∃ bindings, vars.afterAll changes =
      (vars.rebind bindings).withdraw (removedNames changes) := by
  obtain ⟨s, rest, hscopes⟩ := List.exists_cons_of_ne_nil hdepth
  induction changes generalizing vars s with
  | nil =>
    exact ⟨s.bindings, by rw [rebind_self hscopes]; exact (withdraw_nil vars).symm⟩
  | cons change changes ih =>
    obtain ⟨bindings, hchange⟩ := apply_of_staysInside hscopes h.1
    have hnext : (change.apply vars).scopes = { s with bindings } :: rest := by
      rw [hchange]
      simp [withdraw, rebind, hscopes]
    obtain ⟨bindings', hrest⟩ := ih h.2 (by simp [hnext]) _ hnext
    refine ⟨bindings', ?_⟩
    have hremoved : removedNames (change :: changes) =
        removedNames [change] ++ removedNames changes := by
      rw [removedNames, removedNames, removedNames, ← List.filterMap_append]
      rfl
    rw [afterAll_cons, hrest, hchange, hremoved, ← withdraw_withdraw]
    simp [rebind, withdraw, hscopes]

/-- **Closing the scope.** Its bindings go, and what it exported; what was removed in it stays
withdrawn. -/
theorem Innermost.pop_afterAll {vars : Variables} {bindings : Table String String}
    {exporting : Bool} {changes : List Change} (h : (vars.push bindings exporting).Innermost changes) :
    ((vars.push bindings exporting).afterAll changes).pop = vars.withdraw (removedNames changes) := by
  obtain ⟨bindings', hall⟩ := h.afterAll_eq (List.cons_ne_nil _ _)
  rw [hall]
  -- What opening the scope added to the exported names is what closing it takes away.
  have hadded (added : List String) (hfresh : ∀ name ∈ added, name ∉ vars.exported) :
      ((vars.exported ++ added).filter (· ∉ removedNames changes)).filter (· ∉ added) =
        vars.exported.filter (· ∉ removedNames changes) := by
    rw [List.filter_append, List.filter_append, List.filter_filter, List.filter_filter]
    have hgone : added.filter (fun name => decide (name ∉ added) &&
        decide (name ∉ removedNames changes)) = [] := by
      rw [List.filter_eq_nil_iff]
      intro name hname
      simp [hname]
    rw [hgone, List.append_nil]
    refine List.filter_congr fun name hname => ?_
    have hold : name ∉ added := fun hmem => hfresh name hmem hname
    simp [hold]
  cases exporting with
  | false => simp [push, rebind, withdraw, pop, pop?]
  | true =>
    simpa [push, rebind, withdraw, pop, pop?] using
      hadded (bindings.keys.filter (· ∉ vars.exported)) (by simp)

/-! ## The environment -/

end Variables

theorem Table.get?_foldl_insert {κ ν : Type} [DecidableEq κ] (value : κ → Option ν) (keys : List κ)
    (t : Table κ ν) (k : κ) :
    ((keys.filterMap fun k => (value k).map (k, ·)).foldl (fun t e => t.insert e.1 e.2) t).get? k =
      if k ∈ keys ∧ (value k).isSome then value k else t.get? k := by
  induction keys generalizing t with
  | nil => simp
  | cons key keys ih =>
    rcases hvalue : value key with _ | v
    · rw [List.filterMap_cons_none (by simp [hvalue]), ih]
      by_cases hk : k = key
      · simp [hk, hvalue]
      · simp [hk]
    · rw [List.filterMap_cons_some (by simp [hvalue]; rfl), List.foldl_cons, ih, get?_insert]
      by_cases hk : k = key
      · simp [hk, hvalue]
      · simp [hk, Ne.symm hk]

namespace Variables

theorem get?_environment (vars : Variables) (name : String) :
    vars.environment.get? name = if name ∈ vars.exported then vars.get? name else none := by
  rw [environment, select, Table.ofList, Table.get?_foldl_insert]
  by_cases hname : name ∈ vars.exported
  · rcases vars.get? name with _ | value <;> simp [hname]
  · simp [hname]

/-- Sorting comes to the same before and after some texts are taken out. -/
theorem mergeSort_filter (texts : List String) (test : String → Bool) :
    (texts.filter test).mergeSort = texts.mergeSort.filter test := by
  have hsorted (texts : List String) : texts.mergeSort.Pairwise (· ≤ ·) := by
    have htrans (a b c : String) (hab : decide (a ≤ b)) (hbc : decide (b ≤ c)) :
        decide (a ≤ c) :=
      decide_eq_true (le_trans (of_decide_eq_true hab) (of_decide_eq_true hbc))
    have htotal (a b : String) : decide (a ≤ b) || decide (b ≤ a) := by
      simpa using le_total a b
    exact (List.pairwise_mergeSort htrans htotal texts).imp of_decide_eq_true
  refine List.Perm.eq_of_pairwise' (hsorted _) ((hsorted texts).filter _) ?_
  exact (List.mergeSort_perm _ _).trans ((List.mergeSort_perm texts _).filter test).symm

/-- **The environment without some names** is the same exactly when none of them was exported and
had a value. -/
theorem environment_withdraw_iff (vars : Variables) (names : List String) :
    (vars.withdraw names).environment = vars.environment ↔
      ∀ name ∈ names, name ∈ vars.exported → vars.get? name = none := by
  constructor
  · intro h name hname hexported
    have hvalue := congrArg (·.get? name) h
    simp only [get?_environment] at hvalue
    rw [if_pos hexported, if_neg (by simp [withdraw, hname])] at hvalue
    exact hvalue.symm
  · intro h
    have hselected : (vars.withdraw names).exported.mergeSort.filterMap
          (fun name => (vars.get? name).map (name, ·)) =
        vars.exported.mergeSort.filterMap fun name => (vars.get? name).map (name, ·) := by
      rw [withdraw, mergeSort_filter, List.filterMap_filter]
      refine List.filterMap_congr fun name hname => ?_
      have hexported : name ∈ vars.exported := List.mem_mergeSort.1 hname
      by_cases hgone : name ∈ names
      · simp [hgone, h name hgone hexported]
      · simp [hgone]
    exact congrArg Table.ofList hselected

/-! ## The main statement -/

/-- **What is left of a scope.** When a scope has kept all changes to itself, closing it brings back
the variables as they were, but for the names that were removed inside: they are no longer exported.
The same holds of a function call and of assignments for the time of a command. All variables are
visible as before, and the environment is as before exactly when no name that was removed was
exported and had a value. -/
theorem scope_withdraws (vars : Variables) (changes : List Change) :
    (∀ (bindings : Table String String) (exporting : Bool),
      (vars.push bindings exporting).Innermost changes →
        ((vars.push bindings exporting).afterAll changes).pop =
          vars.withdraw (removedNames changes)) ∧
    (∀ (shell : Shell) (arguments : List String) (run : Run Outcome), shell.variables = vars →
      let opened := vars.push .empty false
      opened.Innermost changes →
      (run (shell.enterCall arguments)).2.variables = opened.afterAll changes →
      (Run.calling arguments run shell).2.variables = vars.withdraw (removedNames changes)) ∧
    (∀ (shell : Shell) (bindings : Table String String) (run : Run Outcome),
      shell.variables = vars →
      let opened := vars.push bindings true
      bindings.keys ≠ [] → opened.Innermost changes →
      (run { shell with «variables» := opened }).2.variables = opened.afterAll changes →
      (Run.binding bindings run shell).2.variables = vars.withdraw (removedNames changes)) ∧
    (vars.withdraw (removedNames changes)).visible = vars.visible ∧
    ((vars.withdraw (removedNames changes)).environment = vars.environment ↔
      ∀ name ∈ removedNames changes, name ∈ vars.exported → vars.get? name = none) := by
  refine ⟨fun bindings exporting h => h.pop_afterAll, ?_, ?_, rfl, vars.environment_withdraw_iff _⟩
  · rintro shell arguments run rfl opened hinside hrun
    rw [← hinside.pop_afterAll, ← hrun, Run.calling, Run.during, Run.tryCatch_apply]
    rcases run (shell.enterCall arguments) with ⟨(⟨s, output⟩ | f) | o, next⟩
    · cases s <;> rfl
    · rfl
    · rfl
  · rintro shell bindings run rfl opened hbindings hinside hrun
    rw [← hinside.pop_afterAll, ← hrun, Run.binding, if_neg (by simpa using hbindings)]
    rfl

/-- An exported name is bound anew and assigned to in a scope, in a call, and while a command runs; a
name that is removed there was not exported before. -/
theorem scope_withdraws_shadowed :
    let vars := ofGlobals [("X", "1")] ["X"]
    let shell := Shell.start .bare "/" vars (.ofClock ⟨0, 0⟩)
    let opened := vars.push .empty false
    let prefixed := vars.push (.ofList [("X", "0")]) true
    let changes : List Change := [.declare "X" "2", .set "X" "3", .declare "Y" "4", .erase "Y"]
    let run : Run Outcome := fun shell =>
      (.ok .success, { shell with «variables» := shell.variables.afterAll changes })
    opened.Innermost changes ∧ prefixed.Innermost changes ∧
      (opened.afterAll changes).pop = vars.withdraw ["Y"] ∧
      (Run.calling [] run shell).2.variables = vars.withdraw ["Y"] ∧
      (Run.binding (.ofList [("X", "0")]) run shell).2.variables = vars.withdraw ["Y"] ∧
      (vars.withdraw ["Y"]).environment = vars.environment := by
  intro vars shell opened prefixed changes run
  have hopened : opened.Innermost changes := ⟨trivial, rfl, trivial, rfl, trivial⟩
  have hprefixed : prefixed.Innermost changes := ⟨trivial, rfl, trivial, rfl, trivial⟩
  obtain ⟨hscope, hcall, hcommand, -, henvironment⟩ := scope_withdraws vars changes
  refine ⟨hopened, hprefixed, hscope .empty false hopened, hcall shell [] run rfl hopened rfl,
    hcommand shell (.ofList [("X", "0")]) run rfl (by decide) hprefixed rfl,
    henvironment.2 fun name hname hexported => ?_⟩
  rw [List.mem_singleton.1 hname] at hexported
  exact absurd hexported (by decide)

/-- **A removal inside a scope reaches the environment around it.** A call binds an exported name
anew and removes its own binding; the name is not in the environment any more. -/
theorem scope_withdraws_exported :
    let vars := ofGlobals [("X", "1")] ["X"]
    let opened := vars.push .empty false
    let changes : List Change := [.declare "X" "2", .erase "X"]
    opened.Innermost changes ∧ (opened.afterAll changes).pop.visible = vars.visible ∧
      (opened.afterAll changes).pop.environment ≠ vars.environment := by
  intro vars opened changes
  have hinside : opened.Innermost changes := ⟨trivial, rfl, trivial⟩
  have hexported : vars.get? "X" ≠ none := by decide
  rw [hinside.pop_afterAll]
  refine ⟨hinside, rfl, fun h => hexported ?_⟩
  exact (vars.environment_withdraw_iff _).1 h "X" (by decide) (by decide)

end Variables

end VirtualShell
