import Mathlib
import VirtualShell.Variables

/-!
# Changes to variables

What is done to variables is a sequence of changes: values are asked for, assigned and removed, names
are bound in the innermost scope, and scopes are opened and closed. When a scope is closed again,
the scopes around it are as if only those assignments and removals had been made whose name was
bound, at their moment, by none of the scopes opened since.

* `Variables.Change` — one change; `Variables.afterAll` — the variables after some changes.
* `Variables.updateFirst` — what assigning and removing have in common: they go to the innermost
  scope that binds the name, past those that do not.
* `Variables.Balanced` — changes in which the scopes that are opened are closed again.
* `Variables.outward` — the changes that go past all scopes opened since.
* **`Variables.Balanced.pop_sameBindings`** — only these are left of what went on inside.
-/

namespace VirtualShell.Variables

/-! ## Changes -/

/-- **Something that is done to variables.** -/
inductive Change where
  /-- The value of a name is asked for. -/
  | ask (name : String)
  /-- A value is assigned. -/
  | set (name value : String)
  /-- A name is removed. -/
  | erase (name : String)
  /-- A name is bound in the innermost scope. -/
  | declare (name value : String)
  /-- A scope is opened. -/
  | push (bindings : Table String String) (exporting : Bool)
  /-- The innermost scope is closed. -/
  | pop

/-- The variables after a change. What cannot be done changes nothing. -/
def Change.apply (vars : Variables) : Change → Variables
  | ask _ => vars
  | set name value => vars.set name value
  | erase name => (vars.erase? name).getD vars
  | declare name value => vars.declare name value
  | push bindings exporting => vars.push bindings exporting
  | pop => vars.pop

/-- **The variables after some changes**, made one after another. -/
def afterAll (vars : Variables) (changes : List Change) : Variables :=
  changes.foldl Change.apply vars

@[simp] theorem afterAll_nil (vars : Variables) : vars.afterAll [] = vars := rfl

@[simp] theorem afterAll_cons (vars : Variables) (change : Change) (changes : List Change) :
    vars.afterAll (change :: changes) = (change.apply vars).afterAll changes := rfl

@[simp] theorem afterAll_append (vars : Variables) (first rest : List Change) :
    vars.afterAll (first ++ rest) = (vars.afterAll first).afterAll rest :=
  List.foldl_append

/-! ## Where a change arrives -/

/-- One of some scopes binds a name. -/
def Binds (name : String) (scopes : List Scope) : Prop :=
  ∃ s ∈ scopes, s.bindings.contains name

instance (name : String) (scopes : List Scope) : Decidable (Binds name scopes) :=
  inferInstanceAs (Decidable (∃ s ∈ scopes, s.bindings.contains name))

/-- Update the innermost scope that binds a name; nothing when none does. -/
def updateFirst (name : String) (update : Scope → Scope) : List Scope → Option (List Scope)
  | [] => none
  | s :: rest =>
    if s.bindings.contains name then some (update s :: rest)
    else (updateFirst name update rest).map (s :: ·)

theorem setLocal?_eq (name value : String) (scopes : List Scope) :
    setLocal? name value scopes =
      updateFirst name (fun s => { s with bindings := s.bindings.insert name value }) scopes := by
  induction scopes with
  | nil => rfl
  | cons s rest ih => rw [setLocal?, updateFirst, ih]

theorem eraseLocal?_eq (name : String) (scopes : List Scope) :
    eraseLocal? name scopes =
      updateFirst name (fun s => { s with bindings := s.bindings.erase name }) scopes := by
  induction scopes with
  | nil => rfl
  | cons s rest ih => rw [eraseLocal?, updateFirst, ih]

section

variable {name : String} {update : Scope → Scope} {inner : List Scope}

/-- **Scopes that do not bind a name** are passed over. -/
theorem updateFirst_of_not_binds (h : ¬ Binds name inner) (outer : List Scope) :
    updateFirst name update (inner ++ outer) =
      (updateFirst name update outer).map (inner ++ ·) := by
  induction inner with
  | nil => simp
  | cons s rest ih =>
    have hs : ¬ s.bindings.contains name := fun hs => h ⟨s, by simp, hs⟩
    have hrest : ¬ Binds name rest := fun ⟨t, ht, htname⟩ => h ⟨t, by simp [ht], htname⟩
    rw [List.cons_append, updateFirst, if_neg hs, ih hrest, Option.map_map]
    rfl

/-- **Scopes that bind a name** keep the change to themselves. -/
theorem updateFirst_of_binds (h : Binds name inner) (outer : List Scope) :
    ∃ inner', inner'.length = inner.length ∧
      updateFirst name update (inner ++ outer) = some (inner' ++ outer) := by
  induction inner with
  | nil => simp [Binds] at h
  | cons s rest ih =>
    rw [List.cons_append, updateFirst]
    by_cases hs : s.bindings.contains name
    · exact ⟨update s :: rest, rfl, by rw [if_pos hs]; rfl⟩
    · obtain ⟨t, ht, htname⟩ := h
      have hrest : t ∈ rest := by
        rcases List.mem_cons.1 ht with rfl | ht
        · exact absurd htname hs
        · exact ht
      obtain ⟨rest', hlength, heq⟩ := ih ⟨t, hrest, htname⟩
      exact ⟨s :: rest', by simp [hlength], by rw [if_neg hs, heq]; rfl⟩

end

/-! ## Changes inside a scope -/

/-- The change opens or closes a scope. -/
def Change.MovesScopes : Change → Prop
  | push _ _ | pop => True
  | ask _ | set _ _ | erase _ | declare _ _ => False

/-- **Balanced changes**: every scope that is opened is closed, and no other one. -/
inductive Balanced : List Change → Prop where
  | nil : Balanced []
  | cons {change : Change} {rest : List Change} (hchange : ¬ change.MovesScopes)
      (hrest : Balanced rest) : Balanced (change :: rest)
  | scope {bindings : Table String String} {exporting : Bool} {inside rest : List Change}
      (hinside : Balanced inside) (hrest : Balanced rest) :
      Balanced (.push bindings exporting :: (inside ++ .pop :: rest))

/-- The scopes opened since there were `base` of them. -/
def since (base : Nat) (vars : Variables) : List Scope := vars.scopes.take (vars.depth - base)

/-- **The change goes past the scopes opened since**: it assigns or removes a name that none of them
binds. -/
def Change.GoesPast (base : Nat) (vars : Variables) : Change → Prop
  | set name _ | erase name => ¬ Binds name (vars.since base)
  | ask _ | declare _ _ | push _ _ | pop => False

instance (base : Nat) (vars : Variables) : (change : Change) → Decidable (change.GoesPast base vars)
  | .set name _ | .erase name => inferInstanceAs (Decidable (¬ Binds name (vars.since base)))
  | .ask _ | .declare _ _ | .push _ _ | .pop => inferInstanceAs (Decidable False)

/-- **The changes that go past all scopes opened since**, each judged at its own moment. -/
def outward (base : Nat) : Variables → List Change → List Change
  | _, [] => []
  | vars, change :: rest =>
    if change.GoesPast base vars then change :: outward base (change.apply vars) rest
    else outward base (change.apply vars) rest

theorem outward_append (base : Nat) (vars : Variables) (first rest : List Change) :
    outward base vars (first ++ rest) =
      outward base vars first ++ outward base (vars.afterAll first) rest := by
  induction first generalizing vars with
  | nil => rfl
  | cons change first ih =>
    by_cases h : change.GoesPast base vars <;> simp [outward, h, ih]

/-- The same bindings in all scopes. -/
def SameBindings (a b : Variables) : Prop := a.scopes = b.scopes ∧ a.globals = b.globals

/-! ## With and without the scope -/

/-- Some variables are others with `inner` on top, and these have `base` scopes. -/
structure Above (base : Nat) (inner : List Scope) (vars outer : Variables) : Prop where
  scopes : vars.scopes = inner ++ outer.scopes
  globals : vars.globals = outer.globals
  depth : outer.depth = base

namespace Above

variable {base : Nat} {inner : List Scope} {vars outer : Variables}

theorem since_eq (h : Above base inner vars outer) : vars.since base = inner := by
  have hbase : outer.scopes.length = base := h.depth
  simp [since, Variables.depth, h.scopes, hbase]

/-- **An assignment** is kept by the scopes on top, or goes past them. -/
theorem set (h : Above base inner vars outer) (name value : String) :
    (¬ Binds name inner ∧ Above base inner (vars.set name value) (outer.set name value)) ∨
    (Binds name inner ∧ ∃ inner', inner'.length = inner.length ∧
      Above base inner' (vars.set name value) outer) := by
  simp only [Variables.set, setLocal?_eq, h.scopes]
  by_cases hname : Binds name inner
  · obtain ⟨inner', hlength, heq⟩ := updateFirst_of_binds hname outer.scopes
    refine .inr ⟨hname, inner', hlength, ?_⟩
    rw [heq]
    exact ⟨rfl, h.globals, h.depth⟩
  · refine .inl ⟨hname, ?_⟩
    rw [updateFirst_of_not_binds hname]
    rcases hscopes : updateFirst name _ outer.scopes with _ | scopes
    · exact ⟨rfl, by simp [h.globals], h.depth⟩
    · refine ⟨rfl, h.globals, ?_⟩
      rw [← setLocal?_eq] at hscopes
      exact (length_setLocal? hscopes).trans h.depth

/-- **A removal** is kept by the scopes on top, or goes past them. -/
theorem erase (h : Above base inner vars outer) (name : String) :
    (¬ Binds name inner ∧
      Above base inner ((vars.erase? name).getD vars) ((outer.erase? name).getD outer)) ∨
    (Binds name inner ∧ ∃ inner', inner'.length = inner.length ∧
      Above base inner' ((vars.erase? name).getD vars) outer) := by
  simp only [Variables.erase?, eraseLocal?_eq, h.scopes, h.globals]
  by_cases hname : Binds name inner
  · obtain ⟨inner', hlength, heq⟩ := updateFirst_of_binds hname outer.scopes
    refine .inr ⟨hname, inner', hlength, ?_⟩
    rw [heq]
    exact ⟨rfl, rfl, h.depth⟩
  · refine .inl ⟨hname, ?_⟩
    rw [updateFirst_of_not_binds hname]
    rcases hscopes : updateFirst name _ outer.scopes with _ | scopes
    · dsimp only [Option.map_none]
      split
      · exact ⟨rfl, rfl, h.depth⟩
      · exact h
    · refine ⟨rfl, rfl, ?_⟩
      rw [← eraseLocal?_eq] at hscopes
      exact (length_eraseLocal? hscopes).trans h.depth

/-- **One change** that moves no scopes. It goes past the scopes on top and is made below them, or
leaves what is below them alone. -/
theorem step (h : Above base inner vars outer) (hinner : inner ≠ []) {change : Change}
    (hchange : ¬ change.MovesScopes) :
    ∃ inner', inner'.length = inner.length ∧
      Above base inner' (change.apply vars) (outer.afterAll (outward base vars [change])) := by
  cases change with
  | ask name => exact ⟨inner, rfl, h⟩
  | set name value =>
    simp only [outward, Change.GoesPast, h.since_eq]
    obtain ⟨hname, hset⟩ | ⟨hname, inner', hlength, hset⟩ := h.set name value
    · exact ⟨inner, rfl, by rw [if_pos hname]; exact hset⟩
    · exact ⟨inner', hlength, by rw [if_neg (not_not_intro hname)]; exact hset⟩
  | erase name =>
    simp only [outward, Change.GoesPast, h.since_eq]
    obtain ⟨hname, herase⟩ | ⟨hname, inner', hlength, herase⟩ := h.erase name
    · exact ⟨inner, rfl, by rw [if_pos hname]; exact herase⟩
    · exact ⟨inner', hlength, by rw [if_neg (not_not_intro hname)]; exact herase⟩
  | declare name value =>
    obtain ⟨s, rest, rfl⟩ := List.exists_cons_of_ne_nil hinner
    refine ⟨{ s with bindings := s.bindings.insert name value } :: rest, rfl, ?_⟩
    have hscopes : vars.scopes = s :: (rest ++ outer.scopes) := h.scopes
    refine ⟨?_, ?_, h.depth⟩
    · simp [Change.apply, declare, hscopes, outward, Change.GoesPast]
    · simp [Change.apply, declare, hscopes, h.globals, outward, Change.GoesPast]
  | push _ _ => exact absurd trivial hchange
  | pop => exact absurd trivial hchange

theorem push (h : Above base inner vars outer) (bindings : Table String String)
    (exporting : Bool) : ∃ s, Above base (s :: inner) (vars.push bindings exporting) outer :=
  ⟨_, congrArg (_ :: ·) h.scopes, h.globals, h.depth⟩

theorem pop {s : Scope} (h : Above base (s :: inner) vars outer) :
    Above base inner vars.pop outer := by
  have hscopes : vars.scopes = s :: (inner ++ outer.scopes) := h.scopes
  have hpop : vars.pop =
      { vars with
        scopes := inner ++ outer.scopes
        exported := vars.exported.filter (· ∉ s.exports) } := by
    rw [Variables.pop, pop?, hscopes]
  rw [hpop]
  exact ⟨rfl, h.globals, h.depth⟩

theorem ne_nil {inner' : List Scope} (hinner : inner ≠ []) (hlength : inner'.length = inner.length) :
    inner' ≠ [] := by
  rintro rfl
  exact hinner (List.length_eq_zero_iff.1 hlength.symm)

/-- **Balanced changes** leave as many scopes on top, and below them what the changes make of it
that go past all scopes on top. -/
theorem afterAll {changes : List Change} (hchanges : Balanced changes)
    (h : Above base inner vars outer) (hinner : inner ≠ []) :
    ∃ inner', inner'.length = inner.length ∧
      Above base inner' (vars.afterAll changes) (outer.afterAll (outward base vars changes)) := by
  induction hchanges generalizing inner vars outer with
  | nil => exact ⟨inner, rfl, h⟩
  | @cons change rest hchange _ ih =>
    obtain ⟨inner', hlength, hstep⟩ := h.step hinner hchange
    obtain ⟨final, hfinal, habove⟩ := ih hstep (ne_nil hinner hlength)
    refine ⟨final, hfinal.trans hlength, ?_⟩
    rw [afterAll_cons, ← List.singleton_append, outward_append, afterAll_append]
    exact habove
  | @scope bindings exporting inside rest _ _ ihinside ihrest =>
    obtain ⟨s, hpush⟩ := h.push bindings exporting
    obtain ⟨opened, hopened, hinside⟩ := ihinside hpush (by simp)
    obtain ⟨t, inner', rfl⟩ := List.exists_cons_of_length_eq_add_one hopened
    have hlength : inner'.length = inner.length := by simpa using hopened
    obtain ⟨final, hfinal, habove⟩ := ihrest hinside.pop (ne_nil hinner hlength)
    refine ⟨final, hfinal.trans hlength, ?_⟩
    have houtward : outward base vars (.push bindings exporting :: (inside ++ .pop :: rest)) =
        outward base (vars.push bindings exporting) inside ++
          outward base ((vars.push bindings exporting).afterAll inside).pop rest := by
      simp [outward, Change.GoesPast, outward_append, Change.apply]
    rw [houtward, afterAll_cons, afterAll_append, afterAll_append]
    exact habove

end Above

/-! ## The main statement -/

/-- **A scope is transparent to everything but its own bindings.** When balanced changes have been
made inside a scope, it is the innermost one again, and what is below it is as if only those
assignments and removals had been made, without the scope, whose name was bound at their moment by
none of the scopes opened since. -/
theorem Balanced.pop_sameBindings {changes : List Change} (h : Balanced changes)
    (vars : Variables) (bindings : Table String String) (exporting : Bool) :
    let inside := vars.push bindings exporting
    (inside.afterAll changes).depth = vars.depth + 1 ∧
      (inside.afterAll changes).pop.SameBindings
        (vars.afterAll (outward vars.depth inside changes)) := by
  have hvars : Above vars.depth [] vars vars := ⟨rfl, rfl, rfl⟩
  obtain ⟨s, hpush⟩ := hvars.push bindings exporting
  obtain ⟨inner, hlength, habove⟩ := hpush.afterAll h (by simp)
  obtain ⟨t, rfl⟩ := List.length_eq_one_iff.1 hlength
  refine ⟨?_, habove.pop.scopes, habove.pop.globals⟩
  rw [depth, habove.scopes, List.length_append, ← depth, habove.depth]
  simp [Nat.add_comm]

/-- The global `a` is assigned to before the scope binds a name of its own like it and when that one
is gone again; the removal of `b` goes past both scopes, and that of `c` does not. -/
theorem Balanced.pop_sameBindings_nested :
    let vars := ofGlobals [("a", "0"), ("b", "0")] []
    let opened := vars.push .empty false
    let changes : List Change :=
      [.set "a" "1", .declare "a" "2", .set "a" "3", .push (.ofList [("c", "4")]) true, .erase "b",
        .erase "c", .pop, .erase "a", .ask "a", .set "a" "5"]
    Balanced changes ∧ (opened.afterAll changes).depth = 1 ∧
      (opened.afterAll changes).pop.SameBindings
        (vars.afterAll [.set "a" "1", .erase "b", .set "a" "5"]) := by
  intro vars opened changes
  have hinside : Balanced [.erase "b", .erase "c"] := .cons id (.cons id .nil)
  have hrest : Balanced [.erase "a", .ask "a", .set "a" "5"] := .cons id (.cons id (.cons id .nil))
  have hchanges : Balanced changes := .cons id (.cons id (.cons id (.scope hinside hrest)))
  have houtward : outward 0 opened changes = [.set "a" "1", .erase "b", .set "a" "5"] := rfl
  obtain ⟨hdepth, hsame⟩ := Balanced.pop_sameBindings hchanges vars .empty false
  exact ⟨hchanges, hdepth, houtward ▸ hsame⟩

end VirtualShell.Variables
