import VirtualShell.Table

/-!
# Variables in scopes

Variables live in a global scope and in the scopes that functions and prefix assignments open on
top of it. A name means its innermost binding. An assignment changes that binding, and makes a
global one where there is none; only a local declaration adds a binding to an inner scope.

Apart from the bindings there is a set of exported names. A scope may export names for as long as
it lasts; it remembers those that it added and takes them back when it is closed.
-/

namespace VirtualShell

/-- The bindings of an inner scope, and the names that it exported. -/
structure Scope where
  bindings : Table String String
  exports : List String
  deriving DecidableEq

/-- The variables of a shell: inner scopes, innermost first, over the global one. -/
structure Variables where
  scopes : List Scope
  globals : Table String String
  exported : List String
  deriving DecidableEq

namespace Variables

/-- Global variables only. -/
def ofGlobals (bindings : List (String × String)) (exported : List String) : Variables :=
  ⟨[], .ofList bindings, exported.eraseDups⟩

/-- How many scopes are open. -/
def depth (vars : Variables) : Nat := vars.scopes.length

/-! ## Bindings -/

/-- The innermost binding of a name among some scopes. -/
def getLocal? (name : String) : List Scope → Option String
  | [] => none
  | s :: rest =>
    match s.bindings.get? name with
    | some v => some v
    | none => getLocal? name rest

/-- The value of a variable. -/
def get? (vars : Variables) (name : String) : Option String :=
  match getLocal? name vars.scopes with
  | some v => some v
  | none => vars.globals.get? name

/-- The variable has a value. -/
def contains (vars : Variables) (name : String) : Bool := (vars.get? name).isSome

/-- Change the innermost binding of a name; nothing when no scope binds it. -/
def setLocal? (name value : String) : List Scope → Option (List Scope)
  | [] => none
  | s :: rest =>
    if s.bindings.contains name then
      some ({ s with bindings := s.bindings.insert name value } :: rest)
    else (setLocal? name value rest).map (s :: ·)

/-- **Assignment.** The innermost binding changes; without one the variable becomes global. -/
def set (vars : Variables) (name value : String) : Variables :=
  match setLocal? name value vars.scopes with
  | some scopes => { vars with scopes := scopes }
  | none => { vars with globals := vars.globals.insert name value }

/-- Take away the innermost binding of a name; nothing when no scope binds it. -/
def eraseLocal? (name : String) : List Scope → Option (List Scope)
  | [] => none
  | s :: rest =>
    if s.bindings.contains name then some ({ s with bindings := s.bindings.erase name } :: rest)
    else (eraseLocal? name rest).map (s :: ·)

/-- **Removal.** The innermost binding goes, and the name is no longer exported; nothing when there
is no binding. -/
def erase? (vars : Variables) (name : String) : Option Variables :=
  let exported := vars.exported.filter (· ≠ name)
  match eraseLocal? name vars.scopes with
  | some scopes => some { vars with scopes, exported }
  | none =>
    if vars.globals.contains name then
      some { vars with globals := vars.globals.erase name, exported }
    else none

/-! ## Scopes -/

/-- Open a scope with some bindings, and export their names for its time when asked to. -/
def push (vars : Variables) (bindings : Table String String) (exporting : Bool) : Variables :=
  let added := if exporting then bindings.keys.filter (· ∉ vars.exported) else []
  { vars with
    scopes := ⟨bindings, added⟩ :: vars.scopes
    exported := vars.exported ++ added }

/-- Close the innermost scope; nothing when only the global one is open. -/
def pop? (vars : Variables) : Option (Scope × Variables) :=
  match vars.scopes with
  | [] => none
  | s :: rest =>
    some (s, { vars with scopes := rest, exported := vars.exported.filter (· ∉ s.exports) })

/-- Close the innermost scope, if one is open. -/
def pop (vars : Variables) : Variables :=
  match vars.pop? with
  | some (_, vars) => vars
  | none => vars

/-- Close all inner scopes. -/
def popAll (vars : Variables) : Variables := vars.scopes.foldl (fun vars _ => vars.pop) vars

/-- Bind a name in the innermost scope. -/
def declare (vars : Variables) (name value : String) : Variables :=
  match vars.scopes with
  | [] => { vars with globals := vars.globals.insert name value }
  | s :: rest =>
    { vars with scopes := { s with bindings := s.bindings.insert name value } :: rest }

/-- An inner scope is open and binds the name itself. -/
def isDeclared (vars : Variables) (name : String) : Bool :=
  match vars.scopes with
  | [] => false
  | s :: _ => s.bindings.contains name

/-! ## Export -/

/-- Export a name, whether it has a value or not. -/
def exportName (vars : Variables) (name : String) : Variables :=
  if name ∈ vars.exported then vars else { vars with exported := vars.exported ++ [name] }

/-- Keep a name from being exported. -/
def unexport (vars : Variables) (name : String) : Variables :=
  { vars with exported := vars.exported.filter (· ≠ name) }

/-- The name is exported. -/
def isExported (vars : Variables) (name : String) : Bool := name ∈ vars.exported

/-! ## Views -/

/-- The names that have a value, in order. -/
def names (vars : Variables) : List String :=
  ((vars.scopes.flatMap fun s => s.bindings.keys) ++ vars.globals.keys).eraseDups.mergeSort

/-- The names that have a value and are in a list, each with its value. -/
def select (vars : Variables) (names : List String) : Table String String :=
  .ofList (names.filterMap fun name => (vars.get? name).map (name, ·))

/-- **Every visible variable**, in the order of the names. -/
def visible (vars : Variables) : Table String String := vars.select vars.names

/-- **The environment** of commands: the exported variables that have a value, in the order of the
names. -/
def environment (vars : Variables) : Table String String := vars.select vars.exported.mergeSort

/-! ## Scopes under the operations

Only opening and closing change how many scopes are open.
-/

theorem length_setLocal? {name value : String} {scopes scopes' : List Scope}
    (h : setLocal? name value scopes = some scopes') : scopes'.length = scopes.length := by
  induction scopes generalizing scopes' with
  | nil => simp [setLocal?] at h
  | cons s rest ih =>
    rw [setLocal?] at h
    split at h
    · cases h
      simp
    · obtain ⟨rest', hrest, rfl⟩ := Option.map_eq_some_iff.1 h
      simp [ih hrest]

theorem length_eraseLocal? {name : String} {scopes scopes' : List Scope}
    (h : eraseLocal? name scopes = some scopes') : scopes'.length = scopes.length := by
  induction scopes generalizing scopes' with
  | nil => simp [eraseLocal?] at h
  | cons s rest ih =>
    rw [eraseLocal?] at h
    split at h
    · cases h
      simp
    · obtain ⟨rest', hrest, rfl⟩ := Option.map_eq_some_iff.1 h
      simp [ih hrest]

@[simp] theorem depth_set (vars : Variables) (name value : String) :
    (vars.set name value).depth = vars.depth := by
  unfold set
  split
  · next h => exact length_setLocal? h
  · rfl

theorem depth_erase? {vars vars' : Variables} {name : String} (h : vars.erase? name = some vars') :
    vars'.depth = vars.depth := by
  unfold erase? at h
  split at h
  · next hscopes =>
    cases h
    exact length_eraseLocal? hscopes
  · split at h
    · cases h
      rfl
    · simp at h

@[simp] theorem depth_declare (vars : Variables) (name value : String) :
    (vars.declare name value).depth = vars.depth := by
  unfold declare
  split
  · rfl
  · next h => simp [depth, h]

@[simp] theorem depth_exportName (vars : Variables) (name : String) :
    (vars.exportName name).depth = vars.depth := by
  unfold exportName
  split <;> rfl

@[simp] theorem depth_unexport (vars : Variables) (name : String) :
    (vars.unexport name).depth = vars.depth := rfl

@[simp] theorem depth_push (vars : Variables) (bindings : Table String String)
    (exporting : Bool) : (vars.push bindings exporting).depth = vars.depth + 1 := rfl

@[simp] theorem depth_pop (vars : Variables) : vars.pop.depth = vars.depth - 1 := by
  unfold pop pop?
  split
  · next h =>
    split at h
    · simp at h
    · next hscopes =>
      cases h
      simp [depth, hscopes]
  · next h =>
    split at h
    · next hscopes => simp [depth, hscopes]
    · simp at h

/-- Where only the global scope is open there is none to close. -/
theorem popAll_of_depth_eq_zero {vars : Variables} (h : vars.depth = 0) : vars.popAll = vars := by
  have hscopes : vars.scopes = [] := List.length_eq_zero_iff.1 h
  simp [popAll, hscopes]

/-! ## Values under assignment -/

theorem getLocal?_setLocal? {name value : String} {scopes scopes' : List Scope}
    (h : setLocal? name value scopes = some scopes') (other : String) :
    getLocal? other scopes' = if name = other then some value else getLocal? other scopes := by
  induction scopes generalizing scopes' with
  | nil => simp [setLocal?] at h
  | cons s rest ih =>
    rw [setLocal?] at h
    split at h
    · cases h
      by_cases hname : name = other <;> simp [getLocal?, Table.get?_insert, hname]
    · next hunbound =>
      obtain ⟨rest', hrest, rfl⟩ := Option.map_eq_some_iff.1 h
      by_cases hname : name = other
      · subst hname
        have hnone : s.bindings.get? name = none := by simpa [Table.contains] using hunbound
        simp [getLocal?, hnone, ih hrest]
      · simp [getLocal?, ih hrest, hname]

theorem getLocal?_of_setLocal?_eq_none {name value : String} {scopes : List Scope}
    (h : setLocal? name value scopes = none) : getLocal? name scopes = none := by
  induction scopes with
  | nil => rfl
  | cons s rest ih =>
    rw [setLocal?] at h
    split at h
    · cases h
    · next hunbound =>
      have hnone : s.bindings.get? name = none := by simpa [Table.contains] using hunbound
      simp [getLocal?, hnone, ih (Option.map_eq_none_iff.1 h)]

/-- **An assignment** gives the variable the value, and the other variables keep theirs. -/
theorem get?_set (vars : Variables) (name value other : String) :
    (vars.set name value).get? other = if name = other then some value else vars.get? other := by
  unfold set
  split
  · next scopes h =>
    by_cases hname : name = other <;> simp [get?, getLocal?_setLocal? h, hname]
  · next h =>
    by_cases hname : name = other
    · subst hname
      simp [get?, getLocal?_of_setLocal?_eq_none h]
    · simp [get?, Table.get?_insert, hname]

end Variables

end VirtualShell
