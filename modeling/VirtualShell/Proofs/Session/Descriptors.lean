import VirtualShell.Proofs.Session.Redirection

/-!
# Where file descriptors lead

Redirections change a table of file descriptors, from left to right. Each of them does one of three
things to it, once its target is expanded: some descriptors are led to what a name means, one is led
to where another one leads at that moment, or one is closed. So the table in the end is found by
going through these operations, and nothing is known of a descriptor but what the last operation on
it says.

* `Outlet` — where a descriptor leads, told apart by the names that mean nowhere.
* `Redirection.Does` — what an output redirection does to the descriptors.
* `Redirection.Perform` — what a list of them does, in the shell that each of them meets.
* `Streams.Shows.exists_does_of_redirectTo` — one redirection does one thing.
* **`Streams.Shows.perform`** — the streams show what a list of redirections did.
-/

namespace VirtualShell

open Run

/-! ## Outlets -/

/-- **Where a file descriptor leads.** Two names mean that nothing is kept, and a descriptor that was
closed keeps nothing either. -/
inductive Outlet where
  | stdout
  | stderr
  | file (place : Path)
  | null
  | zero
  | closed
  deriving DecidableEq, Repr

namespace Outlet

/-- What a name means in a directory. -/
def named (directory name : String) : Outlet :=
  if name = "/dev/null" then .null
  else if name = "/dev/zero" then .zero
  else if name = "/dev/stdout" then .stdout
  else if name = "/dev/stderr" then .stderr
  else .file ((Path.ofString directory).resolve name)

/-- The destination of what is written. -/
def destination : Outlet → Destination
  | .stdout => .stdout
  | .stderr => .stderr
  | .file place => .file place
  | .null | .zero | .closed => .nowhere

end Outlet

/-- Where the file descriptors lead that were opened. -/
abbrev Outlets := Nat → Option Outlet

/-- Output and errors alone, each where it belongs. -/
def Outlets.standard : Outlets
  | 1 => some .stdout
  | 2 => some .stderr
  | _ => none

/-! ## Operations -/

/-- What a redirection does to file descriptors. -/
inductive DescriptorChange where
  | opens (descriptors : List Nat) (outlet : Outlet)
  | duplicates (descriptor source : Nat)
  | closes (descriptor : Nat)
  deriving DecidableEq, Repr

/-- **The outlets after an operation.** A duplicate leads where its source leads at that moment; if
the source leads nowhere then nothing changes. -/
def DescriptorChange.apply (outlets : Outlets) : DescriptorChange → Outlets
  | .opens descriptors outlet => fun n => if n ∈ descriptors then some outlet else outlets n
  | .duplicates descriptor source => fun n =>
    if n = descriptor then (outlets source).or (outlets n) else outlets n
  | .closes descriptor => fun n => if n = descriptor then some .closed else outlets n

/-- The operators that redirect output. -/
def RedirectOp.isOutput : RedirectOp → Bool
  | .output | .append | .clobber | .duplicateOutput | .bothOutput | .bothAppend => true
  | .input | .hereDocument | .hereDocumentTabs | .hereString | .duplicateInput => false

namespace Redirection

/-- The word that a redirection expands. -/
def word (r : Redirection) : Word :=
  match r.target with
  | .word word => word
  | .hereDocument _ content _ _ => content

/-- A file that a name means is opened: it is made if it is missing, and emptied unless it is to be
extended. -/
def Opens (name : String) (extending : Bool) (shell next : Shell) : Prop :=
  ∃ destination, (Streams.destinationOf name extending).run shell = (.ok (.ok destination), next)

/-- **What an output redirection does** to the descriptors when its target was expanded to a name. A
file that it means is opened on the way. -/
inductive Does (r : Redirection) (name : String) (shell : Shell) : DescriptorChange → Shell → Prop
  | output {next : Shell} (hop : r.op = .output ∨ r.op = .clobber)
      (hopens : Opens name false shell next) :
      Does r name shell (.opens [r.descriptor.getD 1] (.named shell.directory name)) next
  | append {next : Shell} (hop : r.op = .append) (hopens : Opens name true shell next) :
      Does r name shell (.opens [r.descriptor.getD 1] (.named shell.directory name)) next
  | bothOutput {next : Shell} (hop : r.op = .bothOutput) (hopens : Opens name false shell next) :
      Does r name shell (.opens [1, 2] (.named shell.directory name)) next
  | bothAppend {next : Shell} (hop : r.op = .bothAppend) (hopens : Opens name true shell next) :
      Does r name shell (.opens [1, 2] (.named shell.directory name)) next
  /-- No number and no dash: a name, which both descriptors are led to. -/
  | named {next : Shell} (hop : r.op = .duplicateOutput) (hdescriptor : r.descriptor = none)
      (hname : Streams.isDescriptor name = false) (hopens : Opens name false shell next) :
      Does r name shell (.opens [1, 2] (.named shell.directory name)) next
  | duplicate {source : Nat} (hop : r.op = .duplicateOutput)
      (hname : Text.allDigits name = true) (hsource : Text.readDecimal name = .ok (source : Int)) :
      Does r name shell (.duplicates (r.descriptor.getD 1) source) shell
  | close (hop : r.op = .duplicateOutput) (hname : name = "-") :
      Does r name shell (.closes (r.descriptor.getD 1)) shell

/-- **What output redirections do**, from left to right, each in the shell that the one before it
leaves. -/
inductive Perform (x : Expander) :
    List Redirection → Shell → List DescriptorChange → Shell → Prop
  | nil (shell : Shell) : Perform x [] shell [] shell
  | cons {r : Redirection} {rest : List Redirection} {name : String}
      {shell expanded opened last : Shell} {change : DescriptorChange}
      {changes : List DescriptorChange} (hname : r.word.text x shell = (.ok name, expanded))
      (hdoes : r.Does name expanded change opened) (hrest : Perform x rest opened changes last) :
      Perform x (r :: rest) shell (change :: changes) last

end Redirection

/-- Digits alone are no negative numeral. -/
theorem Text.readDecimal_nonneg {text : String} {n : Int} (hdigits : allDigits text = true)
    (h : readDecimal text = .ok n) : 0 ≤ n := by
  rw [allDigits, Bool.and_eq_true, List.all_eq_true] at hdigits
  have hsign : (readSign (text.toList.dropWhile isNumeralBlank)).1 = false := by
    unfold readSign
    split
    · next rest heq =>
      have hmem : '-' ∈ text.toList :=
        (List.dropWhile_sublist _).subset (heq ▸ List.mem_cons_self)
      exact absurd (hdigits.2 _ hmem) (by decide)
    · rfl
    · rfl
  rw [readDecimal, readInteger] at h
  revert hsign h
  rcases readSign (text.toList.dropWhile isNumeralBlank) with ⟨negative, body⟩
  intro h hsign
  obtain rfl : negative = false := hsign
  dsimp only at h
  rcases hread : readDigits 10 true 0 0 (dropRadixMark 10 body) with - | ⟨count, value, rest⟩ <;>
    rw [hread] at h
  · cases h
  dsimp only at h
  split at h
  · cases h
  split at h
  · cases h
    exact Int.natCast_nonneg value
  · cases h

namespace Streams

variable {x : Expander} {shell next : Shell}

theorem setup_bind_eq_ok_iff {α β : Type} {y : Setup α} {f : α → Setup β} {b : β} :
    (y >>= f).run shell = (.ok (.ok b), next) ↔
      ∃ a middle, y.run shell = (.ok (.ok a), middle) ∧ (f a).run middle = (.ok (.ok b), next) := by
  rw [ExceptT.run_bind, bind_apply_eq_ok_iff]
  constructor
  · rintro ⟨e | a, middle, hy, hf⟩
    · cases hf
    · exact ⟨a, middle, hy, hf⟩
  · rintro ⟨a, middle, hy, hf⟩
    exact ⟨.ok a, middle, hy, hf⟩

/-! ## Setting up -/

/-- **What a name is opened as** is what it means. -/
theorem eq_named_of_destinationOf {name : String} {extending : Bool} {destination : Destination}
    (h : (destinationOf name extending).run shell = (.ok (.ok destination), next)) :
    destination = (Outlet.named shell.directory name).destination := by
  rw [destinationOf] at h
  split at h
  · cases h
  split at h
  · next hdiscarding =>
    cases h
    rw [isDiscarding, Bool.or_eq_true, decide_eq_true_eq, decide_eq_true_eq] at hdiscarding
    rcases hdiscarding with rfl | rfl <;> rfl
  next hkept =>
  rw [isDiscarding, Bool.or_eq_true, decide_eq_true_eq, decide_eq_true_eq, not_or] at hkept
  rw [Outlet.named, if_neg hkept.1, if_neg hkept.2]
  split at h
  · next hname =>
    cases h
    rw [if_pos hname]
    rfl
  next hstdout =>
  rw [if_neg hstdout]
  split at h
  · next hname =>
    cases h
    rw [if_pos hname]
    rfl
  next hstderr =>
  rw [if_neg hstderr]
  have hpath : Run.pathOf name shell = (.ok ((Path.ofString shell.directory).resolve name), shell) :=
    rfl
  rw [lift_bind_apply, bind_apply, hpath] at h
  dsimp only at h
  rw [lift_bind_apply, bind_apply, get_apply] at h
  dsimp only at h
  split at h
  · cases h
  split at h
  · obtain ⟨-, middle, -, hend⟩ := setup_bind_eq_ok_iff.1 h
    cases hend
    rfl
  · cases h
    rfl

/-- The outlets say where the descriptors of some streams lead. -/
def Shows (s : Streams) (outlets : Outlets) : Prop :=
  ∀ n, s.outputs.get? n = (outlets n).map Outlet.destination

theorem shows_ofInput (input : String) : (ofInput input).Shows .standard := by
  intro n
  match n with
  | 0 => rfl
  | 1 => rfl
  | 2 => rfl
  | n + 3 => rfl

variable {s : Streams} {outlets : Outlets}

theorem get?_lead (s : Streams) (descriptor n : Nat) (destination : Destination) :
    (s.lead descriptor destination).outputs.get? n =
      if descriptor = n then some destination else s.outputs.get? n :=
  Table.get?_insert _ _ _ _

theorem Shows.lead (hs : s.Shows outlets) (descriptor : Nat) (outlet : Outlet) :
    (s.lead descriptor outlet.destination).Shows
      ((DescriptorChange.opens [descriptor] outlet).apply outlets) := by
  intro n
  rw [get?_lead, hs n]
  simp only [DescriptorChange.apply, List.mem_singleton, eq_comm (a := n)]
  split <;> rfl

theorem Shows.both (hs : s.Shows outlets) (outlet : Outlet) :
    ((s.lead 1 outlet.destination).lead 2 outlet.destination).Shows
      ((DescriptorChange.opens [1, 2] outlet).apply outlets) := by
  intro n
  rw [get?_lead, get?_lead, hs n]
  simp only [DescriptorChange.apply, List.mem_cons, List.not_mem_nil, or_false, eq_comm (a := n)]
  by_cases h1 : 1 = n <;> by_cases h2 : 2 = n <;> simp [h1, h2]

theorem Shows.close (hs : s.Shows outlets) (descriptor : Nat) :
    (s.lead descriptor .nowhere).Shows ((DescriptorChange.closes descriptor).apply outlets) := by
  intro n
  rw [get?_lead, hs n]
  simp only [DescriptorChange.apply, eq_comm (a := n)]
  split <;> rfl

theorem Shows.duplicate (hs : s.Shows outlets) {destination : Destination} (descriptor : Nat)
    {source : Nat} (h : s.outputs.get? source = some destination) :
    (s.lead descriptor destination).Shows
      ((DescriptorChange.duplicates descriptor source).apply outlets) := by
  rw [hs source, Option.map_eq_some_iff] at h
  obtain ⟨outlet, houtlet, rfl⟩ := h
  intro n
  rw [get?_lead, hs n]
  simp only [DescriptorChange.apply, houtlet, Option.some_or, eq_comm (a := n)]
  split <;> rfl

/-- A source that leads nowhere changes nothing. -/
theorem Shows.duplicate_none (hs : s.Shows outlets) (descriptor : Nat) {source : Nat}
    (h : s.outputs.get? source = none) :
    s.Shows ((DescriptorChange.duplicates descriptor source).apply outlets) := by
  rw [hs source, Option.map_eq_none_iff] at h
  intro n
  rw [hs n]
  simp only [DescriptorChange.apply, h, Option.none_or, ite_self]

/-- A descriptor that is led to what a name means. -/
theorem Shows.opens_of_lead (hs : s.Shows outlets) {name : String} {extending : Bool}
    {descriptor : Nat} {s' : Streams}
    (h : (do return s.lead descriptor (← destinationOf name extending) : Setup Streams).run shell =
      (.ok (.ok s'), next)) :
    Redirection.Opens name extending shell next ∧
      s'.Shows
        ((DescriptorChange.opens [descriptor] (.named shell.directory name)).apply outlets) := by
  obtain ⟨destination, middle, hopens, hend⟩ := setup_bind_eq_ok_iff.1 h
  cases hend
  obtain rfl := eq_named_of_destinationOf hopens
  exact ⟨⟨_, hopens⟩, hs.lead _ _⟩

/-- Both descriptors are led to what a name means. -/
theorem Shows.opens_of_both (hs : s.Shows outlets) {name : String} {extending : Bool} {s' : Streams}
    (h : (redirectTo.both s name extending).run shell = (.ok (.ok s'), next)) :
    Redirection.Opens name extending shell next ∧
      s'.Shows ((DescriptorChange.opens [1, 2] (.named shell.directory name)).apply outlets) := by
  obtain ⟨destination, middle, hopens, hend⟩ := setup_bind_eq_ok_iff.1 h
  cases hend
  obtain rfl := eq_named_of_destinationOf hopens
  exact ⟨⟨_, hopens⟩, hs.both _⟩

/-- A descriptor is duplicated, or closed. -/
theorem Shows.exists_does_of_duplicate (hs : s.Shows outlets) {r : Redirection} {name : String}
    {s' : Streams} (hop : r.op = .duplicateOutput) (hname : isDescriptor name = true)
    (h : (s.duplicate (r.descriptor.getD 1) name).run shell = (.ok (.ok s'), next)) :
    ∃ change, r.Does name shell change next ∧ s'.Shows (change.apply outlets) := by
  rw [Streams.duplicate] at h
  split at h
  · next hdash =>
    cases h
    exact ⟨_, .close hop hdash, hs.close _⟩
  next hdash =>
  rw [isDescriptor, Bool.or_eq_true, decide_eq_true_eq, or_iff_left hdash] at hname
  rw [lift_bind_apply, bind_apply] at h
  rcases hread : Text.readDecimal name with e | number <;> rw [hread] at h
  · cases h
  obtain ⟨source, rfl⟩ := Int.eq_ofNat_of_zero_le (Text.readDecimal_nonneg hname hread)
  have hdoes : r.Does name shell _ shell := .duplicate hop hname hread
  dsimp only [Run.orFault, pure_apply] at h
  rw [Int.toNat_natCast] at h
  rcases hsource : s.outputs.get? source with - | destination <;> rw [hsource] at h <;>
    dsimp only at h
  · split at h
    · cases h
      exact ⟨_, hdoes, hs.duplicate_none _ hsource⟩
    · cases h
  · cases h
    exact ⟨_, hdoes, hs.duplicate _ hsource⟩

/-- **One redirection** does one thing, and the streams show it. -/
theorem Shows.exists_does_of_redirectTo (hs : s.Shows outlets) {r : Redirection} {name : String}
    {s' : Streams} (hop : r.op.isOutput = true)
    (h : (s.redirectTo r.op r.descriptor name).run shell = (.ok (.ok s'), next)) :
    ∃ change, r.Does name shell change next ∧ s'.Shows (change.apply outlets) := by
  rcases hr : r.op <;> rw [hr] at h hop <;> rw [redirectTo] at h
  case input | hereDocument | hereDocumentTabs | hereString | duplicateInput => cases hop
  case output =>
    obtain ⟨hopens, hshows⟩ := hs.opens_of_lead h
    exact ⟨_, .output (.inl hr) hopens, hshows⟩
  case clobber =>
    obtain ⟨hopens, hshows⟩ := hs.opens_of_lead h
    exact ⟨_, .output (.inr hr) hopens, hshows⟩
  case append =>
    obtain ⟨hopens, hshows⟩ := hs.opens_of_lead h
    exact ⟨_, .append hr hopens, hshows⟩
  case bothOutput =>
    obtain ⟨hopens, hshows⟩ := hs.opens_of_both h
    exact ⟨_, .bothOutput hr hopens, hshows⟩
  case bothAppend =>
    obtain ⟨hopens, hshows⟩ := hs.opens_of_both h
    exact ⟨_, .bothAppend hr hopens, hshows⟩
  case duplicateOutput =>
    split at h
    · next hname => exact hs.exists_does_of_duplicate hr hname h
    next hname =>
    split at h
    · next hdescriptor =>
      obtain ⟨hopens, hshows⟩ := hs.opens_of_both h
      exact ⟨_, .named hr (Option.isNone_iff_eq_none.1 hdescriptor) (by simpa using hname) hopens,
        hshows⟩
    · cases h

/-- **The whole list.** The streams that it makes show what its redirections did, from left to
right. -/
theorem Shows.perform (hs : s.Shows outlets) {redirections : List Redirection} {s' : Streams}
    (hoperators : ∀ r ∈ redirections, r.op.isOutput = true)
    (h : (redirections.foldlM (redirect x) s).run shell = (.ok (.ok s'), next)) :
    ∃ changes, Redirection.Perform x redirections shell changes next ∧
      s'.Shows (changes.foldl DescriptorChange.apply outlets) := by
  induction redirections generalizing s outlets shell with
  | nil =>
    cases h
    exact ⟨[], .nil _, hs⟩
  | cons r rest ih =>
    rw [List.foldlM_cons] at h
    obtain ⟨later, opened, hredirect, hrest⟩ := setup_bind_eq_ok_iff.1 h
    rw [redirect, lift_bind_apply, bind_apply_eq_ok_iff] at hredirect
    obtain ⟨name, expanded, hname, hredirect⟩ := hredirect
    obtain ⟨change, hdoes, hshows⟩ :=
      hs.exists_does_of_redirectTo (hoperators r List.mem_cons_self) hredirect
    obtain ⟨changes, hperform, hlast⟩ :=
      ih hshows (fun r hr => hoperators r (List.mem_cons_of_mem _ hr)) hrest
    exact ⟨change :: changes, .cons hname hdoes hperform, hlast⟩

/-- A third descriptor keeps what the first one was when two are changed round. -/
example : [.duplicates 3 1, .duplicates 1 2, .duplicates 2 3].foldl
    DescriptorChange.apply .standard 2 = some .stdout := by
  rfl

end Streams

end VirtualShell
