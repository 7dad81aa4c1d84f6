import VirtualShell.Proofs.FileSystem.ReadBack
import VirtualShell.Proofs.Session.Descriptors
import VirtualShell.Proofs.Session.Selection

/-!
# Where redirected output goes

When a command has ended, what it wrote to the descriptors one and two goes where these lead. Two
paths may lead to the same file, over links, and then the file gets both texts; so what a file gets
is said about the place at which it stands. A text that is added to one file leaves every other path
where it led, because no way goes over a file.

* `FileSystem.Grown` — what was added at a place.
* `FileSystem.Takes.exists_finds` — paths under which a text can be added lead somewhere from the
  beginning.
* `Streams.extendAll_of_takes` — texts that are added one after another, whatever links lead where.
* **`Streams.deliver_of_redirections`** — what becomes of an output.
-/

namespace VirtualShell

open Run

/-! ## Reaching a file -/

/-- A path leads to a place, over whatever links. -/
def FileSystem.Finds (files : FileSystem) (path place : Path) : Prop :=
  files.follow (.ofString path.render) true = .ok place

instance (files : FileSystem) (path place : Path) : Decidable (files.Finds path place) :=
  inferInstanceAs (Decidable (_ = _))

namespace Outlet

/-- The outlet is the file at a place, whatever links lead there. -/
def Reaches (files : FileSystem) (place : Path) : Outlet → Prop
  | .file path => files.Finds path place
  | .stdout | .stderr | .null | .zero | .closed => False

instance (files : FileSystem) (place : Path) : DecidablePred (Reaches files place)
  | .file path => inferInstanceAs (Decidable (files.Finds path place))
  | .stdout | .stderr | .null | .zero | .closed => inferInstanceAs (Decidable False)

/-- What is written there is kept: in a stream of the command, or in a file. -/
def Keeps (files : FileSystem) (outlet : Outlet) : Prop :=
  outlet = .stdout ∨ outlet = .stderr ∨ ∃ place, outlet.Reaches files place

/-- The outlets at which nothing is kept. -/
def drops : Outlet → Bool
  | .null | .zero | .closed => true
  | .stdout | .stderr | .file _ => false

end Outlet

/-- What of an output goes to the outlets with a property: the output first, and then the errors. -/
def Output.sent (output : Output) (first second : Outlet) (test : Outlet → Prop)
    [DecidablePred test] : String :=
  (if test first then output.stdout else "") ++ (if test second then output.stderr else "")

/-- A value that a table has for a key stands in its entries. -/
theorem Table.mem_of_get? {κ ν : Type} [DecidableEq κ] {t : Table κ ν} {k : κ} {v : ν}
    (h : t.get? k = some v) : (k, v) ∈ t.entries := by
  obtain ⟨entries, hnodup⟩ := t
  simp only [get?] at h ⊢
  clear hnodup
  induction entries with
  | nil => cases h
  | cons e rest ih =>
    rw [lookup] at h
    split at h
    · next heq =>
      cases h
      subst heq
      exact List.mem_cons_self
    · exact List.mem_cons_of_mem _ (ih h)

/-! ## Texts for files -/

namespace FileSystem

variable {fs next : FileSystem} {p place : Path} {entries : List (Path × String)}

/-- **What was added at a place**: nothing, or a text at the end of the file there, which keeps its
permission bits and is made when it is missing. -/
def Grown (fs next : FileSystem) (place : Path) (text : String) : Prop :=
  if text = "" then next.entryAt? place = fs.entryAt? place
  else (fs.nodeAt? place = none ∨ ∃ old, fs.nodeAt? place = some (.file old)) ∧
    ∃ modified, next.entryAt? place =
      some ⟨.file (fs.contentAt place ++ text), fs.fileModeAt place, modified⟩

/-- One text after another. -/
theorem Grown.trans {later : FileSystem} {first second : String}
    (h : fs.Grown next place first) (h' : next.Grown later place second) :
    fs.Grown later place (first ++ second) := by
  by_cases hfirst : first = ""
  · subst hfirst
    rw [Grown, if_pos rfl] at h
    rw [String.empty_append]
    simpa only [Grown, contentAt, fileModeAt, nodeAt?, h] using h'
  rw [Grown, if_neg hfirst] at h
  obtain ⟨hnode, modified, hentry⟩ := h
  have happend : first ++ second ≠ "" := by
    intro heq
    exact hfirst (String.append_eq_empty_iff.1 heq).1
  rw [Grown, if_neg happend]
  refine ⟨hnode, ?_⟩
  by_cases hsecond : second = ""
  · subst hsecond
    rw [Grown, if_pos rfl] at h'
    exact ⟨modified, by rw [h', hentry, String.append_empty]⟩
  rw [Grown, if_neg hsecond] at h'
  obtain ⟨-, modified', hentry'⟩ := h'
  refine ⟨modified', ?_⟩
  rw [hentry', contentAt, fileModeAt, hentry, String.append_assoc]

/-- A file is extended where it stands, and nothing else changes. -/
theorem ExtendsAt.grown {text content : String} (h : fs.ExtendsAt text p) (hcontent : content ≠ "")
    (place : Path) : fs.Grown (fs.extendAt p content) place (if p = place then content else "") := by
  split
  · next heq =>
    subst heq
    rw [Grown, if_neg hcontent]
    exact ⟨h.node, _, entryAt?_extendAt fs p content⟩
  · next hne =>
    rw [Grown, if_pos rfl]
    exact (Table.get?_insert ..).trans (if_neg hne)

/-- What a list of texts comes to at a place. -/
def textAt (fs : FileSystem) (place : Path) (entries : List (Path × String)) : String :=
  String.join (entries.map fun e => if fs.Finds e.1 place then e.2 else "")

theorem textAt_cons (e : Path × String) (place : Path) (entries : List (Path × String)) :
    fs.textAt place (e :: entries) =
      (if fs.Finds e.1 place then e.2 else "") ++ fs.textAt place entries := by
  rw [textAt, List.map_cons, String.join_cons]
  rfl

/-- The first text that can be added, and the others after it. -/
theorem Takes.extendsAt {text : String} (h : fs.Takes ((p, text) :: entries)) (htext : text ≠ "") :
    ∃ q, fs.ExtendsAt p.render q ∧ (fs.extendAt q text).Takes entries := by
  rw [Takes, if_neg (by simpa using htext)] at h
  rcases happend : append p.render text fs with ⟨e | ⟨⟩, next⟩ <;> rw [happend] at h
  · cases h
  obtain ⟨q, hq⟩ := exists_extendsAt (congrArg Prod.fst happend)
  rw [hq.append_eq] at happend
  cases happend
  exact ⟨q, hq, h⟩

theorem takes_cons_empty : fs.Takes ((p, "") :: entries) ↔ fs.Takes entries := by
  rw [Takes, if_pos (by decide)]

/-- **All paths lead somewhere** from the beginning, under which there is a text to be added. -/
theorem Takes.exists_finds (h : fs.Takes entries) {e : Path × String} (he : e ∈ entries)
    (htext : e.2 ≠ "") : ∃ place, fs.Finds e.1 place := by
  induction entries generalizing fs with
  | nil => cases he
  | cons first rest ih =>
    obtain ⟨p, text⟩ := first
    by_cases hempty : text = ""
    · subst hempty
      rcases List.mem_cons.1 he with rfl | he
      · exact absurd rfl htext
      · exact ih (takes_cons_empty.1 h) he
    obtain ⟨q, hq, hrest⟩ := h.extendsAt hempty
    rcases List.mem_cons.1 he with rfl | he
    · exact ⟨q, hq.follow⟩
    · obtain ⟨place, hplace⟩ := ih hrest he
      exact ⟨place, hq.follow_of_extendAt hplace⟩

/-- What is left comes to the same before and after a file was extended: a path that leads
somewhere leads there both times, and one that does not has no text. -/
theorem ExtendsAt.textAt_extendAt {text content : String} (h : fs.ExtendsAt text p)
    (hrest : (fs.extendAt p content).Takes entries) (place : Path) :
    (fs.extendAt p content).textAt place entries = fs.textAt place entries := by
  refine congrArg String.join (List.map_congr_left fun e he => ?_)
  by_cases hempty : e.2 = ""
  · rw [hempty, ite_self, ite_self]
  obtain ⟨found, hfound⟩ := hrest.exists_finds he hempty
  have hbefore := h.follow_of_extendAt hfound
  have hiff : (fs.extendAt p content).Finds e.1 place ↔ fs.Finds e.1 place := by
    rw [Finds, Finds, hfound, hbefore]
  rw [if_congr hiff rfl rfl]

end FileSystem

namespace Streams

variable {shell : Shell} {entries : List (Path × String)}

/-- **Texts that are added one after another.** Every place gets those whose paths led there in the
beginning, in their order, and nothing else changes. The induction is on the texts that are left;
the paths of these still lead where they led. -/
theorem extendAll_of_takes (h : shell.files.Takes entries) :
    ∃ next, extendAll entries shell = (.ok (), { shell with files := next }) ∧
      ∀ place, shell.files.Grown next place (shell.files.textAt place entries) := by
  induction entries generalizing shell with
  | nil => exact ⟨shell.files, rfl, fun place => rfl⟩
  | cons first rest ih =>
    obtain ⟨p, text⟩ := first
    have hall : extendAll ((p, text) :: rest) = (do extend p text; extendAll rest) := rfl
    rw [hall, bind_apply]
    by_cases hempty : text = ""
    · subst hempty
      obtain ⟨next, hnext, hgrown⟩ := ih (FileSystem.takes_cons_empty.1 h)
      refine ⟨next, hnext, fun place => ?_⟩
      rw [FileSystem.textAt_cons, ite_self, String.empty_append]
      exact hgrown place
    obtain ⟨q, hq, hrest⟩ := h.extendsAt hempty
    rw [extend_apply p (by simpa using hempty), hq.append_eq]
    obtain ⟨next, hnext, hgrown⟩ :=
      @ih { shell with files := shell.files.extendAt q text } hrest
    refine ⟨next, hnext, fun place => ?_⟩
    have hfinds : shell.files.Finds p place ↔ q = place := by
      rw [FileSystem.Finds, hq.follow, Except.ok.injEq]
    rw [FileSystem.textAt_cons, if_congr hfinds rfl rfl, ← hq.textAt_extendAt hrest]
    exact (hq.grown hempty place).trans (hgrown place)

/-! ## Sorting an output -/

variable {d : Delivery} {fs : FileSystem} {outlet : Outlet} {text : String}

theorem send_output (d : Delivery) (outlet : Outlet) (text : String) :
    (d.send outlet.destination text).output =
      d.output ++ ⟨if outlet = .stdout then text else "", if outlet = .stderr then text else ""⟩ := by
  cases outlet <;> first | rfl | exact (Output.append_empty _).symm

/-- A text for a path comes after what is there for that path, and after all the rest if there is
one text at the most: further ones might be kept in another order. -/
theorem textAt_put (hentries : entries.length ≤ 1) (fs : FileSystem) (place path : Path)
    (text : String) :
    fs.textAt place (Table.put path ((Table.lookup path entries).getD "" ++ text) entries) =
      fs.textAt place entries ++ (if fs.Finds path place then text else "") := by
  rcases entries with _ | ⟨⟨found, old⟩, _ | ⟨_, _⟩⟩
  · simp [Table.lookup, Table.put, FileSystem.textAt]
  · by_cases hfound : found = path
    · subst hfound
      by_cases hfinds : fs.Finds found place <;>
        simp [Table.lookup, Table.put, FileSystem.textAt, hfinds]
    · simp [Table.lookup, Table.put, FileSystem.textAt, hfound]
  · simp at hentries

theorem textAt_send (hd : d.files.entries.length ≤ 1) (fs : FileSystem) (place : Path)
    (outlet : Outlet) (text : String) :
    fs.textAt place (d.send outlet.destination text).files.entries =
      fs.textAt place d.files.entries ++ (if outlet.Reaches fs place then text else "") := by
  cases outlet with
  | stdout | stderr | null | zero | closed => exact String.append_empty.symm
  | file path => exact textAt_put hd fs place path text

/-- There is a text for a path, and it is not empty. -/
def Delivery.Carries (d : Delivery) (path : Path) : Prop :=
  ∃ text, d.files.get? path = some text ∧ text ≠ ""

theorem carries_send (d : Delivery) (path : Path) (htext : text ≠ "") :
    (d.send (.file path) text).Carries path := by
  refine ⟨_, Table.get?_insert_self _ _ _, fun hempty => htext ?_⟩
  exact (String.append_eq_empty_iff.1 hempty).2

theorem Delivery.Carries.send {path : Path} (h : d.Carries path) (outlet : Outlet)
    (text : String) : (d.send outlet.destination text).Carries path := by
  cases outlet with
  | stdout | stderr | null | zero | closed => exact h
  | file other =>
    obtain ⟨old, hold, hne⟩ := h
    by_cases hother : other = path
    · subst hother
      refine ⟨_, Table.get?_insert_self _ _ _, fun hempty => hne ?_⟩
      rw [hold] at hempty
      exact (String.append_eq_empty_iff.1 hempty).1
    · refine ⟨old, ?_, hne⟩
      rw [← hold]
      exact (Table.get?_insert ..).trans (if_neg hother)

theorem Delivery.Carries.exists_mem {path : Path} (h : d.Carries path) :
    ∃ e ∈ d.files.entries, e.1 = path ∧ e.2 ≠ "" := by
  obtain ⟨text, hget, hne⟩ := h
  exact ⟨(path, text), Table.mem_of_get? hget, rfl, hne⟩

section

variable {s : Streams} {first second : Outlet}

/-- **What an output comes to at the streams**, when it is known where the descriptors lead. -/
theorem output_sorted (hfirst : s.destination 1 = first.destination)
    (hsecond : s.destination 2 = second.destination) (output : Output) :
    (s.sorted output).output =
      ⟨output.sent first second (· = .stdout), output.sent first second (· = .stderr)⟩ := by
  rw [sorted, hfirst, hsecond, send_output, send_output, Output.empty_append]
  rfl

/-- What it comes to at a place in the files. -/
theorem textAt_sorted (hfirst : s.destination 1 = first.destination)
    (hsecond : s.destination 2 = second.destination) (output : Output) (place : Path) :
    fs.textAt place (s.sorted output).files.entries =
      output.sent first second (Outlet.Reaches fs place) := by
  have hlength : ((⟨.empty, .empty⟩ : Delivery).send first.destination
      output.stdout).files.entries.length ≤ 1 := by
    cases first <;> simp [Outlet.destination, Delivery.send, Table.insert, Table.put, Table.empty]
  rw [sorted, hfirst, hsecond, textAt_send hlength, textAt_send (d := ⟨.empty, .empty⟩)
    (Nat.zero_le 1)]
  rfl

/-- A text that is not empty is kept or dropped, as its outlet says. -/
theorem Delivers.keeps_iff {output : Output} (h : s.Delivers output fs)
    (hcarries : ∀ path, outlet = .file path → (s.sorted output).Carries path) :
    outlet.Keeps fs ↔ outlet.drops = false := by
  cases outlet with
  | stdout | stderr | null | zero | closed => simp [Outlet.Keeps, Outlet.drops, Outlet.Reaches]
  | file path =>
    obtain ⟨e, he, rfl, htext⟩ := (hcarries path rfl).exists_mem
    exact iff_of_true (.inr (.inr (h.exists_finds he htext))) rfl

theorem Delivers.first_keeps_iff (hfirst : s.destination 1 = first.destination)
    (hsecond : s.destination 2 = second.destination) {output : Output}
    (h : s.Delivers output fs) (hne : output.stdout ≠ "") :
    first.Keeps fs ↔ first.drops = false := by
  refine h.keeps_iff fun path hpath => ?_
  rw [sorted, hfirst, hsecond, hpath]
  exact (carries_send _ path hne).send second output.stderr

theorem Delivers.second_keeps_iff (hsecond : s.destination 2 = second.destination)
    {output : Output} (h : s.Delivers output fs) (hne : output.stderr ≠ "") :
    second.Keeps fs ↔ second.drops = false := by
  refine h.keeps_iff fun path hpath => ?_
  rw [sorted, hsecond, hpath]
  exact carries_send _ path hne

end

/-! ## Redirected output -/

variable {x : Expander} {redirections : List Redirection} {input : String} {ready : Shell}
  {streams : Streams}

/-- Output and errors are somewhere, whatever is redirected. -/
theorem exists_outlet (changes : List DescriptorChange) {outlets : Outlets} {n : Nat}
    (h : ∃ outlet, outlets n = some outlet) :
    ∃ outlet, changes.foldl DescriptorChange.apply outlets n = some outlet := by
  induction changes generalizing outlets with
  | nil => exact h
  | cons change rest ih =>
    refine ih ?_
    obtain ⟨outlet, houtlet⟩ := h
    cases change with
    | opens descriptors opened =>
      simp only [DescriptorChange.apply]
      split
      · exact ⟨_, rfl⟩
      · exact ⟨_, houtlet⟩
    | duplicates descriptor source =>
      simp only [DescriptorChange.apply]
      split
      · rw [houtlet]
        cases outlets source <;> exact ⟨_, rfl⟩
      · exact ⟨_, houtlet⟩
    | closes descriptor =>
      simp only [DescriptorChange.apply]
      split
      · exact ⟨_, rfl⟩
      · exact ⟨_, houtlet⟩

/-- A descriptor has the destination of its outlet. -/
theorem Shows.destination_eq {s : Streams} {outlets : Outlets} (hs : s.Shows outlets) {n : Nat}
    (h : outlets n = some outlet) : s.destination n = outlet.destination := by
  rw [destination, hs n, h]
  rfl

/-- **Where redirected output goes.** When output redirections can be set up, the descriptors one
and two lead where the redirections have led them, from left to right, in a table that has output
and errors alone at first. When a command has written an output and the files take it, then what
goes to the output stream is left as output, what goes to the error stream is left as errors, and
what leads to a place in the files is added to the file there; each time the output comes first and
the errors after it, and nothing else changes. A text is dropped only at an outlet that was closed
or that means nowhere. -/
theorem deliver_of_redirections (hoperators : ∀ r ∈ redirections, r.op.isOutput = true)
    (hsetup : (ofRedirections x redirections input).run shell = (.ok (.ok streams), ready)) :
    ∃ changes first second, Redirection.Perform x redirections shell changes ready ∧
      changes.foldl DescriptorChange.apply .standard 1 = some first ∧
      changes.foldl DescriptorChange.apply .standard 2 = some second ∧
      streams.destination 1 = first.destination ∧ streams.destination 2 = second.destination ∧
      ∀ (output : Output) (ended : Shell), streams.Delivers output ended.files →
        ∃ next, streams.deliver output ended =
            (.ok ⟨output.sent first second (· = .stdout), output.sent first second (· = .stderr)⟩,
              { ended with files := next }) ∧
          (∀ place, ended.files.Grown next place
            (output.sent first second (Outlet.Reaches ended.files place))) ∧
          (output.stdout ≠ "" → (first.Keeps ended.files ↔ first.drops = false)) ∧
          (output.stderr ≠ "" → (second.Keeps ended.files ↔ second.drops = false)) := by
  obtain ⟨changes, hperform, hshows⟩ := (shows_ofInput input).perform hoperators hsetup
  have hstdout : ∃ outlet, Outlets.standard 1 = some outlet := ⟨_, rfl⟩
  have hstderr : ∃ outlet, Outlets.standard 2 = some outlet := ⟨_, rfl⟩
  obtain ⟨first, hfirst⟩ := exists_outlet changes hstdout
  obtain ⟨second, hsecond⟩ := exists_outlet changes hstderr
  have hfirst' := hshows.destination_eq hfirst
  have hsecond' := hshows.destination_eq hsecond
  refine ⟨changes, first, second, hperform, hfirst, hsecond, hfirst', hsecond', ?_⟩
  intro output ended hdelivers
  obtain ⟨next, hall, hgrown⟩ := extendAll_of_takes hdelivers
  refine ⟨next, ?_, fun place => ?_, fun hne => hdelivers.first_keeps_iff hfirst' hsecond' hne,
    fun hne => hdelivers.second_keeps_iff hsecond' hne⟩
  · rw [← output_sorted hfirst' hsecond', deliver_eq_extendAll, bind_apply, hall]
    rfl
  · rw [← textAt_sorted hfirst' hsecond']
    exact hgrown place

end Streams

namespace Merging

open Streams

/-- **`> f 2>&1`**: both streams go to one file. -/
def redirections : List Redirection :=
  [⟨.output, .word (.inQuotes "f"), none⟩, ⟨.duplicateOutput, .word (.inQuotes "1"), some 2⟩]

/-- What expands the words. -/
def expander : Expander := (Runner.ofLimits .standard Utility.all).expander

/-- The shell before: at the root, where there is nothing. -/
def before : Shell := .start .bare "/" (.ofGlobals [] []) (.ofClock ⟨0, 0⟩)

/-- The shell when the file was opened. -/
def opened : Shell := { before with files := before.files.place ⟨["f"]⟩ (.file "") }

/-- The streams. -/
def streams : Streams := ⟨"", .ofList [(1, .file ⟨["f"]⟩), (2, .file ⟨["f"]⟩)]⟩

/-- What is written. -/
def output : Output := ⟨"a\n", "b\n"⟩

theorem setup : (ofRedirections expander redirections "").run before =
    (.ok (.ok streams), opened) := by
  have hdestination : (destinationOf "f" false).run before =
      (.ok (.ok (.file ⟨["f"]⟩)), opened) :=
    destinationOf_apply (by decide) (by decide) (by decide) (by cbv) (by cbv) (by cbv)
  have hfile : (Word.inQuotes "f").text expander = pure "f" := Word.text_quoted ..
  have hone : (Word.inQuotes "1").text expander = pure "1" := Word.text_quoted ..
  have hread : Text.readDecimal "1" = .ok 1 := by cbv
  have hopen : (redirect expander (ofInput "") ⟨.output, .word (.inQuotes "f"), none⟩).run before =
      (.ok (.ok ((ofInput "").lead 1 (.file ⟨["f"]⟩))), opened) := by
    rw [redirect, lift_bind_apply, hfile, pure_bind, redirectTo, setup_bind_apply hdestination]
    rfl
  have hduplicate : (redirect expander ((ofInput "").lead 1 (.file ⟨["f"]⟩))
      ⟨.duplicateOutput, .word (.inQuotes "1"), some 2⟩).run opened =
        (.ok (.ok streams), opened) := by
    rw [redirect, lift_bind_apply, hone, pure_bind, redirectTo, if_pos (by decide), duplicate,
      if_neg (by decide), lift_bind_apply, hread]
    rfl
  rw [ofRedirections, redirections, List.foldlM_cons, setup_bind_apply hopen, List.foldlM_cons,
    setup_bind_apply hduplicate]
  rfl

theorem delivers : streams.Delivers output opened.files := by
  have hentries : (streams.sorted output).files.entries = [(⟨["f"]⟩, "a\nb\n")] := by
    decide +kernel
  have hpath : (⟨["f"]⟩ : Path).render = "/f" := by cbv
  have happend : (FileSystem.append "/f" "a\nb\n" opened.files).1 = .ok () := by cbv
  rw [Delivers, hentries, FileSystem.Takes, if_neg (by decide), hpath]
  rcases hresult : FileSystem.append "/f" "a\nb\n" opened.files with ⟨e | ⟨⟩, files⟩
  · rw [hresult] at happend
    cases happend
  · trivial

theorem sent : output.sent (.file ⟨["f"]⟩) (.file ⟨["f"]⟩)
    (Outlet.Reaches opened.files ⟨["f"]⟩) = "a\nb\n" := by
  have hfollow : opened.files.follow (.ofString "/f") true = .ok ⟨["f"]⟩ := by cbv
  have hpath : (⟨["f"]⟩ : Path).render = "/f" := by cbv
  have hreaches : (Outlet.file ⟨["f"]⟩).Reaches opened.files ⟨["f"]⟩ := by
    rw [Outlet.Reaches, FileSystem.Finds, hpath, hfollow]
  rw [Output.sent, if_pos hreaches, if_pos hreaches]
  decide

end Merging

/-- After `> f 2>&1` the output and the errors after it are in the file, and nothing is left. -/
theorem Streams.deliver_of_redirections_merging :
    (∀ r ∈ Merging.redirections, r.op.isOutput = true) ∧
      (ofRedirections Merging.expander Merging.redirections "").run Merging.before =
        (.ok (.ok Merging.streams), Merging.opened) ∧
      Merging.streams.Delivers Merging.output Merging.opened.files ∧
      ∃ next, Merging.streams.deliver Merging.output Merging.opened =
          (.ok .empty, { Merging.opened with files := next }) ∧
        next.contentAt ⟨["f"]⟩ = "a\nb\n" := by
  have hoperators : ∀ r ∈ Merging.redirections, r.op.isOutput = true := by decide
  refine ⟨hoperators, Merging.setup, Merging.delivers, ?_⟩
  obtain ⟨changes, first, second, -, -, -, hfirst, hsecond, hdeliver⟩ :=
    deliver_of_redirections hoperators Merging.setup
  obtain ⟨next, hnext, hgrown, -, -⟩ := hdeliver _ _ Merging.delivers
  obtain rfl : first = .file ⟨["f"]⟩ := by
    cases first <;> cases hfirst
    rfl
  obtain rfl : second = .file ⟨["f"]⟩ := by
    cases second <;> cases hsecond
    rfl
  have hempty : Merging.opened.files.contentAt ⟨["f"]⟩ = "" := by cbv
  have hplace := hgrown ⟨["f"]⟩
  rw [Merging.sent, FileSystem.Grown, if_neg (by decide), hempty, String.empty_append] at hplace
  obtain ⟨-, modified, hentry⟩ := hplace
  refine ⟨next, hnext, ?_⟩
  rw [FileSystem.contentAt, hentry]

namespace ZeroDevice

open Streams

/-- The shell at the root, where a file has a name that means nowhere. -/
def shell : Shell :=
  .start .bare "/" (.ofGlobals [] [])
    (((FileSystem.ofClock ⟨0, 0⟩).place ⟨["dev"]⟩ .directory).place ⟨["dev", "zero"]⟩ (.file ""))

/-- **`> /dev/zero`** -/
def redirection : Redirection := ⟨.output, .word (.inQuotes "/dev/zero"), none⟩

/-- The streams. -/
def streams : Streams := ⟨"", .ofList [(1, .nowhere), (2, .stderr)]⟩

theorem text_word : (Word.inQuotes "/dev/zero").text Merging.expander = pure "/dev/zero" :=
  Word.text_quoted ..

theorem setup : (ofRedirections Merging.expander [redirection] "").run shell =
    (.ok (.ok streams), shell) := by
  have hdestination : (destinationOf "/dev/zero" false).run shell =
      (.ok (.ok .nowhere), shell) := by
    rw [destinationOf, if_neg (by decide), if_pos (by decide)]
    rfl
  have hredirect : (redirect Merging.expander (ofInput "") redirection).run shell =
      (.ok (.ok streams), shell) := by
    rw [redirection, redirect, lift_bind_apply, text_word, pure_bind, redirectTo,
      setup_bind_apply hdestination]
    rfl
  rw [ofRedirections, List.foldlM_cons, setup_bind_apply hredirect]
  rfl

/-- The descriptor leads to no other outlet. -/
theorem changes_eq {ready : Shell} {changes : List DescriptorChange}
    (h : Redirection.Perform Merging.expander [redirection] shell changes ready) :
    changes = [.opens [1] .zero] := by
  cases h with
  | cons hname hdoes hrest =>
    cases hrest
    rw [redirection, Redirection.word, text_word] at hname
    cases hname
    cases hdoes with
    | output => rfl
    | append hop | bothOutput hop | bothAppend hop | named hop | duplicate hop | close hop =>
      cases hop

end ZeroDevice

/-- **Not only the null device drops what is written**: there is a second name that means nowhere. -/
theorem Streams.zero_drops :
    ¬ ∀ (x : Expander) (redirections : List Redirection) (input : String) (shell ready : Shell)
        (streams : Streams), (∀ r ∈ redirections, r.op.isOutput = true) →
      (ofRedirections x redirections input).run shell = (.ok (.ok streams), ready) →
        ∃ changes first, Redirection.Perform x redirections shell changes ready ∧
          changes.foldl DescriptorChange.apply .standard 1 = some first ∧
          ∀ (output : Output) (ended : Shell), streams.Delivers output ended.files →
            output.stdout ≠ "" → first.Keeps ended.files ∨ first = .closed ∨ first = .null := by
  intro hkeeps
  obtain ⟨changes, first, hperform, hfirst, hkept⟩ :=
    hkeeps _ [ZeroDevice.redirection] _ _ _ _ (by decide) ZeroDevice.setup
  rw [ZeroDevice.changes_eq hperform] at hfirst
  cases hfirst
  have hzero := hkept ⟨"a\n", ""⟩ ZeroDevice.shell trivial (by decide)
  simp [Outlet.Keeps, Outlet.Reaches] at hzero

end VirtualShell
