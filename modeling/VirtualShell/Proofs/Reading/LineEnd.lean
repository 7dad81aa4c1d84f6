import VirtualShell.Proofs.Reading.Following

/-!
# A line end after a script

A line end after a script adds a token at most: the lexer takes the same constructs off the text,
and the line end ends the last of them. Only a backslash at the end would escape it, and a
here-document that waits for its last line would take it for an empty one.

* `PendingDocument.readBody_open` — a here-document that no line ends has the same lines.
* `Scanner.step_lineEnd` — one step of the lexer.
* **`TokenStream.ofText_lineEnd`** — all tokens of a text.
-/

namespace VirtualShell

/-! ## Here-documents -/

/-- **A here-document that no line ends** has no other lines, unless there is an empty line now. -/
theorem PendingDocument.readBody_open (doc : PendingDocument) {text : List Char}
    (h : doc.after? text = none) (hlast : ('\n' :: text).getLast? = some '\n' → doc.delimiter = [])
    (body : String) (count : Nat) :
    ∃ body' count' count'', doc.readBody body count text = (body', count', []) ∧
      doc.readBody body count (text ++ ['\n']) = (body', count'', []) := by
  fun_induction doc.readBody body count text with
  | case1 body count =>
    exact ⟨_, _, count + 1, rfl, by simp [readBody, takeLine, hlast rfl]⟩
  | case2 body count c text line' line hline =>
    rw [after?] at h
    cases (if_pos hline).symm.trans h
  | case3 body count c text line' line hline ih =>
    have hopen : doc.after? (takeLine (c :: text)).2 = none := by
      rw [after?] at h
      exact (if_neg hline).symm.trans h
    rcases takeLine_lineEnd [] (c :: text) with ⟨hnext, hsuffix⟩ | ⟨hnext, hend⟩ <;>
      rw [List.cons_append, readBody, ← List.cons_append, hnext]
    · have hwithin : '\n' :: (takeLine (c :: text)).2 <:+ '\n' :: c :: text :=
        hsuffix.trans (List.suffix_cons _ _)
      obtain ⟨body', count', count'', hread, hread'⟩ :=
        ih hopen fun hend => hlast (getLast?_of_suffix hwithin hend)
      exact ⟨body', count', count'', hread, (if_neg hline).trans hread'⟩
    · rw [hend, readBody]
      refine ⟨_, _, count + 1, rfl, (if_neg hline).trans ?_⟩
      rw [readBody]
      rfl

/-! ## The scanner -/

namespace Scanner

/-- The scanner with a line end after its text. -/
def withLineEnd (s : Scanner) : Scanner := s.followedBy []

/-- **One scanner has a line end left** that the other has not, or both are at the end with the same
tokens. -/
def LineEndLeft (s s' : Scanner) : Prop :=
  s' = s.withLineEnd ∨ s.rest = [] ∧ s'.rest = [] ∧ s'.tokens = s.tokens ∧ s'.bodies = s.bodies

/-- The here-documents that are due at the end have no lines. -/
theorem readBodies_of_rest_eq_nil {s : Scanner} (h : s.rest = []) (docs : List PendingDocument) :
    s.readBodies docs =
      { s with pending := [], bodies := List.replicate docs.length "" ++ s.bodies } := by
  induction docs generalizing s with
  | nil => rfl
  | cons doc docs ih =>
    simp only [readBodies]
    rw [h, PendingDocument.readBody, ih rfl]
    simp [List.replicate_succ']

/-- **The lines of here-documents** are the same unless the text ends in one of them. -/
theorem readBodies_lineEnd {s : Scanner} {docs : List PendingDocument}
    (h : ('\n' :: s.rest).getLast? = some '\n' →
      ∀ doc, openDocument? docs s.rest = some doc → doc.delimiter = []) :
    LineEndLeft (s.readBodies docs) (s.withLineEnd.readBodies docs) := by
  induction docs generalizing s with
  | nil => exact .inl rfl
  | cons doc docs ih =>
    simp only [readBodies, withLineEnd, followedBy]
    have hend (body : String) (count count' : Nat) : LineEndLeft
        (readBodies { s with rest := [], line := s.line + count, bodies := body :: s.bodies } docs)
        (readBodies { s with rest := [], line := s.line + count', bodies := body :: s.bodies } docs) := by
      rw [readBodies_of_rest_eq_nil rfl, readBodies_of_rest_eq_nil rfl]
      exact .inr ⟨rfl, rfl, rfl, rfl⟩
    rcases hafter : doc.after? s.rest with - | rest
    · obtain ⟨body, count, count', hread, hread'⟩ :=
        doc.readBody_open hafter (fun hlast => h hlast doc (by rw [openDocument?, hafter])) "" 0
      rw [hread, hread']
      exact hend body count count'
    · obtain ⟨body, count, hread, ⟨hread', hsuffix⟩ | ⟨hread', rfl⟩⟩ :=
        doc.readBody_followedBy [] hafter "" 0 <;> rw [hread, hread']
      · refine ih fun hlast doc hopen => h (getLast?_of_suffix hsuffix hlast) doc ?_
        rw [openDocument?, hafter]
        exact hopen
      · exact hend body count count

variable {s next : Scanner}

/-- **A step** takes the same construct off the text. -/
theorem step_lineEnd {c : Char} {rest : List Char} (h : s.step c rest = .ok next)
    (hplain : EndsPlain (c :: rest))
    (hdocs : c = '\n' → (c :: rest).getLast? = some '\n' →
      ∀ doc, openDocument? s.pending rest = some doc → doc.delimiter = []) :
    ∃ next', s.withLineEnd.step c (rest ++ ['\n']) = .ok next' ∧ LineEndLeft next next' := by
  by_cases hc : c = '\n'
  · subst hc
    rw [step_newline] at h
    cases h
    exact ⟨_, rfl, readBodies_lineEnd fun hend => hdocs rfl hend⟩
  · exact ⟨_, step_followedBy hc h hplain, .inl rfl⟩

/-- **No here-document waits for a line** when the text ends with one: each one has its last line.
A document whose last line is the empty one may wait for it. -/
def DocumentsEnd (s : Scanner) : Prop :=
  ∀ t rest, s.Reaches t → t.rest = '\n' :: rest → t.rest.getLast? = some '\n' →
    ∀ doc, openDocument? t.pending rest = some doc → doc.delimiter = []

/-- A text that ends otherwise than with a line end leaves no here-document waiting. -/
theorem documentsEnd_of_last {s : Scanner} (h : s.rest.getLast? ≠ some '\n') : s.DocumentsEnd :=
  fun _ _ hreaches _ hlast => absurd (getLast?_of_suffix hreaches.suffix hlast) h

/-- **A run** takes the same constructs off the text, and at most a line end after them. -/
theorem run_lineEnd {s t : Scanner} (h : s.run = .ok t) (hplain : EndsPlain s.rest)
    (hdocs : s.DocumentsEnd) :
    ∃ t' count, s.withLineEnd.run = .ok t' ∧ t'.bodies = List.replicate count "" ++ t.bodies ∧
      (t'.tokens = t.tokens ∨ t'.tokens = ⟨.newline, "\n", t.line, none, none⟩ :: t.tokens) := by
  fun_induction run s with
  | case1 s hs =>
    obtain rfl : s = t := Except.ok.inj h
    have hrest : s.withLineEnd.rest = ['\n'] := by rw [withLineEnd, followedBy, hs, List.nil_append]
    rw [run_of_step hrest (step_newline _ _), readBodies_of_rest_eq_nil rfl, run_of_nil rfl]
    exact ⟨_, _, rfl, rfl, .inr rfl⟩
  | case2 => cases h
  | case3 s c rest hs next hstep _ ih =>
    obtain ⟨text, happend, -⟩ := step_takes hs hstep
    obtain ⟨next', hstep', hleft⟩ := step_lineEnd hstep (hs ▸ hplain) fun hc hend doc hopen => by
      subst hc
      exact hdocs s rest (.refl s) hs (hs ▸ hend) doc hopen
    have hrest : s.withLineEnd.rest = c :: (rest ++ ['\n']) := by
      rw [withLineEnd, followedBy, hs, List.cons_append]
    rw [run_of_step hrest hstep']
    rcases hleft with rfl | ⟨hend, hend', htokens, hbodies⟩
    · exact ih h (hplain.suffix ⟨text, happend⟩) fun t after hreaches =>
        hdocs t after (.step hs hstep hreaches)
    · rw [run_of_nil hend] at h
      cases h
      rw [run_of_nil hend']
      exact ⟨next', 0, rfl, hbodies, .inl htokens⟩

/-- The here-documents of the tokens have no bodies yet. -/
def Unattached (tokens : List Token) : Prop :=
  ∀ t ∈ tokens, ∀ doc ∈ t.hereDocument, doc.body = ""

theorem Unattached.cons {t : Token} {tokens : List Token}
    (ht : ∀ doc ∈ t.hereDocument, doc.body = "") (h : Unattached tokens) :
    Unattached (t :: tokens) :=
  List.forall_mem_cons.2 ⟨ht, h⟩

theorem unattached_noteDelimiter {s : Scanner} (h : Unattached s.tokens) (word : List Char) :
    Unattached (s.noteDelimiter word).tokens := by
  unfold noteDelimiter
  split
  · next htokens =>
    split
    · rw [htokens] at h
      refine .cons ?_ (List.forall_mem_cons.1 h).2
      rintro doc ⟨⟩
      rfl
    · exact h
  · exact h

theorem unattached_takes {s next : Scanner} {text : List Char} (h : s.Takes text next)
    (hs : Unattached s.tokens) : Unattached next.tokens := by
  cases h with
  | blank | joint | comment => exact hs
  | lineEnd hnext =>
    subst hnext
    rw [readBodies_tokens]
    exact .cons nofun hs
  | arithmetic | operator => exact .cons nofun hs
  | word => exact .cons nofun (unattached_noteDelimiter hs _)

theorem unattached_run {s t : Scanner} (h : s.run = .ok t) (hs : Unattached s.tokens) :
    Unattached t.tokens := by
  fun_induction run s with
  | case1 => cases h; exact hs
  | case2 => cases h
  | case3 s c rest hrest next hstep _ ih =>
    obtain ⟨text, -, htakes⟩ := step_takes hrest hstep
    exact ih h (unattached_takes htakes hs)

end Scanner

/-! ## All tokens -/

/-- Bodies without lines change nothing, and a token after the others stays after them. -/
theorem attachBodies_lineEnd {last : List Token} (hlast : ∀ t ∈ last, t.hereDocument = none)
    (count : Nat) (done : List Token) (bodies : List String) {tokens : List Token}
    (htokens : Scanner.Unattached tokens) :
    attachBodies done (bodies ++ List.replicate count "") (tokens ++ last) =
      attachBodies done bodies tokens ++ last := by
  have hpass (done bodies) : attachBodies done bodies last = done.reverse ++ last := by
    induction last generalizing done with
    | nil => rw [attachBodies, List.append_nil]
    | cons t last ih =>
      obtain ⟨ht, hlast⟩ := List.forall_mem_cons.1 hlast
      rw [attachBodies, ih hlast]
      · simp
      · simp [ht]
  induction tokens generalizing count done bodies with
  | nil => rw [List.nil_append, hpass, attachBodies]
  | cons t tokens ih =>
    obtain ⟨ht, hrest⟩ := List.forall_mem_cons.1 htokens
    obtain ⟨kind, text, line, descriptor, - | doc⟩ := t
    · rw [List.cons_append, attachBodies.eq_def, attachBodies.eq_def done bodies]
      exact ih count _ bodies hrest
    · rw [List.cons_append, attachBodies.eq_def, attachBodies.eq_def done bodies]
      rcases bodies with - | ⟨body, bodies⟩
      · cases count with
        | zero => exact ih 0 _ [] hrest
        | succ count =>
          -- The next body is one of those without lines, and the document has none as yet.
          obtain ⟨delimiter, quoted, stripTabs, body⟩ := doc
          obtain rfl : body = "" := ht _ rfl
          exact ih count _ [] hrest
      · exact ih count _ bodies hrest

/-- **A line end after a text** is a token after the others, at most. -/
theorem TokenStream.ofText_lineEnd {text : String} {stream : TokenStream}
    (h : ofText text = .ok stream) (hplain : EndsPlain text.toList)
    (hdocs : (Scanner.start text).DocumentsEnd) :
    ∃ stream' tail, ofText (text ++ "\n") = .ok stream' ∧ Reader.LineEnds tail ∧
      tail.length ≤ 1 ∧ stream'.tokens = stream.tokens ++ tail := by
  unfold ofText at h ⊢
  split at h
  · cases h
  · next t hrun =>
    cases h
    obtain ⟨t', count, hrun', hbodies, htokens⟩ := Scanner.run_lineEnd hrun hplain hdocs
    have hstart : Scanner.start (text ++ "\n") = (Scanner.start text).withLineEnd := by
      rw [Scanner.start, String.toList_append]
      rfl
    have hrun'' : Scanner.run ⟨(text ++ "\n").toList, 1, [], [], []⟩ = .ok t' :=
      (congrArg Scanner.run hstart).trans hrun'
    rw [hrun'']
    have hattached : Scanner.Unattached t.tokens.reverse := fun x hx =>
      Scanner.unattached_run hrun (List.forall_mem_nil _) x (List.mem_reverse.1 hx)
    have hattach (last : List Token) (hlast : ∀ x ∈ last, x.hereDocument = none) :=
      attachBodies_lineEnd hlast count [] t.bodies.reverse hattached
    rcases htokens with htokens | htokens
    · refine ⟨_, [], rfl, List.forall_mem_nil _, Nat.zero_le _, ?_⟩
      rw [htokens, hbodies, List.reverse_append, List.reverse_replicate]
      simpa using hattach [] (List.forall_mem_nil _)
    · refine ⟨_, [⟨.newline, "\n", t.line, none, none⟩], rfl, by simp [Reader.LineEnds],
        Nat.le_refl _, ?_⟩
      rw [htokens, hbodies, List.reverse_append, List.reverse_replicate, List.reverse_cons]
      exact hattach _ (by simp)

end VirtualShell
