import VirtualShell.Proofs.Condition.Layout

/-!
# The grammar of conditions

A written condition has its own words in each form, and its own tree. The words are read as that
tree when no operand is spelled like something else and regular expressions stand between brackets.
And nothing but the words of a written condition is read at all.

* `Layout.texts`, `Layout.tree` — the words and the tree of a written condition.
* `Layout.reads_texts` — its words are read as its tree, whatever can follow them.
* `Written` — words that are those of a written condition, with others behind it.
* `written_readOr` — what is read was written.
* **`Layout.parse_texts`** — the parser and the grammar agree.
-/

namespace VirtualShell.Condition

/-- A word that is no pattern. -/
def Operand.ofText (text : String) : Operand := ⟨text, none⟩

theorem Operand.eq_ofText {w : Operand} (h : w.pattern = none) : w = .ofText w.text := by
  cases w
  cases h
  rfl

namespace Layout

variable {form : Form} {t : Tier}

/-- **Its words** in a form. -/
def texts (form : Form) : {t : Tier} → Layout String t → List String
  | _, text operand => [operand]
  | _, unary op operand => [op.spelling, operand]
  | _, binary left op right => [left, op.spelling, right]
  | _, not e => "!" :: e.texts form
  | _, group e => "(" :: (e.texts form ++ [")"])
  | _, test e => e.texts form
  | _, and left right => left.texts form ++ form.and :: right.texts form
  | _, conjunction e => e.texts form
  | _, or left right => left.texts form ++ form.or :: right.texts form

/-- **Its tree.** No operand is a pattern. -/
def tree : {t : Tier} → Layout String t → Expr
  | _, text operand => .text operand
  | _, unary op operand => .unary op operand
  | _, binary left op right => .binary op left right none
  | _, not e => .not e.tree
  | _, group e => .group e.tree
  | _, test e => e.tree
  | _, and left right => .and left.tree right.tree
  | _, conjunction e => e.tree
  | _, or left right => .or left.tree right.tree

/-- Its operands. -/
def strings : {t : Tier} → Layout String t → List String
  | _, text operand => [operand]
  | _, unary _ operand => [operand]
  | _, binary left _ right => [left, right]
  | _, not e | _, group e | _, test e | _, conjunction e => e.strings
  | _, and left right | _, or left right => left.strings ++ right.strings

/-- It asks for a regular expression. -/
def hasRegex : {t : Tier} → Layout String t → Bool
  | _, text _ | _, unary _ _ => false
  | _, binary _ op _ => op == .regex
  | _, not e | _, group e | _, test e | _, conjunction e => e.hasRegex
  | _, and left right | _, or left right => left.hasRegex || right.hasRegex

theorem texts_ne_nil (form : Form) (e : Layout String t) : e.texts form ≠ [] := by
  induction e with
  | text | unary | binary | not | group => simp [texts]
  | test _ ih | conjunction _ ih => exact ih
  | and | or => simp [texts]

theorem map_texts_ne_nil (form : Form) (e : Layout String t) :
    (e.texts form).map Operand.ofText ≠ [] :=
  fun h => e.texts_ne_nil form (List.map_eq_nil_iff.1 h)

/-! ## Conditions are read as they are written -/

theorem ofSpelling?_unary_of_isSyntax {s : String} (h : form.isSyntax s = false) :
    UnaryOp.ofSpelling? s = none := by
  simp only [Form.isSyntax, Bool.or_eq_false_iff, Option.isSome_eq_false_iff,
    Option.isNone_iff_eq_none] at h
  exact h.1.2

theorem ofSpelling?_binary_of_isSyntax {s : String} (h : form.isSyntax s = false) :
    BinaryOp.ofSpelling? s = none := by
  simp only [Form.isSyntax, Bool.or_eq_false_iff, Option.isSome_eq_false_iff,
    Option.isNone_iff_eq_none] at h
  exact h.2

theorem ne_of_isSyntax {s word : String} (h : form.isSyntax s = false)
    (hword : form.isSyntax word = true) : s ≠ word := by
  rintro rfl
  rw [h] at hword
  cases hword

theorem UnaryOp.not_binary (op : UnaryOp) : BinaryOp.ofSpelling? op.spelling = none := by
  cases op <;> rfl

/-- A condition does not start with an operator between operands. -/
theorem head?_texts {e : Layout String t} (h : ∀ s ∈ e.strings, form.isSyntax s = false) :
    ∀ first ∈ (e.texts form).head?, BinaryOp.ofSpelling? first = none := by
  induction e with
  | text operand =>
    rintro first ⟨⟩
    exact ofSpelling?_binary_of_isSyntax (h _ (by simp [strings]))
  | unary op operand =>
    rintro first ⟨⟩
    exact UnaryOp.not_binary op
  | binary left op right =>
    rintro first ⟨⟩
    exact ofSpelling?_binary_of_isSyntax (h _ (by simp [strings]))
  | not | group =>
    rintro first ⟨⟩
    rfl
  | test e ih | conjunction e ih => exact ih h
  | and left right ih | or left right ih =>
    rw [texts, List.head?_append_of_ne_nil _ (left.texts_ne_nil form)]
    exact ih fun s hs => h s (List.mem_append_left _ hs)

theorem head?_map_texts {e : Layout String t} (h : ∀ s ∈ e.strings, form.isSyntax s = false) :
    ∀ first ∈ ((e.texts form).map Operand.ofText).head?,
      BinaryOp.ofSpelling? first.text = none := by
  rw [List.head?_map]
  intro first hfirst
  obtain ⟨text, htext, rfl⟩ := Option.map_eq_some_iff.1 hfirst
  exact head?_texts h text htext

/-- **A written condition is read as its tree**, whatever can follow it. -/
theorem reads_texts (e : Layout String t) {rest : List Operand}
    (h : ∀ s ∈ e.strings, form.isSyntax s = false) (hregex : e.hasRegex = true → form = .brackets)
    (hrest : t.EndsBefore form rest) :
    Reads form e.tree ((e.texts form).map .ofText) rest t := by
  induction e generalizing rest with
  | text operand =>
    have hoperand := h operand (by simp [strings])
    exact .text (.ofText operand) (.inl (ofSpelling?_unary_of_isSyntax hoperand))
      (fun _ => ⟨ne_of_isSyntax hoperand (by simp [Form.isSyntax]),
        ne_of_isSyntax hoperand (by simp [Form.isSyntax])⟩) hrest
  | unary op operand =>
    exact .unary (.ofText op.spelling) (.ofText operand) op.ofSpelling?_spelling
      fun _ => ofSpelling?_binary_of_isSyntax (h operand (by simp [strings]))
  | binary left op right =>
    have hbang : left ≠ "!" :=
      ne_of_isSyntax (h left (by simp [strings])) (by simp [Form.isSyntax])
    have hreads : Reads form _ _ rest .test :=
      .binary (.ofText left) (.ofText op.spelling) (.ofText right) op.ofSpelling?_spelling
        (fun hop => hregex (by simp [hasRegex, hop])) fun _ => hbang
    simpa [Operand.ofText, texts, tree] using hreads
  | not e ih =>
    exact .not rfl (e.map_texts_ne_nil form) (fun _ => head?_map_texts h) (ih h hregex hrest)
  | group e ih =>
    have hclosed : Tier.or.EndsBefore form (.ofText ")" :: rest) := by
      rintro w ⟨⟩
      cases form <;> decide
    have hreads := Reads.group (.ofText "(") rfl rfl (e.map_texts_ne_nil form)
      (head?_map_texts h) (ih h hregex hclosed)
    simpa [texts, tree] using hreads
  | test e ih => exact (ih h hregex hrest).test
  | and left right ihl ihr =>
    have hjoined : Tier.and.EndsBefore form
        (.ofText form.and :: ((right.texts form).map .ofText ++ rest)) := by
      rintro w ⟨⟩
      cases form <;> decide
    have hreads := Reads.and rfl
      (ihl (fun s hs => h s (List.mem_append_left _ hs))
        (fun hl => hregex (by simp [hasRegex, hl])) hjoined)
      (ihr (fun s hs => h s (List.mem_append_right _ hs))
        (fun hr => hregex (by simp [hasRegex, hr])) hrest)
    simpa [texts, tree] using hreads
  | conjunction e ih => exact (ih h hregex hrest.tighten).conjunction hrest
  | or left right ihl ihr =>
    have hjoined : Tier.or.EndsBefore form
        (.ofText form.or :: ((right.texts form).map .ofText ++ rest)) := by
      rintro w ⟨⟩
      cases form <;> decide
    have hreads := Reads.or rfl
      (ihl (fun s hs => h s (List.mem_append_left _ hs))
        (fun hl => hregex (by simp [hasRegex, hl])) hjoined)
      (ihr (fun s hs => h s (List.mem_append_right _ hs))
        (fun hr => hregex (by simp [hasRegex, hr])) hrest.tighten) hrest
    simpa [texts, tree] using hreads

end Layout

/-! ## Nothing else is read -/

theorem UnaryOp.spelling_of_ofSpelling? {s : String} {op : UnaryOp} (h : ofSpelling? s = some op) :
    op.spelling = s := by
  simpa using List.find?_some h

theorem BinaryOp.spelling_of_ofSpelling? {s : String} {op : BinaryOp}
    (h : ofSpelling? s = some op) : op.spelling = s := by
  simpa using List.find?_some h

/-- Words of which none is a pattern. -/
def ArePlain (words : List Operand) : Prop := ∀ w ∈ words, w.pattern = none

/-- **Words that are those of a written condition**, with others behind it. -/
def Written (form : Form) (t : Tier) (words : List Operand) (e : Expr) (rest : List Operand) :
    Prop :=
  ∃ layout : Layout String t, layout.tree = e ∧
    (layout.texts form).map .ofText ++ rest = words

section

variable {form : Form} {words rest : List Operand} {e : Expr}

theorem ArePlain.tail {first : Operand} (h : ArePlain (first :: words)) : ArePlain words :=
  fun w hw => h w (List.mem_cons_of_mem _ hw)

theorem ArePlain.head {first : Operand} (h : ArePlain (first :: words)) :
    first = .ofText first.text :=
  Operand.eq_ofText (h first (by simp))

theorem Written.arePlain {t : Tier} (h : Written form t words e rest) (hwords : ArePlain words) :
    ArePlain rest := by
  obtain ⟨layout, -, rfl⟩ := h
  exact fun w hw => hwords w (List.mem_append_right _ hw)

theorem written_readSimple {first : Operand} {hlt : rest.length < (first :: words).length}
    (hwords : ArePlain (first :: words))
    (h : readSimple form first words = .ok (e, ⟨rest, hlt⟩)) :
    Written form .test (first :: words) e rest := by
  have hfirst := hwords.head
  have htext : Written form .test (first :: words) (.text first.text) words := by
    refine ⟨.text first.text, rfl, ?_⟩
    rw [hfirst]
    rfl
  rw [readSimple.eq_def] at h
  cases hop : UnaryOp.ofSpelling? first.text with
  | none =>
    rw [hop] at h
    cases h
    exact htext
  | some op =>
    rw [hop] at h
    cases words with
    | nil =>
      cases form with
      | brackets => cases h
      | command =>
        cases h
        exact htext
    | cons operand later =>
      cases h
      refine ⟨.unary op operand.text, rfl, ?_⟩
      rw [hfirst, hwords.tail.head, ← UnaryOp.spelling_of_ofSpelling? hop]
      rfl

variable (form) in
/-- What is read of words that are fewer than some number was written. -/
def FewerWritten (n : Nat) : Prop :=
  ∀ (words : List Operand) (e : Expr) (rest : List Operand) (hlt : rest.length < words.length),
    words.length < n → ArePlain words → readOr form words = .ok (e, ⟨rest, hlt⟩) →
      Written form .or words e rest

theorem FewerWritten.mono {n m : Nat} (h : FewerWritten form n) (hle : m ≤ n) :
    FewerWritten form m :=
  fun words e rest hlt hfewer => h words e rest hlt (Nat.lt_of_lt_of_le hfewer hle)

theorem binary?_eq_some {left right : Operand} {op : BinaryOp} {after : Rest words}
    (h : binary? words = some (left, op, right, after)) :
    ∃ middle, words = left :: middle :: right :: after.1 ∧ middle.text = op.spelling := by
  unfold binary? at h
  split at h
  · next left' middle right' after' =>
    obtain ⟨found, hop, heq⟩ := Option.map_eq_some_iff.1 h
    cases heq
    exact ⟨middle, rfl, (BinaryOp.spelling_of_ofSpelling? hop).symm⟩
  · cases h

theorem written_readTest {hlt : rest.length < words.length} (hwords : ArePlain words)
    (ih : FewerWritten form words.length) (h : readTest form words = .ok (e, ⟨rest, hlt⟩)) :
    Written form .test words e rest := by
  rw [readTest.eq_def] at h
  split at h
  · cases h
  next first later =>
  split at h
  · next left op right after hbinary =>
    dsimp only at h
    split at h
    · cases h
    · cases h
      obtain ⟨middle, heq, hmiddle⟩ := binary?_eq_some hbinary
      rw [heq] at hwords ⊢
      have hpattern : right.pattern = none := hwords right (by simp)
      refine ⟨.binary left.text op right.text, ?_, ?_⟩
      · rw [hpattern, ite_self]
        rfl
      · rw [hwords.head, hwords.tail.head, hwords.tail.tail.head, hmiddle]
        rfl
  · split at h
    · cases h
    split at h
    · next hopen =>
      split at h
      · cases h
      · next inner close rest' hrest hread =>
        split at h
        · next hclose =>
          cases h
          have hinner := ih later inner (close :: rest) hrest (Nat.lt_succ_self _) hwords.tail hread
          have hclosing := (hinner.arePlain hwords.tail).head
          obtain ⟨layout, rfl, heq⟩ := hinner
          have hopening : first.text = "(" := by
            obtain ⟨hfirst, -⟩ := Bool.and_eq_true_iff.1 hopen
            exact of_decide_eq_true hfirst
          refine ⟨.group layout, rfl, ?_⟩
          rw [hwords.head, hopening, ← heq, hclosing, hclose]
          simp [Layout.texts]
        · cases h
      · cases h
    · exact written_readSimple hwords h

theorem written_readNot {hlt : rest.length < words.length} (hwords : ArePlain words)
    (ih : FewerWritten form words.length) (h : readNot form words = .ok (e, ⟨rest, hlt⟩)) :
    Written form .test words e rest := by
  induction words generalizing e with
  | nil => exact absurd hlt (Nat.not_lt_zero _)
  | cons first later hnot =>
    cases later with
    | nil =>
      rw [readNot_eq_readTest fun _ => .inl rfl] at h
      exact written_readTest hwords ih h
    | cons next later =>
      rw [readNot] at h
      split at h
      · next hbang =>
        split at h
        · cases h
        · next inner after hafter hread =>
          cases h
          obtain ⟨layout, rfl, heq⟩ := hnot hwords.tail (ih.mono (Nat.le_succ _)) hread
          have hfirst : first.text = "!" := by
            obtain ⟨hfirst, -⟩ := Bool.and_eq_true_iff.1 hbang
            exact of_decide_eq_true hfirst
          refine ⟨.not layout, rfl, ?_⟩
          rw [hwords.head, hfirst, ← heq]
          rfl
      · exact written_readTest hwords ih h

/-- A loop over what is joined goes on with a written condition. -/
theorem written_join {t t' : Tier} {word : String} {join : Expr → Expr → Expr}
    {read : (words : List Operand) → Reading words}
    {go : {start : List Operand} → Expr → Rest start → Reading start}
    (hgo : ∀ {start : List Operand} (left : Expr) (words : Rest start),
      go left words = joinTurn word join read go left words)
    (joined : Layout String t → Layout String t' → Layout String t)
    (htree : ∀ left right, (joined left right).tree = join left.tree right.tree)
    (htexts : ∀ left right,
      (joined left right).texts form = left.texts form ++ word :: right.texts form)
    (hread : ∀ {words : List Operand} {e : Expr} {rest : List Operand}
      {hlt : rest.length < words.length}, ArePlain words → FewerWritten form words.length →
        read words = .ok (e, ⟨rest, hlt⟩) → Written form t' words e rest)
    {all start : List Operand} {left : Expr} (hleft : Written form t all left words)
    {hshort : words.length < start.length} {hlt : rest.length < start.length}
    (hwords : ArePlain words) (ih : FewerWritten form words.length)
    (h : go left (⟨words, hshort⟩ : Rest start) = .ok (e, ⟨rest, hlt⟩)) :
    Written form t all e rest := by
  induction hn : words.length using Nat.strongRecOn generalizing words left with
  | ind n loop =>
    subst hn
    rw [hgo] at h
    rcases words with _ | ⟨op, _ | ⟨next, later⟩⟩
    · cases h
      exact hleft
    · cases h
      exact hleft
    · rw [joinTurn] at h
      split at h
      · next hop =>
        split at h
        · cases h
        · next right after hafter hright =>
          have hfound := hread hwords.tail (ih.mono (Nat.le_succ _)) hright
          have hfewer : after.length < (op :: next :: later).length := Nat.lt_succ_of_lt hafter
          refine loop after.length hfewer ?_ (hfound.arePlain hwords.tail)
            (ih.mono (Nat.le_of_lt hfewer)) h rfl
          obtain ⟨layout, rfl, heq⟩ := hleft
          obtain ⟨layout', rfl, heq'⟩ := hfound
          refine ⟨joined layout layout', htree _ _, ?_⟩
          rw [← heq, hwords.head, hop, ← heq', htexts]
          simp
      · cases h
        exact hleft

theorem written_readAnd {hlt : rest.length < words.length} (hwords : ArePlain words)
    (ih : FewerWritten form words.length) (h : readAnd form words = .ok (e, ⟨rest, hlt⟩)) :
    Written form .and words e rest := by
  rw [readAnd] at h
  split at h
  · cases h
  · next left after hafter hread =>
    have hleft := written_readNot hwords ih hread
    refine written_join readAndFrom_eq_joinTurn .and (fun _ _ => rfl) (fun _ _ => rfl)
      written_readNot ?_ (hleft.arePlain hwords) (ih.mono (Nat.le_of_lt hafter)) h
    obtain ⟨layout, htree, htexts⟩ := hleft
    exact ⟨.test layout, htree, htexts⟩

/-- **What is read was written.** -/
theorem written_readOr {hlt : rest.length < words.length} (hwords : ArePlain words)
    (h : readOr form words = .ok (e, ⟨rest, hlt⟩)) : Written form .or words e rest := by
  induction hn : words.length using Nat.strongRecOn generalizing words e rest with
  | ind n loop =>
    have ih : FewerWritten form words.length := fun later e rest hlt hfewer hlater hread =>
      loop later.length (hn ▸ hfewer) hlater hread rfl
    rw [readOr] at h
    split at h
    · cases h
    · next left after hafter hread =>
      have hleft := written_readAnd hwords ih hread
      refine written_join readOrFrom_eq_joinTurn .or (fun _ _ => rfl) (fun _ _ => rfl)
        written_readAnd ?_ (hleft.arePlain hwords) (ih.mono (Nat.le_of_lt hafter)) h
      obtain ⟨layout, htree, htexts⟩ := hleft
      exact ⟨.conjunction layout, htree, htexts⟩

end

namespace Layout

/-- **The grammar.** A written condition whose operands are no syntax is read as its tree, in both
forms; only regular expressions have to stand between brackets. And whatever is read is the tree of
a condition that is written with these words. -/
theorem parse_texts (form : Form) :
    (∀ e : Layout String .or, (∀ s ∈ e.strings, form.isSyntax s = false) →
      (e.hasRegex = true → form = .brackets) →
        Expr.parse form ((e.texts form).map .ofText) = .ok e.tree) ∧
      ∀ (words : List String) (tree : Expr), Expr.parse form (words.map .ofText) = .ok tree →
        ∃ e : Layout String .or, e.tree = tree ∧ e.texts form = words := by
  constructor
  · intro e hplain hregex
    have hreads : Reads form e.tree ((e.texts form).map .ofText) [] .or :=
      e.reads_texts hplain hregex nofun
    exact hreads.parse (e.map_texts_ne_nil form)
  · intro words tree hparse
    have hwords : ArePlain (words.map .ofText) := by
      intro w hw
      obtain ⟨text, -, rfl⟩ := List.mem_map.1 hw
      rfl
    unfold Expr.parse at hparse
    split at hparse
    · cases hparse
    · split at hparse
      · cases hparse
      · next hread =>
        cases hparse
        obtain ⟨layout, htree, htexts⟩ := written_readOr hwords hread
        refine ⟨layout, htree, ?_⟩
        rw [List.append_nil] at htexts
        exact List.map_injective_iff.2 (fun a b hab => congrArg Operand.text hab) htexts
      · cases hparse

/-- `! ( -a f -o x = y ) -a z -o -n w` -/
def mixed : Layout String .or :=
  .or (.conjunction (.and (.test (.not (.group (.or
    (.conjunction (.test (.unary .existsOld "f"))) (.test (.binary "x" .equal "y"))))))
    (.text "z"))) (.test (.unary .isNotEmpty "w"))

/-- The word that joins is also a test of one operand. -/
theorem parse_texts_mixed :
    (∀ s ∈ mixed.strings, Form.command.isSyntax s = false) ∧
      (mixed.hasRegex = true → Form.command = .brackets) ∧
      Expr.parse .command (["!", "(", "-a", "f", "-o", "x", "=", "y", ")", "-a", "z", "-o", "-n",
        "w"].map .ofText) =
        .ok (.or (.and (.not (.group (.or (.unary .existsOld "f") (.binary .equal "x" "y" none))))
          (.text "z")) (.unary .isNotEmpty "w")) ∧
      ∃ e : Layout String .or, e.tree = mixed.tree ∧ e.texts .command = mixed.texts .command := by
  have hparse := (parse_texts .command).1 mixed (by decide) nofun
  exact ⟨by decide, nofun, hparse, (parse_texts .command).2 _ _ hparse⟩

/-- The arguments of a command ask for no regular expression. -/
theorem parse_texts_regex : ¬ ∀ (form : Form) (e : Layout String .or),
    (∀ s ∈ e.strings, form.isSyntax s = false) →
      Expr.parse form ((e.texts form).map .ofText) = .ok e.tree := by
  intro h
  have hread := h .command (.conjunction (.test (.binary "x" .regex "y"))) (by decide)
  have hrefused : Expr.parse .command (["x", "=~", "y"].map .ofText) =
      .error (.binaryExpected .regex) := by
    have hleft : ("x" : String) ≠ "!" := by decide
    rw [Expr.parse, List.map_cons, readOr, readAnd, readNot_eq_readTest (absurd · hleft),
      readTest.eq_def]
    rfl
  cases hrefused.symm.trans hread

end Layout

end VirtualShell.Condition
