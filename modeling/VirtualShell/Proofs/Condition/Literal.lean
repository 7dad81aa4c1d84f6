import VirtualShell.Proofs.Reading.SourceCommand
import VirtualShell.Regex.Matcher

/-!
# Texts as regular expressions

A regular expression in which no character means anything but itself is read as its characters, one
item for each. It is found in a text exactly when it stands there.

* `Regex.compile_literal` — the items of such a regular expression.
* `Regex.runAll_literal` — they take their own text and nothing else.
* **`Regex.isSome_search?_literal`** — where the regular expression is found.
-/

namespace VirtualShell.Regex

open Reader

/-- The characters that mean something in a regular expression, outside of sets. -/
def metacharacters : List Char := ['.', '^', '$', '*', '+', '?', '\x7b', '[', '\\', '|', '(', ')']

/-- The items that a text without such characters is. -/
def literalItems (text : List Char) : List Tree := text.map fun c => .char c.toNat false

theorem unpack_literalItems (text : List Char) : unpack (literalItems text) = literalItems text := by
  induction text with
  | nil => rfl
  | cons c text ih =>
    simp only [unpack, literalItems, List.map_cons, List.flatMap_cons] at ih ⊢
    rw [ih]
    rfl

/-! ## Reading the text -/

theorem tokensFrom_cons {c : Char} (hc : c ≠ '\\') (position : Nat) (text : List Char) :
    tokensFrom position (c :: text) = ⟨[c], position⟩ :: tokensFrom (position + 1) text := by
  rw [tokensFrom]
  exact fun _ _ heq => absurd heq hc

/-- No backslash at the end is next, unless it is all there is. -/
theorem head?_tokensFrom {text : List Char} (h : text ≠ ['\\']) (position : Nat) :
    (tokensFrom position text).head?.map (·.text) ≠ some ['\\'] := by
  cases text with
  | nil => simp [tokensFrom]
  | cons c text =>
    by_cases hc : c = '\\'
    · subst hc
      cases text with
      | nil => exact absurd rfl h
      | cons d text => simp [tokensFrom]
    · rw [tokensFrom_cons hc]
      simpa using hc

theorem ne_backslash {text : List Char} (h : ∀ c ∈ text, c ∉ metacharacters) : text ≠ ['\\'] := by
  rintro rfl
  exact h '\\' List.mem_cons_self (by decide)

theorem outcome_scan_bind {α β : Type} {x : Scan α} {f : α → Scan β} {progress progress' : Progress}
    {tokens rest : List Token} {a : α}
    (h : (x progress).outcome tokens = .ok ((a, progress'), rest)) :
    ((x >>= f) progress).outcome tokens = (f a progress').outcome rest := by
  change outcome (x progress >>= fun found => f found.1 found.2) tokens = _
  rw [outcome_bind_ok h]

theorem outcome_scan_bind_error {α β : Type} {x : Scan α} {f : α → Scan β} {progress : Progress}
    {tokens : List Token} {e : Error} (h : (x progress).outcome tokens = .error e) :
    ((x >>= f) progress).outcome tokens = .error e := by
  change outcome (x progress >>= fun found => f found.1 found.2) tokens = _
  rw [outcome_bind, h]
  rfl

namespace Pattern

variable (p : Pattern) (inside : Inside) (first : Bool) (progress : Progress)

theorem outcome_next (tokens : List Token) :
    (p.next progress).outcome tokens = .ok ((tokens.head?.map (·.text), progress), tokens) := by
  cases tokens <;> rfl

theorem outcome_checkNext {tokens : List Token} (h : tokens.head?.map (·.text) ≠ some ['\\']) :
    (p.checkNext progress).outcome tokens = .ok (((), progress), tokens) := by
  refine (outcome_scan_bind (p.outcome_next progress tokens)).trans ?_
  rw [if_neg (by simpa using h)]
  rfl

/-- A turn of a loop over tokens. -/
theorem outcome_loop_turn {σ : Type} {step : σ → Token → Option (Scan σ)} {s s' : σ} {t : Token}
    {turn : Scan σ} {progress' : Progress} {tokens rest : List Token}
    (hstep : step s t = some turn) (hnext : tokens.head?.map (·.text) ≠ some ['\\'])
    (hturn : (turn progress).outcome tokens = .ok ((s', progress'), rest)) :
    (p.loop s step progress).outcome (t :: tokens) =
      (p.loop s' step progress').outcome rest := by
  have hread : ((do p.checkNext; turn : Scan σ) progress).outcome tokens =
      .ok ((s', progress'), rest) :=
    (outcome_scan_bind (p.outcome_checkNext progress hnext)).trans hturn
  exact outcome_repeatFrom_turn (by simp only [hstep, Option.map_some]) hread

/-- A character that means nothing is an item. -/
theorem item_literal {c : Char} (hc : c ∉ metacharacters) (verbose : Bool) (place : Nat)
    (items : List Tree) :
    p.item inside verbose first place items c = pure (.char c.toNat false :: items, verbose) := by
  unfold item
  split <;> first | rfl | exact absurd (by decide) hc

theorem itemTurn_literal {c : Char} (hc : c ∉ metacharacters) (items : List Tree)
    (position : Nat) : p.itemTurn inside first (items, false) ⟨[c], position⟩ =
      some (pure (.char c.toNat false :: items, false)) := by
  have hne {x : Char} (hx : x ∈ metacharacters) : c ≠ x := by rintro rfl; exact hc hx
  have hbar : c ≠ '|' := hne (by decide)
  have hparen : c ≠ ')' := hne (by decide)
  unfold itemTurn
  dsimp only
  rw [if_neg (by simp [hbar, hparen]), if_neg (by exact Bool.false_ne_true),
    if_neg (by exact Bool.false_ne_true), p.item_literal inside first hc]

/-- A loop over items takes such characters one after the other. -/
theorem outcome_loop_literal {text : List Char} (h : ∀ c ∈ text, c ∉ metacharacters)
    (items : List Tree) (position : Nat) :
    (p.loop (items, false) (p.itemTurn inside first) progress).outcome (tokensFrom position text) =
      .ok ((((literalItems text).reverse ++ items, false), progress), []) := by
  induction text generalizing items position with
  | nil => exact outcome_repeatFrom_nil _ _
  | cons c text ih =>
    obtain ⟨hc, htext⟩ := List.forall_mem_cons.1 h
    have hescape : c ≠ '\\' := by rintro rfl; exact hc (by decide)
    rw [tokensFrom_cons hescape]
    refine (p.outcome_loop_turn progress (p.itemTurn_literal inside first hc items position)
      (head?_tokensFrom (ne_backslash htext) _) rfl).trans ((ih htext _ _).trans ?_)
    simp [literalItems]

/-- **A text without such characters** is read as its characters. -/
theorem outcome_items_literal {text : List Char} (h : ∀ c ∈ text, c ∉ metacharacters)
    (position : Nat) :
    (p.items inside first false progress).outcome (tokensFrom position text) =
      .ok ((literalItems text, progress), []) := by
  unfold items
  refine (outcome_scan_bind (p.outcome_loop_literal inside first progress h [] position)).trans ?_
  dsimp only
  rw [List.append_nil, List.reverse_reverse, unpack_literalItems]
  rfl

end Pattern

/-! ## Reading a pattern of one branch -/

theorem compile_eq_outcome (named? : String → Option Char) (flags : Flags) (text : String) :
    compile named? flags text =
      (((Pattern.ofText named? text).whole (.start flags)).outcome (tokensFrom 0 text.toList)).map
        (·.1.1) := by
  unfold compile outcome
  rcases (Pattern.ofText named? text).whole (.start flags) (tokensFrom 0 text.toList) with
    e | ⟨⟨regex, progress⟩, rest⟩ <;> rfl

section

variable {named? : String → Option Char} {flags : Flags} {text : String} {body : List Tree}
  {e : Error}

/-- The items of a whole pattern, up to the first bar. -/
def firstItems (named? : String → Option Char) (flags : Flags) (text : String) :
    Except Error ((List Tree × Progress) × List Token) :=
  ((Pattern.ofText named? text).items ((Pattern.ofText named? text).inside text.length) true false
    (.start flags)).outcome (tokensFrom 0 text.toList)

/-- **A pattern is its items** when these are all there is and none has a flaw. -/
theorem compile_of_items (hend : text.toList ≠ ['\\']) (hflags : flags.ascii = false)
    (hflaw : Tree.flawIn? false body = none)
    (h : firstItems named? flags text = .ok ((body, .start flags), [])) :
    compile named? flags text = .ok ⟨body, flags⟩ := by
  have halternatives : ((Pattern.ofText named? text).alternatives
      ((Pattern.ofText named? text).inside text.length) true false (.start flags)).outcome
        (tokensFrom 0 text.toList) = .ok ((body, .start flags), []) := by
    unfold Pattern.alternatives
    refine (outcome_scan_bind h).trans ?_
    exact outcome_scan_bind (x := Pattern.loop _ _ _) (outcome_repeatFrom_nil _ _)
  have hwhole : ((Pattern.ofText named? text).whole (.start flags)).outcome
      (tokensFrom 0 text.toList) = .ok ((⟨body, flags⟩, .start flags), []) := by
    unfold Pattern.whole
    refine (outcome_scan_bind (Pattern.outcome_checkNext _ _ (head?_tokensFrom hend 0))).trans
      ((outcome_scan_bind halternatives).trans ?_)
    refine (outcome_scan_bind (a := Progress.start flags) rfl).trans ?_
    rw [if_neg (by simp [Progress.start, hflags])]
    refine (outcome_scan_bind (a := none) rfl).trans ?_
    rw [if_neg (by exact Bool.false_ne_true)]
    dsimp only [Progress.start, List.find?_nil]
    rw [hflaw]
    rfl
  rw [compile_eq_outcome, hwhole]
  rfl

/-- What is wrong with the first items of a pattern is wrong with the pattern. -/
theorem compile_of_items_error (hend : text.toList ≠ ['\\'])
    (h : firstItems named? flags text = .error e) : compile named? flags text = .error e := by
  have hwhole : ((Pattern.ofText named? text).whole (.start flags)).outcome
      (tokensFrom 0 text.toList) = .error e := by
    unfold Pattern.whole
    refine (outcome_scan_bind (Pattern.outcome_checkNext _ _ (head?_tokensFrom hend 0))).trans ?_
    refine outcome_scan_bind_error ?_
    unfold Pattern.alternatives
    exact outcome_scan_bind_error h
  rw [compile_eq_outcome, hwhole]
  rfl

end

/-- Such items have no flaw that shows in the end. -/
theorem flawIn?_literalItems (template : Bool) (text : List Char) :
    Tree.flawIn? template (literalItems text) = none := by
  induction text with
  | nil => rfl
  | cons c text ih =>
    change ((Tree.char c.toNat false).flaw? template).or
      (Tree.flawIn? template (literalItems text)) = none
    rw [ih]
    rfl

/-- **A text without such characters** as a regular expression. -/
theorem compile_literal {text : String} (h : ∀ c ∈ text.toList, c ∉ metacharacters)
    (named? : String → Option Char) {flags : Flags} (hflags : flags.ascii = false) :
    compile named? flags text = .ok ⟨literalItems text.toList, flags⟩ :=
  compile_of_items (ne_backslash h) hflags (flawIn?_literalItems _ _)
    (Pattern.outcome_items_literal _ _ _ _ h 0)

/-! ## Matching it -/

theorem matchesChar_exact (flags : Flags) (h : flags.ignoreCase = false) (c d : Char) :
    matchesChar flags c.toNat d.toNat = (d == c) := by
  rw [matchesChar, h]
  rw [Bool.eq_iff_iff]
  simp [Char.toNat_inj]

/-- The place after the characters that stand here. -/
def Place.advance (place : Place) : List Char → Place
  | [] => place
  | c :: text => Place.advance ⟨c :: place.before, place.after.tail, place.position + 1⟩ text

/-- **Such items take their own text** and nothing else. -/
theorem runAll_literal {flags : Flags} (h : flags.ignoreCase = false) (next : Goal)
    (text : List Char) (place : Place) (captures : Captures) :
    Tree.runAll flags (literalItems text) next place captures =
      if text <+: place.after then next (place.advance text) captures else none := by
  induction text generalizing place with
  | nil => simp [literalItems, Tree.runAll, Place.advance]
  | cons c text ih =>
    change goOn (Tree.runAll flags (literalItems text) next) (place.pass fun d =>
      matchesChar flags c.toNat d.toNat != false) captures = _
    obtain ⟨before, after, position⟩ := place
    cases after with
    | nil => simp [Place.pass, goOn]
    | cons d after =>
      simp only [Place.pass, matchesChar_exact flags h, Bool.bne_false, beq_iff_eq]
      by_cases hd : d = c
      · subst hd
        simp [goOn, ih, Place.advance]
      · rw [if_neg hd, if_neg (by simp [Ne.symm hd])]
        rfl

/-- There is a match from a place on exactly when the text stands in what follows. -/
theorem isSome_searchFrom_literal {flags : Flags} (h : flags.ignoreCase = false)
    (text before : List Char) (position : Nat) (after : List Char) :
    ((Regex.mk (literalItems text) flags).searchFrom false before position after).isSome ↔
      text <:+: after := by
  induction after generalizing before position with
  | nil => simp [searchFrom, matchAt, runAll_literal h, apply_ite]
  | cons c after ih =>
    rw [searchFrom, matchAt, runAll_literal h, List.infix_cons_iff]
    by_cases hhere : text <+: c :: after
    · simp [hhere]
    · simpa [hhere] using ih (c :: before) (position + 1)

/-- **A text without characters that mean something** is found where it stands. -/
theorem isSome_search?_literal {text : List Char} {flags : Flags} (h : flags.ignoreCase = false)
    (s : String) :
    ((Regex.mk (literalItems text) flags).search? s).isSome ↔ text <:+: s.toList := by
  rw [search?, Option.isSome_map]
  exact isSome_searchFrom_literal h text [] 0 s.toList

end VirtualShell.Regex
