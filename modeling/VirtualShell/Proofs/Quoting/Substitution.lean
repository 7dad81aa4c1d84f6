import VirtualShell.Proofs.Quoting.Command
import VirtualShell.Proofs.Reading.Balance
import VirtualShell.Proofs.Reading.LineEnd
import VirtualShell.Proofs.Reading.Numeral

/-!
# A script in a substitution

A script can be written into `$(` and `)`, with a line end after it so that its last comment ends
there. Where the substitution ends is found by a scan that knows quotes, backslashes and
parentheses, but no tokens. So this is right for exactly the scripts in which quotes and
parentheses balance character by character; an apostrophe in a comment is enough to break it.

* `Level.partsOf_substitution` — a substitution reaches to where its parenthesis closes.
* **`Word.parse_substitution`** — the scripts that can be written into a substitution.
* `Word.parse_substitution_comment` — one that cannot.
-/

namespace VirtualShell

/-! ## The parts of a substitution -/

namespace Level

variable {l : Level} {quoting : Quoting}

theorem length_le_flush (plain : List Char) (done : List Part) :
    done.length ≤ (flush plain done).length := by
  unfold flush
  split <;> simp

/-- No part is lost. -/
theorem length_le_of_scanParts {done parts : List Part} {plain text : List Char}
    (h : l.scanParts quoting done plain text = .ok parts) :
    (flush plain done).length ≤ parts.length := by
  have hmore (c : Char) (plain : List Char) (done : List Part) :
      (flush plain done).length ≤ (flush (c :: plain) done).length := by
    unfold flush
    cases plain <;> simp
  fun_induction l.scanParts quoting done plain text with
  | case1 done plain =>
    cases h
    exact Nat.le_of_eq List.length_reverse.symm
  | case2 done plain ih | case5 done plain c rest _ _ ih | case7 done plain c rest _ _ _ _ ih =>
    exact Nat.le_trans (hmore _ _ _) (ih h)
  | case3 done plain rest ih => exact ih h
  | case6 => cases h
  | case4 done plain c rest _ _ ih | case8 done plain c rest _ _ _ part after _ _ ih =>
    have hlast := Nat.le_trans (length_le_flush [] _) (ih h)
    exact Nat.le_of_succ_le hlast

/-- What stands at the end is part of some part, unless it is a line end. -/
theorem length_lt_of_scanParts {done parts : List Part} {plain text : List Char} {last : Char}
    (h : l.scanParts quoting done plain text = .ok parts) (htext : text.getLast? = some last)
    (hlast : last ≠ '\n') : done.length < parts.length := by
  fun_induction l.scanParts quoting done plain text with
  | case1 => cases htext
  | case2 => exact length_le_of_scanParts h
  | case3 done plain rest ih =>
    cases rest with
    | nil => exact absurd (Option.some.inj htext).symm hlast
    | cons x rest => exact ih h htext
  | case5 done plain c rest _ _ ih => exact ih h htext
  | case6 => cases h
  | case7 done plain c rest _ _ _ _ ih =>
    cases rest with
    | nil => exact length_le_of_scanParts h
    | cons x rest => exact ih h htext
  | case4 done plain c rest | case8 done plain c rest =>
    have hlast := Nat.le_trans (length_le_flush [] _) (length_le_of_scanParts h)
    exact Nat.lt_of_le_of_lt (length_le_flush plain done) hlast

theorem arithmeticText?_of_head? {inner : List Char} (h : inner.head? ≠ some '(') :
    arithmeticText? inner = none := by
  unfold arithmeticText?
  split
  · exact absurd rfl h
  · rfl

/-- **A substitution** reaches to where its parenthesis closes, and is what stands before that. -/
theorem partsOf_substitution {text : List Char} (htext : text.head? ≠ some '(') :
    l.partsOf .unquoted ('$' :: '(' :: text) =
      match Delimiter.close .paren text with
      | .error d => .error (.lexical (.unclosed d) 1)
      | .ok (inner, after) =>
        match l.script (String.ofList inner) with
        | .error e => .error e
        | .ok body => l.scanParts .unquoted [.substitution body false] [] after := by
  have htilde : takeTilde ('$' :: '(' :: text) = none := rfl
  rw [partsOf, if_pos (by rfl), htilde]
  dsimp only
  rw [scanParts]
  case x | x_1 | x_2 => simp
  rcases hclose : Delimiter.close .paren text with d | ⟨inner, after⟩
  · have hdollar : l.dollarPart? .unquoted ('(' :: text) = .error (.lexical (.unclosed d) 1) := by
      rw [dollarPart?]
      split
      · next herror =>
        rw [hclose] at herror
        cases herror
        rfl
      · next hok =>
        rw [hclose] at hok
        cases hok
    have hpart : l.part? .unquoted '$' ('(' :: text) = .error (.lexical (.unclosed d) 1) := by
      unfold part?
      simp only [hdollar]
      rfl
    rw [hpart]
  · have hafter : after.length < ('(' :: text).length :=
      Nat.lt_succ_of_lt (Delimiter.close_length_lt hclose)
    have hinner : inner.head? ≠ some '(' := by
      rw [← Delimiter.close_paren_append hclose] at htext
      cases inner with
      | nil => simp
      | cons c inner => exact htext
    have hdollar : l.dollarPart? .unquoted ('(' :: text) =
        (l.script (String.ofList inner)).map fun body =>
          some (.substitution body false, ⟨after, hafter⟩) := by
      rw [dollarPart?]
      split
      · next herror =>
        rw [hclose] at herror
        cases herror
      · next hok =>
        rw [hclose] at hok
        cases hok
        rw [arithmeticText?_of_head? hinner]
        cases l.script (String.ofList inner) <;> rfl
    have hpart : l.part? .unquoted '$' ('(' :: text) =
        (l.script (String.ofList inner)).map fun body =>
          some (.substitution body false, ⟨after, Nat.le_of_lt hafter⟩) := by
      unfold part?
      simp only [hdollar]
      cases l.script (String.ofList inner) <;> rfl
    rw [hpart]
    dsimp only
    cases l.script (String.ofList inner) <;> rfl

/-- What has tokens that are a script has tokens. -/
theorem exists_stream_of_script {text : String} {script : Script}
    (h : l.script text = .ok script) : ∃ stream, TokenStream.ofText text = .ok stream := by
  rw [Along.script_eq] at h
  split at h
  · cases h
  · cases hstream : TokenStream.ofText text with
    | ok stream => exact ⟨stream, rfl⟩
    | error e =>
      rw [hstream] at h
      cases e <;> cases h

/-- **A substitution that is the whole word** ends with the word. -/
theorem close_of_partsOf {text : List Char} {part : Part} (htext : text.head? ≠ some '(')
    (hend : text.getLast? = some ')')
    (h : l.partsOf .unquoted ('$' :: '(' :: text) = .ok [part]) :
    ∃ inner, Delimiter.close .paren text = .ok (inner, []) := by
  rw [partsOf_substitution htext] at h
  rcases hclose : Delimiter.close .paren text with d | ⟨inner, - | ⟨x, after⟩⟩ <;>
    rw [hclose] at h <;> dsimp only at h
  · cases h
  · exact ⟨inner, rfl⟩
  · have hlast : (x :: after).getLast? = some ')' := by
      rw [← Delimiter.close_paren_append hclose] at hend
      simpa using hend
    cases hscript : l.script (String.ofList inner) with
    | error e =>
      rw [hscript] at h
      cases h
    | ok body =>
      rw [hscript] at h
      exact absurd (length_lt_of_scanParts h hlast (by decide)) (Nat.lt_irrefl _)

end Level

/-! ## Scripts and substitutions -/

/-- The word that substitutes the output of a script. -/
def Script.substitution (text : String) : String := "$(" ++ text ++ "\n)"

theorem Script.toList_substitution (text : String) :
    (substitution text).toList = '$' :: '(' :: (text.toList ++ ['\n', ')']) := by
  simp [substitution]

namespace Word

/-- A word is read with one level for itself. -/
theorem parse_eq (text : String) : parse text =
    ((Level.ofDepth (maxNesting - 1)).partsOf .unquoted text.toList).map (⟨·, text⟩) := by
  have hword : parse text = ((Level.ofDepth (maxNesting - 1)).partsOf .unquoted
      text.toList).map (⟨·, String.ofList text.toList⟩) := rfl
  rw [hword, String.ofList_toList]

/-- **A script in a substitution.** Let a script be read one level further in, start with no
parenthesis, end with no backslash and leave no here-document waiting, and let it be short enough
with a line end after it. Then it is the body of the substitution it is written into if and only if
it is balanced; and it is balanced if its constructs are. -/
theorem parse_substitution {text : String} {body : Script}
    (hbody : (Level.ofDepth (maxNesting - 1)).script text = .ok body)
    (hopen : text.toList.head? ≠ some '(') (hplain : EndsPlain text.toList)
    (hlength : (text ++ "\n").length ≤ maxScriptLength)
    (hcount : ∀ stream, TokenStream.ofText (text ++ "\n") = .ok stream →
      stream.tokens.length + 1 ≤ maxTokenCount)
    (hdocs : (Scanner.start text).DocumentsEnd) :
    Script.parse text = .ok body ∧
      (parse (Script.substitution text) =
          .ok ⟨[.substitution body false], Script.substitution text⟩ ↔ Balanced text.toList) ∧
      (ConstructsBalance text → Balanced text.toList) := by
  obtain ⟨stream, hstream⟩ := Level.exists_stream_of_script hbody
  have hparse : Script.parse text = .ok body := by
    have halong := Level.along_ofDepth anyText (Nat.sub_le maxNesting 1)
    have hdeeper := halong.script (show anyText.fine text.toList from trivial)
    rw [String.ofList_toList, hbody] at hdeeper
    exact hdeeper.2
  have hline : (Level.ofDepth (maxNesting - 1)).script (text ++ "\n") = .ok body := by
    obtain ⟨stream', tail, hstream', htail, -, htokens⟩ :=
      TokenStream.ofText_lineEnd hstream hplain hdocs
    exact (Level.along_ofDepth anyText (Nat.le_refl _)).script_lineEnds hstream hstream' trivial
      htokens htail hlength (hcount stream' hstream') hbody
  refine ⟨hparse, ?_, fun h => h.balanced hstream hplain⟩
  have hhead : (text.toList ++ ['\n', ')']).head? ≠ some '(' := by
    cases htext : text.toList with
    | nil => simp
    | cons c rest =>
      rw [htext] at hopen
      exact hopen
  have hbalance : Balanced text.toList ↔
      Delimiter.close .paren (text.toList ++ ['\n', ')']) = .ok (text.toList ++ ['\n'], []) := by
    rw [← balanced_lineEnd hplain, Balanced, List.append_assoc]
    rfl
  rw [parse_eq, Script.toList_substitution, hbalance]
  constructor
  · intro h
    have hparts : (Level.ofDepth (maxNesting - 1)).partsOf .unquoted
        ('$' :: '(' :: (text.toList ++ ['\n', ')'])) = .ok [.substitution body false] := by
      revert h
      cases Level.partsOf _ .unquoted ('$' :: '(' :: (text.toList ++ ['\n', ')'])) with
      | error e => exact fun h => absurd h (by simp [Except.map])
      | ok parts => exact fun h => congrArg Except.ok (congrArg Word.parts (Except.ok.inj h))
    obtain ⟨inner, hclose⟩ := Level.close_of_partsOf hhead (by simp) hparts
    have happend := Delimiter.close_paren_append hclose
    have hend : inner ++ [')'] = (text.toList ++ ['\n']) ++ [')'] := by
      rw [happend, List.append_assoc]
      rfl
    rw [hclose, List.append_cancel_right hend]
  · intro hclose
    have hscript : String.ofList (text.toList ++ ['\n']) = text ++ "\n" := by simp
    rw [Level.partsOf_substitution hhead, hclose]
    dsimp only
    rw [hscript, hline]
    dsimp only
    rw [Level.scanParts]
    rfl

/-- A quoted parenthesis and a comment that is balanced. -/
theorem parse_substitution_quoted :
    let text := "'a)' # (b)"
    ∃ body, Script.parse text = .ok body ∧ parse (Script.substitution text) =
      .ok ⟨[.substitution body false], Script.substitution text⟩ := by
  intro text
  have hchars : text.toList = ['\'', 'a', ')', '\'', ' ', '#', ' ', '(', 'b', ')'] := by
    simp [text]
  have hword : (QuotedText.word (.single, "a)")).toList = ['\'', 'a', ')', '\''] := by
    simp [QuotedText.word, Quotation.quote, Quotation.chars, Quotation.mark, Quotation.char]
  have hspells : Scanner.Spells [Scanner.wordToken (.single, "a)") 1] [(.single, "a)")] :=
    .cons ⟨⟨rfl, rfl⟩, rfl⟩ .nil
  obtain ⟨line, hstream⟩ : ∃ line, TokenStream.ofText text =
      .ok ⟨[Scanner.wordToken (.single, "a)") 1], line⟩ := by
    have hrest : (Scanner.start text).rest = (QuotedText.word (.single, "a)")).toList ++
        [' ', '#', ' ', '(', 'b', ')'] := by
      rw [Scanner.start, hchars, hword]
      rfl
    obtain ⟨line, hrun⟩ := Scanner.run_quote (s := Scanner.start text) (by simp [Scanner.start]) (.single, "a)") hrest
      (by simp [isMetacharacter])
    have hend : Scanner.run (Scanner.start text) =
        .ok ⟨[], line, [Scanner.wordToken (.single, "a)") 1], [], []⟩ := by
      rw [hrun, Scanner.run_blank rfl, Scanner.run_of_step rfl rfl, Scanner.run_of_nil rfl]
      rfl
    refine ⟨line, ?_⟩
    rw [TokenStream.ofText, ← Scanner.start, hend]
    rfl
  have hplain : EndsPlain text.toList := by
    rw [hchars]
    simp [EndsPlain]
  have hdocs : (Scanner.start text).DocumentsEnd := by
    refine Scanner.documentsEnd_of_last ?_
    rw [Scanner.start, hchars]
    simp
  obtain ⟨name, args, -, hlist⟩ := Parser.statementList_words 60 line hspells
  have hbody : (Level.ofDepth (maxNesting - 1)).script text =
      .ok ⟨[Parser.statementOf (Parser.commandOf name args 1)]⟩ := by
    have hshort : ¬ text.length > maxScriptLength := by
      rw [← String.length_toList, hchars]
      decide
    change Level.script (.ofDepth (60 + 3)) text = _
    rw [Level.script, if_neg hshort, hstream]
    dsimp only
    rw [if_neg (by decide), hlist]
    rfl
  have hsubstitution := parse_substitution hbody (by rw [hchars]; simp) hplain
    (by rw [← String.length_toList, String.toList_append, hchars]; decide)
    (fun stream' h => by
      obtain ⟨stream, tail, h', -, htail, htokens⟩ :=
        TokenStream.ofText_lineEnd hstream hplain hdocs
      obtain rfl : stream' = stream := Except.ok.inj (h.symm.trans h')
      rw [htokens]
      exact Nat.le_trans (Nat.succ_le_succ (Nat.succ_le_succ htail)) (by decide)) hdocs
  refine ⟨_, hsubstitution.1, hsubstitution.2.1.2 ?_⟩
  rw [hchars]
  rfl

/-- **An apostrophe in a comment** opens a quote for the scan: a script without a statement that
cannot be written into a substitution. -/
theorem parse_substitution_comment :
    let text := "# it's"
    (Level.ofDepth (maxNesting - 1)).script text = .ok ⟨[]⟩ ∧ Script.parse text = .ok ⟨[]⟩ ∧
      text.toList.head? ≠ some '(' ∧ EndsPlain text.toList ∧
      (text ++ "\n").length ≤ maxScriptLength ∧
      (∀ stream, TokenStream.ofText (text ++ "\n") = .ok stream →
        stream.tokens.length + 1 ≤ maxTokenCount) ∧
      parse (Script.substitution text) = .error (.lexical (.unclosed .single) 1) := by
  intro text
  have hchars : text.toList = ['#', ' ', 'i', 't', '\'', 's'] := by simp [text]
  have hplain : EndsPlain text.toList := by
    rw [hchars]
    simp [EndsPlain]
  have hdocs : (Scanner.start text).DocumentsEnd := by
    refine Scanner.documentsEnd_of_last ?_
    rw [Scanner.start, hchars]
    simp
  have hstream : TokenStream.ofText text = .ok ⟨[], 1⟩ := by
    rw [TokenStream.ofText, hchars, Scanner.run_of_step rfl rfl, Scanner.run_of_nil rfl]
    rfl
  have hlength : (text ++ "\n").length ≤ maxScriptLength := by
    rw [← String.length_toList, String.toList_append, hchars]
    decide
  have hscript (l : Level) : l.script text = .ok ⟨[]⟩ := by
    have hshort : ¬ text.length > maxScriptLength := by
      rw [← String.length_toList, hchars]
      decide
    rw [Level.Along.script_eq, if_neg hshort, hstream]
    have hlist : (Parser.statementList ⟨l, 1⟩ []).outcome [] = .ok ([], []) :=
      Parser.Along.outcome_statements_lineEnds (show Reader.LineEnds [] by simp [Reader.LineEnds])
        ⟨l, 1⟩ [] []
    simp only [hlist]
    rfl
  refine ⟨hscript _, hscript _, ?_, hplain, hlength, fun stream' h => ?_, ?_⟩
  · rw [hchars]
    simp
  · obtain ⟨stream, tail, h', -, htail, htokens⟩ := TokenStream.ofText_lineEnd hstream hplain hdocs
    obtain rfl : stream' = stream := Except.ok.inj (h.symm.trans h')
    rw [htokens]
    exact Nat.le_trans (Nat.succ_le_succ htail) (by decide)
  · rw [parse_eq, Script.toList_substitution, Level.partsOf_substitution, hchars]
    · rfl
    · rw [hchars]
      simp

end Word

end VirtualShell
