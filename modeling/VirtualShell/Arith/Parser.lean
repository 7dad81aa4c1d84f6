import VirtualShell.Arith.Token

/-!
# Reading arithmetic expressions

From loose to tight: the comma, assignments, which group to the right, the conditional operator,
ten tiers of operators that group to the left, powers, which group to the right, signs and negations
before an operand, and steps after a name. Each tier is read by a function over the tighter one.
-/

namespace VirtualShell.Arith

/-- An expression at the front of some tokens, and what follows it. -/
abbrev Reading (tokens : List Token) := Except Error (Expr × Rest tokens)

/-- The failure at some tokens: one of them is out of place, or one more is needed. -/
def failAt {α : Type} : List Token → Except Error α
  | [] => .error (.malformed .operandExpected)
  | tokens => .error (.malformed (.unexpected (" ".intercalate (tokens.map Token.spelling))))

/-- The operator that stands before an operand, if it is a sign or a negation. -/
def Symbol.unary? : Symbol → Option UnaryOp
  | .binary .add => some .identity
  | .binary .subtract => some .negate
  | .not => some .not
  | .complement => some .complement
  | _ => none

/-- The step that may follow a variable. -/
def readStepAfter {start : List Token} (e : Expr) (tokens : Rest start) : Reading start :=
  match e, tokens with
  | .variable name, ⟨.symbol (.step step) :: rest, h⟩ =>
    .ok (.step step name false, ⟨rest, by simp only [List.length_cons] at h; omega⟩)
  | e, tokens => .ok (e, tokens)

mutual

/-- Expressions joined by commas. -/
def readComma (tokens : List Token) : Reading tokens :=
  match readAssignment tokens with
  | .error e => .error e
  | .ok (e, ⟨rest, h⟩) => readCommaFrom e ⟨rest, h⟩
termination_by (tokens.length, loosestTier + 5)

/-- The commas after an expression. -/
def readCommaFrom {start : List Token} (left : Expr) (tokens : Rest start) : Reading start :=
  match tokens with
  | ⟨.symbol (.binary .comma) :: rest, h⟩ =>
    match readAssignment rest with
    | .error e => .error e
    | .ok (right, ⟨rest', h'⟩) =>
      readCommaFrom (.binary .comma left right)
        ⟨rest', by simp only [List.length_cons] at h; omega⟩
  | tokens => .ok (left, tokens)
termination_by (tokens.1.length, 0)

/-- An assignment, or anything tighter. -/
def readAssignment (tokens : List Token) : Reading tokens :=
  match tokens with
  | .name name :: .symbol (.assign op) :: rest =>
    match readAssignment rest with
    | .error e => .error e
    | .ok (value, ⟨rest', h⟩) =>
      .ok (.assign op name value, ⟨rest', by simp only [List.length_cons]; omega⟩)
  | tokens => readConditional tokens
termination_by (tokens.length, loosestTier + 4)

/-- A conditional, or anything tighter. -/
def readConditional (tokens : List Token) : Reading tokens :=
  match readTier loosestTier tokens with
  | .error e => .error e
  | .ok (condition, ⟨.symbol .question :: rest, h⟩) =>
    match readAssignment rest with
    | .error e => .error e
    | .ok (yes, ⟨.symbol .colon :: rest', h'⟩) =>
      match readAssignment rest' with
      | .error e => .error e
      | .ok (no, ⟨rest₃, h₃⟩) =>
        .ok (.conditional condition yes no,
          ⟨rest₃, by simp only [List.length_cons] at h h'; omega⟩)
    | .ok (_, rest') => failAt rest'.1
  | .ok (condition, rest) => .ok (condition, rest)
termination_by (tokens.length, loosestTier + 3)
decreasing_by all_goals grind

/-- Operands joined by operators of a tier. -/
def readTier (tier : Nat) (tokens : List Token) : Reading tokens :=
  match tier with
  | 0 => readPower tokens
  | tier + 1 =>
    match readTier tier tokens with
    | .error e => .error e
    | .ok (e, ⟨rest, h⟩) => readTierFrom tier e ⟨rest, h⟩
termination_by (tokens.length, tier + 2)

/-- The operators of the tier above `tier`, and their right operands. -/
def readTierFrom {start : List Token} (tier : Nat) (left : Expr) (tokens : Rest start) :
    Reading start :=
  match tokens with
  | ⟨.symbol (.binary op) :: rest, h⟩ =>
    if op.tier = tier + 1 then
      match readTier tier rest with
      | .error e => .error e
      | .ok (right, ⟨rest', h'⟩) =>
        readTierFrom tier (.binary op left right)
          ⟨rest', by simp only [List.length_cons] at h; omega⟩
    else .ok (left, ⟨.symbol (.binary op) :: rest, h⟩)
  | tokens => .ok (left, tokens)
termination_by (tokens.1.length, 0)

/-- A power, or anything tighter. -/
def readPower (tokens : List Token) : Reading tokens :=
  match readUnary tokens with
  | .error e => .error e
  | .ok (base, ⟨.symbol (.binary .power) :: rest, h⟩) =>
    match readPower rest with
    | .error e => .error e
    | .ok (exponent, ⟨rest', h'⟩) =>
      .ok (.binary .power base exponent, ⟨rest', by simp only [List.length_cons] at h; omega⟩)
  | .ok (base, rest) => .ok (base, rest)
termination_by (tokens.length, 1)
decreasing_by all_goals grind

/-- An operand with what stands before and after it. -/
def readUnary (tokens : List Token) : Reading tokens :=
  match tokens with
  | .symbol (.step step) :: rest =>
    match rest with
    | .name name :: rest => .ok (.step step name true, ⟨rest, by simp only [List.length_cons]; omega⟩)
    | rest => failAt rest
  | .symbol symbol :: rest =>
    match symbol.unary? with
    | some op =>
      match readUnary rest with
      | .error e => .error e
      | .ok (e, ⟨rest', h⟩) => .ok (.unary op e, ⟨rest', by simp only [List.length_cons]; omega⟩)
    | none =>
      if symbol = .openParen then
        match readComma rest with
        | .error e => .error e
        | .ok (e, ⟨.symbol .closeParen :: rest', h⟩) =>
          readStepAfter e ⟨rest', by simp only [List.length_cons] at h ⊢; omega⟩
        | .ok (_, rest') => failAt rest'.1
      else failAt (.symbol symbol :: rest)
  | .literal text :: rest =>
    match readLiteral text.toList with
    | .error e => .error e
    | .ok value => .ok (.number value, ⟨rest, by simp only [List.length_cons]; omega⟩)
  | .name name :: rest => readStepAfter (.variable name) ⟨rest, by simp only [List.length_cons]; omega⟩
  | [] => failAt []
termination_by (tokens.length, 0)

end

/-- **Reading an expression.** Without any token it is zero; all tokens must be used up. -/
def Expr.ofTokens : List Token → Except Error Expr
  | [] => .ok (.number 0)
  | tokens =>
    match readComma tokens with
    | .error e => .error e
    | .ok (e, ⟨[], _⟩) => .ok e
    | .ok (_, rest) => failAt rest.1

/-- The expression that a text writes. -/
def Expr.parse (text : String) : Except Error Expr := do
  Expr.ofTokens (← tokens text)

end VirtualShell.Arith
