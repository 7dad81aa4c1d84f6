/-!
# Readers

A reader takes items off the front of a list and hands on what is left. `Rest` and `Tail` carry the
fact that the list has become shorter, or at least no longer, and with it every loop over the items
ends. A `Reader` may also refuse what it finds.
-/

namespace VirtualShell

/-! ## What is left of a list -/

section

variable {α : Type}

/-- What is left of a list after at least one item was taken. -/
abbrev Rest (items : List α) := { rest : List α // rest.length < items.length }

/-- What is left of a list. -/
abbrev Tail (items : List α) := { rest : List α // rest.length ≤ items.length }

/-- The whole list is left. -/
def Tail.all (items : List α) : Tail items := ⟨items, Nat.le_refl _⟩

/-- What is left after an item was taken is left in particular. -/
def Rest.toTail {items : List α} (rest : Rest items) : Tail items := ⟨rest.1, Nat.le_of_lt rest.2⟩

end

/-! ## Taking items -/

/-- Takes items off the front of a list, or refuses it. -/
def Reader (ε τ α : Type) := (items : List τ) → Except ε (α × Tail items)

namespace Reader

variable {ε τ α β : Type}

instance : Monad (Reader ε τ) where
  pure a := fun items => .ok (a, .all items)
  bind p f := fun items =>
    match p items with
    | .error e => .error e
    | .ok (a, ⟨rest, h⟩) =>
      match f a rest with
      | .error e => .error e
      | .ok (b, ⟨rest', h'⟩) => .ok (b, ⟨rest', Nat.le_trans h' h⟩)

/-- Refuse the input. -/
def fail (e : ε) : Reader ε τ α := fun _ => .error e

/-- The next item, which stays. -/
def peek : Reader ε τ (Option τ) := fun items => .ok (items.head?, .all items)

/-- All the items that are left, which stay. -/
def ahead : Reader ε τ (List τ) := fun items => .ok (items, .all items)

/-- Drop the next item, if there is one. -/
def skip : Reader ε τ Unit := fun items => .ok ((), ⟨items.drop 1, by simp⟩)

/-- Drop items while they pass a test. -/
def skipWhile (p : τ → Bool) : Reader ε τ Unit := fun items =>
  .ok ((), ⟨items.dropWhile p, (items.dropWhile_sublist p).length_le⟩)

/-- Go on as another reader when it does not refuse, and stay where it began otherwise. -/
def attempt (p : Reader ε τ (Option α)) : Reader ε τ (Option α) := fun items =>
  match p items with
  | .error e => .error e
  | .ok (none, _) => .ok (none, .all items)
  | .ok (some a, rest) => .ok (some a, rest)

/-- **The loop over items.** As long as `step` has a reader for what follows the next item, that
item is taken and the reader is run; it gives the state for the next turn. -/
def loop {σ : Type} (step : σ → τ → Option (Reader ε τ σ)) {start : List τ} (s : σ) :
    Tail start → Except ε (σ × Tail start)
  | ⟨[], h⟩ => .ok (s, ⟨[], h⟩)
  | ⟨t :: items, h⟩ =>
    match step s t with
    | none => .ok (s, ⟨t :: items, h⟩)
    | some read =>
      match read items with
      | .error e => .error e
      | .ok (s', ⟨rest, hr⟩) =>
        loop step s' ⟨rest, by simp only [List.length_cons] at h; omega⟩
termination_by items => items.1.length
decreasing_by simp only [List.length_cons]; omega

/-- The loop over items as a reader. -/
def repeatFrom {σ : Type} (s : σ) (step : σ → τ → Option (Reader ε τ σ)) : Reader ε τ σ :=
  fun items => loop step s (.all items)

end Reader

end VirtualShell
