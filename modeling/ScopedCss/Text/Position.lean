/-!
Places in a text.
-/

namespace ScopedCss

/-- A place in a text; lines and columns count from one. -/
structure Position where
  line : Nat
  column : Nat
deriving DecidableEq, Repr

namespace Position

def start : Position where
  line := 1
  column := 1

/-- The place behind a text that begins here. Lines end at `\n` alone. -/
def after (pos : Position) : List Char → Position
  | [] => pos
  | c :: s => (if c = '\n' then ⟨pos.line + 1, 1⟩ else ⟨pos.line, pos.column + 1⟩ : Position).after s

theorem after_append (pos : Position) (s t : List Char) :
    pos.after (s ++ t) = (pos.after s).after t := by
  induction s generalizing pos with
  | nil => rfl
  | cons c s ih => simp [after, ih]

end Position

end ScopedCss
