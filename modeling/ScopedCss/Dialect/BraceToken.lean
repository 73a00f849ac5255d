import ScopedCss.Dialect.Fault
import ScopedCss.Text.Blank
import ScopedCss.Text.Quoted

/-!
Characters, strings, interpolations and comments of a style sheet with braces, each with its place.
-/

namespace ScopedCss.Dialect

inductive Piece
  | char (c : Char)
  /-- A brace or semicolon outside parentheses. -/
  | cut (c : Char)
  /-- A whole string or interpolation. -/
  | atom (s : List Char)
  | blockComment
  | lineComment
  | broken (fault : Fault)
deriving DecidableEq, Repr

structure BraceToken where
  piece : Piece
  pos : Position
deriving DecidableEq, Repr

namespace BraceToken

/-- An interpolation through its first closing brace, and the rest. -/
def closeBrace? : List Char → Option (List Char × List Char)
  | [] => none
  | c :: s =>
    if c = '\x7d' then some ([c], s) else (closeBrace? s).map fun (l, r) => (c :: l, r)

theorem eq_of_closeBrace? {s l r : List Char} (h : closeBrace? s = some (l, r)) : s = l ++ r := by
  induction s generalizing l with
  | nil => simp [closeBrace?] at h
  | cons c s ih =>
    simp only [closeBrace?] at h
    split at h
    · simp only [Option.some.injEq, Prod.mk.injEq] at h
      simp [← h.1, h.2]
    · obtain ⟨⟨l', r'⟩, hs, he⟩ := Option.map_eq_some_iff.1 h
      simp only [Prod.mk.injEq] at he
      obtain ⟨rfl, rfl⟩ := he
      simp [ih hs]

/-- The tokens of a text that stands at `pos` inside `depth` parentheses. Line comments count only
outside of these. -/
def scan (depth : Nat) (pos : Position) (s : List Char) : List BraceToken :=
  match s with
  | [] => []
  | '/' :: '*' :: s =>
    match _h : Text.closeComment? s with
    | some (l, r) => ⟨.blockComment, pos⟩ :: scan depth (pos.after ('/' :: '*' :: l)) r
    | none => [⟨.broken .unterminatedComment, pos⟩]
  | '#' :: '\x7b' :: s =>
    match _h : closeBrace? s with
    | some (l, r) =>
      ⟨.atom ('#' :: '\x7b' :: l), pos⟩ :: scan depth (pos.after ('#' :: '\x7b' :: l)) r
    | none => [⟨.broken .unterminatedInterpolation, pos⟩]
  | c :: s =>
    if c = '"' ∨ c = '\'' then
      match _h : Text.closeString? c s with
      | some (l, r) => ⟨.atom (c :: l), pos⟩ :: scan depth (pos.after (c :: l)) r
      | none => [⟨.broken .unterminatedString, pos⟩]
    else if depth = 0 ∧ c = '/' ∧ s.head? = some '/' then
      have := (List.dropWhile_sublist (p := (· != '\n')) (l := s)).length_le
      ⟨.lineComment, pos⟩ ::
        scan depth (pos.after (c :: s.takeWhile (· != '\n'))) (s.dropWhile (· != '\n'))
    else if depth = 0 ∧ (c = '\x7b' ∨ c = ';' ∨ c = '\x7d') then
      ⟨.cut c, pos⟩ :: scan depth (pos.after [c]) s
    else
      let depth := if c = '(' then depth + 1 else if c = ')' then depth - 1 else depth
      ⟨.char c, pos⟩ :: scan depth (pos.after [c]) s
termination_by s.length
decreasing_by
  · rw [Text.eq_of_closeComment? _h]; simp only [List.length_append, List.length_cons]; omega
  · rw [eq_of_closeBrace? _h]; simp only [List.length_append, List.length_cons]; omega
  · rw [Text.eq_of_closeString? _h]; simp only [List.length_append, List.length_cons]; omega
  · simp; omega
  · simp
  · simp

end BraceToken

/-- What a token adds to the text of a statement. -/
def Piece.text : Piece → List Char
  | char c | cut c => [c]
  | atom s => s
  | blockComment => [' ']
  | lineComment | broken _ => []

end ScopedCss.Dialect
