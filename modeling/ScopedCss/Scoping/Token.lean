import ScopedCss.Scoping.Fault
import ScopedCss.Text.Quoted

/-!
A style sheet as characters, and comments and strings in one piece, so that the braces and
semicolons in these end nothing.
-/

namespace ScopedCss.Scoping

open Text

inductive Token
  | char (c : Char)
  /-- A whole comment or string. -/
  | atom (s : List Char)
  /-- A comment or string without an end. -/
  | broken (fault : Fault)
deriving DecidableEq, Repr

namespace Token

/-- The tokens of a text. Nothing follows a broken one. -/
def scan (s : List Char) : List Token :=
  match s with
  | [] => []
  | '/' :: '*' :: s =>
    match _h : closeComment? s with
    | some (l, r) => atom ('/' :: '*' :: l) :: scan r
    | none => [broken .unterminatedComment]
  | c :: s =>
    if c = '"' ∨ c = '\'' then
      match _h : closeString? c s with
      | some (l, r) => atom (c :: l) :: scan r
      | none => [broken .unterminatedString]
    else
      char c :: scan s
termination_by s.length
decreasing_by
  · rw [eq_of_closeComment? _h]; simp only [List.length_append, List.length_cons]; omega
  · rw [eq_of_closeString? _h]; simp only [List.length_append, List.length_cons]; omega
  · simp

def text : Token → List Char
  | char c => [c]
  | atom s => s
  | broken _ => []

end Token

end ScopedCss.Scoping
