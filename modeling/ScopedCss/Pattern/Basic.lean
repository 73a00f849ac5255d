import ScopedCss.Pattern.CharSet

/-!
Regular expressions without look-around and back-references.
-/

namespace ScopedCss

namespace Pattern

/-- A condition on a place in the text. -/
inductive Assertion
  | textStart
  | textEnd
  | lineStart
  | lineEnd
  | wordBoundary
  | notWordBoundary
  | wordStart
  | wordEnd
  | wordStartHalf
  | wordEndHalf
deriving DecidableEq, Repr

end Pattern

inductive Regex
  | empty
  | set (s : Pattern.CharSet)
  | assertion (a : Pattern.Assertion)
  | seq (a b : Regex)
  /-- The first alternative is preferred. -/
  | alt (a b : Regex)
  /-- At least `min` and at most `max` times; more is preferred if `greedy`, and less if not. -/
  | repeated (r : Regex) (min : Nat) (max : Option Nat) (greedy : Bool)
  /-- What `r` matches is captured as this group. -/
  | group (index : Nat) (r : Regex)
deriving DecidableEq, Repr

/-- A regular expression with the names of its groups. -/
structure Pattern where
  regex : Regex
  names : List (String × Nat)
deriving DecidableEq, Repr

end ScopedCss
