import ScopedCss.Text.Cut

/-!
Lists of selectors or import targets, and how the selectors of nested rules combine.
-/

namespace ScopedCss.Dialect

/-- The texts between the commas outside of quotes and brackets. -/
def splitCommas (depth : Nat) (quote : Option Char) : List Char → List (List Char)
  | [] => [[]]
  | c :: s =>
    if quote = none ∧ depth = 0 ∧ c = ',' then
      [] :: splitCommas depth quote s
    else
      let depth' :=
        if quote ≠ none then depth
        else if c = '(' ∨ c = '[' then depth + 1
        else if c = ')' ∨ c = ']' then depth - 1
        else depth
      let quote' :=
        match quote with
        | some q => if c = q then none else some q
        | none => if c = '"' ∨ c = '\'' then some c else none
      match splitCommas depth' quote' s with
      | [] => [[c]]
      | part :: parts => (c :: part) :: parts

/-- The parts of a comma-separated list, trimmed; empty ones do not count. -/
def listParts (s : List Char) : List (List Char) :=
  ((splitCommas 0 none s).map Text.trim).filter (· ≠ [])

def partStrings (s : List Char) : List String :=
  (listParts s).map String.ofList

/-- A selector with its parent in place of `&`, or behind its parent if it has none. -/
def nest (parent child : List Char) : List Char :=
  if child.contains '&' then Text.replaceChar '&' parent child else parent ++ ' ' :: child

/-- Every parent with every child, in the order of the parents. -/
def combineSelectors (parents : List String) (selector : String) : List String :=
  let children := listParts selector.toList
  if parents.isEmpty then
    children.map fun child => .ofList (Text.trim (Text.replaceChar '&' [] child))
  else
    parents.flatMap fun parent => children.map fun child => .ofList (nest parent.toList child)

end ScopedCss.Dialect
