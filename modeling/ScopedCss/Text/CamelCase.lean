import ScopedCss.Text.Blank
import ScopedCss.Text.CaseMap

/-!
The camelCase form of a class name: hyphens, underscores, dots and white space are dropped, the
letter after them is upper case, and the first letter of all is lower case.
-/

namespace ScopedCss.Text

def isWordBreak (c : Char) : Bool :=
  c == '-' || c == '_' || c == '.' || isBlank c

/-- What follows a first letter; `afterBreak` says that a break was just dropped. -/
def camelRest : (afterBreak : Bool) → List Char → List Char
  | _, [] => []
  | afterBreak, c :: s =>
    if isWordBreak c then
      camelRest true s
    else
      (if afterBreak then toUpper c else [c]) ++ camelRest false s

def camelCase (name : String) : String :=
  match name.toList.dropWhile isWordBreak with
  | [] => ""
  | c :: s => .ofList (toLower c ++ camelRest false s)

end ScopedCss.Text
