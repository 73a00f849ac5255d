import ScopedCss.Scoping.Step
import ScopedCss.Text.Cut
import ScopedCss.Text.Letter
import ScopedCss.Text.Quoted

/-!
Declarations of the form `composes: a b`, `composes: a b from global` and
`composes: a b from "specifier"`.
-/

namespace ScopedCss.Scoping

/-- The value of a `composes` declaration. -/
def composesValue? (declaration : List Char) : Option (List Char) := do
  let rest ← Text.dropWord? "composes".toList (Text.trimStart declaration)
  (Text.dropPrefix? [':'] (Text.trimStart rest)).map Text.trim

/-- What follows `from` and the white space around it at the start of a text. -/
def dropFrom? (s : List Char) : Option (List Char) :=
  match s with
  | c :: s =>
    if Text.isBlank c then
      match Text.dropPrefix? "from".toList (Text.trimStart s) with
      | some (d :: rest) =>
        if Text.isBlank d ∧ Text.trimStart rest ≠ [] then some (Text.trimStart rest) else none
      | _ => none
    else
      none
  | [] => none

/-- A value cut at its first `from`. -/
def splitFrom? : List Char → Option (List Char × List Char)
  | [] => none
  | c :: s =>
    match dropFrom? (c :: s) with
    | some source => some ([], source)
    | none => (splitFrom? s).map fun (names, source) => (c :: names, source)

structure Composition where
  names : List String
  source : ComposesSource
deriving DecidableEq, Repr

def Composition.ofValue (value : List Char) : Composition :=
  let names (s : List Char) : List String := (Text.words s).map String.ofList
  match splitFrom? value with
  | none => ⟨names value, .sameFile⟩
  | some (s, source) =>
    let source := Text.trim source
    if source = "global".toList then ⟨names s, .everywhere⟩
    else ⟨names s, .file (.ofList (Text.unquote source))⟩

/-- The step of a declaration with this value in a rule whose classes are `targets`. -/
def composeStep (targets : List String) (value : List Char) (pos : Position) : Step :=
  let composition := Composition.ofValue value
  if targets = [] then .fail .composesNotAllowed pos
  else if composition.names = [] then .fail .composesNothing pos
  else .compose targets composition.names composition.source pos

end ScopedCss.Scoping
