import ScopedCss.Scoping.Fault

/-!
What scoping a style sheet amounts to, before any name is chosen: texts to keep, local names to
replace, and `composes` declarations to carry out.
-/

namespace ScopedCss.Scoping

/-- What a local name stands for. -/
inductive NameKind
  | cssClass
  | cssId
  | keyframes
deriving DecidableEq, Repr

/-- Where a `composes` declaration takes its classes from. -/
inductive ComposesSource
  | sameFile
  | everywhere
  | file (specifier : String)
deriving DecidableEq, Repr

inductive Step
  | text (s : List Char)
  | name (kind : NameKind) (n : String)
  /-- White space that is dropped where white space precedes it. -/
  | gap (s : List Char)
  /-- The classes `targets` take over the classes `names`. -/
  | compose (targets names : List String) (source : ComposesSource) (pos : Position)
  | fail (fault : Fault) (pos : Position)
deriving DecidableEq, Repr

/-- The local classes among the steps, each once, in order. -/
def classesOf (steps : List Step) : List String :=
  steps.foldl (fun l s =>
    match s with
    | .name .cssClass n => if n ∈ l then l else l ++ [n]
    | _ => l) []

end ScopedCss.Scoping
