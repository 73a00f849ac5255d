import ScopedCss.Dialect.Fault
import ScopedCss.Dialect.Selector
import ScopedCss.Text.Letter

/-!
Style sheets as trees. All dialects have the same trees, and they write some statements alike:
imports and other at-rules.
-/

namespace ScopedCss.Dialect

inductive Node
  | declaration (property value : String) (pos : Position)
  /-- The definition of a variable; a fallback counts only where the variable has no value. -/
  | definition (name value : String) (fallback : Bool) (pos : Position)
  /-- Imports with their targets as they are written, quotes included. -/
  | imports (targets : List String) (pos : Position)
  | rule (selector : String) (children : List Node) (pos : Position)
  | atStatement (name params : String) (pos : Position)
  | atBlock (name params : String) (children : List Node) (pos : Position)
deriving Repr

/-- The name of an at-rule, from behind its sign, and its parameters. -/
def splitAtRule (s : List Char) : String × String :=
  (.ofList (s.takeWhile Text.isWordChar), .ofList (Text.trim (s.dropWhile Text.isWordChar)))

/-- The node of a statement that begins with `@`. -/
def atStatement? (s : List Char) (pos : Position) : Option (Except FaultAt Node) :=
  match Text.dropPrefix? "@import".toList s, s with
  | some targets, _ =>
    match partStrings targets with
    | [] => some (throw ⟨.missingImport, pos⟩)
    | parts => some (pure (.imports parts pos))
  | none, '@' :: s =>
    let (name, params) := splitAtRule s
    some (pure (.atStatement name params pos))
  | none, _ => none

end ScopedCss.Dialect
