import ScopedCss.Options.Basic
import ScopedCss.Path.Basic
import ScopedCss.Pattern.Match

/-!
The paths of artifacts, made from the paths of their files by templates. The placeholders of a
template are filled in one kind after the other.
-/

namespace ScopedCss.OutputTemplate

def fill (template path : String) : String :=
  let dirname := Text.replace "\x7bdirname\x7d".toList (Path.dirname path).toList template.toList
  let basename := Text.replace "\x7bbasename\x7d".toList (Path.stem path).toList dirname
  .ofList (Text.replace "\x7bextname\x7d".toList (Path.extension path).toList basename)

/-- The first template whose pattern matches. A pattern is only read when it is reached. -/
def firstMatch? (path : String) : List (String × String) → Except Error (Option String)
  | [] => pure none
  | (pattern, template) :: rest =>
    if pattern = "default" then
      firstMatch? path rest
    else
      match Pattern.parse? .default pattern with
      | none => throw (.invalidFormat s!"Invalid output path pattern '{pattern}'")
      | some p => if p.isMatch path then pure (some template) else firstMatch? path rest

/-- The template for a path. -/
def select (path : String) : OutputTemplate → Except Error String
  | single template => pure template
  | byPattern templates => do
    match ← firstMatch? path templates.entries with
    | some template => pure template
    | none => pure ((templates.get? "default").getD identityText)

def expand (t : OutputTemplate) (path : String) : Except Error String := do
  pure (fill (← t.select path) path)

end ScopedCss.OutputTemplate
