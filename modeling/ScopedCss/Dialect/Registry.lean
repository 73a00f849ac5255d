import ScopedCss.Dialect.Brace
import ScopedCss.Dialect.Evaluate
import ScopedCss.Dialect.Indented

/-!
The dialects that style sheets may be written in, and those that a build can render. One that is not
registered is reported by its name.
-/

namespace ScopedCss

inductive Dialect
  | sass
  | less
  | stylus
deriving DecidableEq, Repr

namespace Dialect

def name : Dialect → String
  | sass => "sass"
  | less => "less"
  | stylus => "stylus"

def ofName? : String → Option Dialect
  | "sass" => some sass
  | "less" => some less
  | "stylus" => some stylus
  | _ => none

@[simp]
theorem ofName?_name (d : Dialect) : ofName? d.name = some d := by
  cases d <;> rfl

def stage : Dialect → Stage
  | sass => .sass
  | less => .less
  | stylus => .stylus

def grammar : Dialect → Grammar
  | sass => ⟨.sass, .sigil '$', Brace.parse '$'⟩
  | less => ⟨.less, .sigil '@', Brace.parse '@'⟩
  | stylus => ⟨.stylus, .bare, Indented.parse⟩

end Dialect

/-- Names of renderers; those that name no dialect have no effect. -/
structure Renderers where
  names : List String
deriving DecidableEq, Repr

namespace Renderers

def builtin : Renderers where
  names := ["less", "sass", "stylus"]

def contains (r : Renderers) (name : String) : Bool :=
  r.names.contains name

def create (r : Renderers) (name : String) : Except Error Dialect :=
  match r.contains name, Dialect.ofName? name with
  | true, some dialect => pure dialect
  | _, _ => throw (.unregistered "stylesheet renderer" name)

end Renderers

end ScopedCss
