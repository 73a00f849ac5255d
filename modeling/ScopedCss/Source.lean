import ScopedCss.Scoping.Scope
import ScopedCss.SortedDict

/-!
A style sheet on its way through a build: its text as read, and what the stages so far have made
of it.
-/

namespace ScopedCss

structure Source where
  /-- The canonical path, by which other files refer to it. -/
  path : String
  /-- The path in the package that it belongs to. -/
  place : String
  arch : String
  /-- The text as read. Imports of the file see this text. -/
  raw : String
  contents : String
  tokens : Option Tokens := none
  sourceMap : Option Json := none
  /-- What its compositions refer to, as written. -/
  imports : List String := []
  /-- The files that its contents depend on. -/
  references : PathSet := ∅
  /-- Whether it is only ever imported, if that is known. -/
  isImport : Option Bool := none
  isLazy : Bool := false
  isRendered : Bool := false
  isScoped : Bool := false
deriving Repr

/-- Files below these folders are loaded when something imports them. -/
def isLazyPath (place : String) : Bool :=
  (Path.segments place).any fun s => String.ofList s = "imports" || String.ofList s = "node_modules"

end ScopedCss
