import ScopedCss.Registry

/-!
Which files are written in a dialect, and which of them are roots: files that are built, and not
only imported by others.
-/

namespace ScopedCss

namespace Dialect

def extensions : Dialect → List String
  | sass => ["scss", "sass"]
  | stylus => ["styl", "m.styl"]
  | less => ["less"]

/-- What is added to imports without an extension. -/
def defaultExtension : Dialect → String
  | sass => ".scss"
  | stylus => ".styl"
  | less => ".less"

end Dialect

/-- A dialect that is rendered, and the imports loaded so far. -/
structure Preprocessor where
  dialect : Dialect
  toggle : Toggle
  loaded : Dict Dialect.Imported := ∅
deriving Repr

namespace Preprocessor

/-- The preprocessors of a build, in the order in which they are asked. -/
def ofSettings (s : Settings) (renderers : Renderers) : Except Error (List Preprocessor) :=
  s.dialects.mapM fun (dialect, toggle) => do
    let dialect ← renderers.create dialect.name
    pure { dialect, toggle }

def owns (p : Preprocessor) (source : Source) : Bool :=
  match p.toggle with
  | .enabled true =>
    p.dialect.extensions.any fun e => Text.endsWith ('.' :: e.toList) source.place.toList
  | toggle => toggle.covers source.place

end Preprocessor

/-- A file is a root unless it is known to be imported only, or its name begins with an
underscore. -/
def Source.isRoot (source : Source) : Bool :=
  match source.isImport with
  | some isImport => !isImport
  | none => (Path.basename source.place).toList.head? != some '_'

/-- What a file is to the preprocessors. -/
inductive Role
  | plain
  | root (index : Nat)
  | partialFile
deriving DecidableEq, Repr

namespace Role

/-- The first preprocessor that has the file as a root renders it. -/
def of (preprocessors : List Preprocessor) (source : Source) : Role :=
  match preprocessors.findIdx? fun p => p.owns source && source.isRoot with
  | some index => root index
  | none => if preprocessors.any (·.owns source) then partialFile else plain

end Role

end ScopedCss
