import ScopedCss.Log
import ScopedCss.Path.Resolver
import ScopedCss.Preprocessing.Basic

/-!
Rendering a root. Its imports are looked up next to the importing file, first under their own name
and then as partials, and each text is loaded once in a build.
-/

namespace ScopedCss

/-- What imports are looked up in. -/
structure Lookup where
  registry : Registry
  loaded : Dict Dialect.Imported
  /-- The files that were imported. -/
  references : PathSet

namespace Lookup

/-- The path itself, and its partial: the same name behind an underscore. -/
def candidates (extension path : String) : List String :=
  let path := if Path.extension path = "" then path ++ extension else path
  let name := Path.basename path
  if name.toList.head? = some '_' then [path] else [path, s!"{Path.dirname path}/_{name}"]

def importFile (resolver : Resolver) (disk : Disk) (extension specifier importing : String) :
    ExceptT Error (StateM Lookup) Dialect.Imported := do
  let l ← get
  let path ← resolver.resolve disk (l.registry.knows disk) specifier importing
  let paths := candidates extension path
  match paths.findSome? l.loaded.get? with
  | some imported =>
    set { l with references := l.references.add imported.path }
    pure imported
  | none =>
    let (source, registry) ← l.registry.fetchFirst disk specifier paths
    let imported : Dialect.Imported := ⟨source.path, source.raw⟩
    set (⟨registry, l.loaded.insert source.path imported, l.references.add source.path⟩ : Lookup)
    pure imported

end Lookup

/-- The result of rendering a file, and what it leaves behind whether it succeeds or not. -/
structure Rendering where
  result : Except Error Source
  preprocessor : Preprocessor
  registry : Registry
  log : Log

namespace Preprocessor

/-- The error as it is in the text that was read. Only the root has the prelude in front of it. -/
def errorInRoot (s : Settings) (source : Source) (e : Error) : Error :=
  match e with
  | .transform _ file _ _ => if file = source.path then e.shiftLines s.preludeOffset else e
  | e => e

def render (p : Preprocessor) (s : Settings) (disk : Disk) (registry : Registry) (source : Source) :
    Rendering :=
  if source.isRendered then
    ⟨.ok source, p, registry, []⟩
  else
    let importer := Lookup.importFile (.ofBase s.base) disk p.dialect.defaultExtension
    let (result, l) :=
      (p.dialect.grammar.render importer source.path source.contents).run.run
        ⟨registry, p.loaded, ∅⟩
    let p := { p with loaded := l.loaded }
    match result with
    | .ok css =>
      let source :=
        { source with
          contents := css
          sourceMap := none
          isRendered := true
          references := source.references.addAll l.references.keys }
      ⟨.ok source, p, l.registry.insert source, []⟩
    | .error e =>
      let e := errorInRoot s source e
      ⟨.error e, p, l.registry, LogEntry.banner p.dialect.stage source.path e⟩

end Preprocessor

end ScopedCss
