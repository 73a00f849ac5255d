import ScopedCss.Composition.Session
import ScopedCss.Preprocessing.Render
import ScopedCss.Text.CamelCase

/-!
Scoping files together with what they are composed of. Each file is scoped once in a build; one
that is composed of itself, directly or through others, is refused.
-/

namespace ScopedCss

namespace SessionM

/-- Renders a root with the preprocessor at `index`. -/
def render (p : Project) (index : Nat) (source : Source) : SessionM Source := do
  let s ← get
  match s.preprocessors[index]? with
  | none => pure source
  | some preprocessor =>
    let r := preprocessor.render p.settings p.disk s.registry source
    set { s with
      registry := r.registry
      preprocessors := s.preprocessors.set index r.preprocessor
      log := s.log ++ r.log }
    r.result

/-- The plain style sheet of a file that another is composed of; a root is rendered now if it has
not been yet. -/
def contentsOf (p : Project) (path : String) : SessionM String := do
  let s ← get
  let (source, registry) ← s.registry.fetch p.disk path
  set { s with registry }
  if source.isRendered then
    pure source.contents
  else
    match Role.of s.preprocessors source with
    | .root index => return (← render p index source).contents
    | .plain | .partialFile => pure source.contents

/-- The records of what a file is composed of, and the files that those are composed of. -/
def importTree (s : Session) (records : List ImportRecord) : List String :=
  records.map (·.path) ++ records.flatMap fun r => ((s.resultOf r.path).map (·.importTree)).getD []

/-- Looks up the exports of a file that the one at `path` is composed of, which is recorded.
`scopeOther` scopes it. -/
def composed (p : Project) (path : String) (scopeOther : String → SessionM ScopedModule)
    (specifier : String) : ExceptT Error (StateT (List ImportRecord) (StateM Session)) Tokens := do
  let s : Session ← getThe Session
  let target ← p.resolver.resolve p.disk (s.registry.knows p.disk) specifier path
  let result ← ExceptT.mk (StateT.lift (scopeOther target).run)
  modifyThe (List ImportRecord) (· ++ [⟨.ofList (Text.unquote specifier.toList), target⟩])
  pure result.tokens

/-- Scopes a text as that of the file at `path`. -/
def scopeText (p : Project) (path : String) (scopeOther : String → SessionM ScopedModule)
    (contents : String) : SessionM ScopedModule := do
  let rename (own : String) : Except Error String := p.naming.generate own path
  let (result, records) ← ExceptT.lift
    ((Scoping.scope contents path rename (composed p path scopeOther)).run.run [])
  let sheet ← result
  let s ← get
  set { s with imports := s.imports.insert path records, completed := s.completed ++ [path] }
  pure
    { css := sheet.css
      tokens := sheet.tokens
      sourceMap := sheet.sourceMap
      imports := records.map (·.specifier)
      importTree := importTree s records }

def cyclic (chain : List String) (path : String) : Error :=
  .resolution path ("cyclic composes dependency: " ++ " -> ".intercalate (chain ++ [path])) []

/-- Scopes the file at `path`, whose text is `contents` or else what is registered or on disk. At
most `fuel` files are being scoped at a time. -/
def scopeFile (p : Project) :
    (fuel : Nat) → (path : String) → (contents : Option String) → SessionM ScopedModule
  | 0, path, _ => do throw (cyclic (← get).chain path)
  | fuel + 1, path, contents => do
    let s ← get
    match s.slots.get? path with
    | some (.done result) => pure result
    | some .pending => throw (cyclic s.chain path)
    | none =>
      set (s.enter path)
      let result ← attempt do
        let text ← match contents with
          | some text => pure text
          | none => contentsOf p path
        scopeText p path (scopeFile p fuel · none) text
      modify (·.leave path result)
      result

/-- More files than can be scoped at a time. Each of them is registered or on disk, and a path to a
file on disk is settled by the number of its leading `..`, of which a path holds fewer than its
greatest length. -/
def maxChain (p : Project) (s : Session) : Nat :=
  s.registry.sources.size + p.disk.files.size * Disk.maxPathLength + 2

def exportTokens (p : Project) (tokens : Tokens) : Tokens :=
  if p.settings.options.camelCase then
    .ofList (tokens.entries.map fun (own, names) => (Text.camelCase own, names))
  else
    tokens

def passesThrough (p : Project) (path : String) : Bool :=
  Pattern.anyMatch p.settings.passthrough path

/-- Scopes a file of its own. One that passes through, or has been scoped, stays as it is. -/
def scope (p : Project) (source : Source) : SessionM Source := do
  if passesThrough p source.path || source.isScoped then
    pure source
  else
    let fuel := maxChain p (← get)
    match ← attempt (scopeFile p fuel source.path (some source.contents)) with
    | .error e =>
      modify fun s => { s with log := s.log ++ LogEntry.banner .modules source.path e }
      throw e
    | .ok result =>
      let source :=
        { source with
          contents := result.css
          tokens := some (exportTokens p result.tokens)
          sourceMap := result.sourceMap
          imports := result.imports
          references := source.references.addAll result.importTree
          isScoped := true }
      modify fun s => { s with registry := s.registry.insert source }
      pure source

/-- Scopes a file without rendering any other. -/
def scopePlain (p : Project) (source : Source) : SessionM Source := do
  let preprocessors := (← get).preprocessors
  modify fun s => { s with preprocessors := [] }
  let result ← attempt (scope p source)
  modify fun s => { s with preprocessors }
  result

end SessionM

end ScopedCss
