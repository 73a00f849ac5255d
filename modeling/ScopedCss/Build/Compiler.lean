import ScopedCss.Build.Input
import ScopedCss.Cache.Basic
import ScopedCss.Composition.Scoped
import ScopedCss.Output.Path

/-!
Builds. All files are known before the first is built, all roots are rendered before the first is
scoped, and a file that fails is reported with it while the others are built.
-/

namespace ScopedCss

structure BuildReport where
  compiled : Nat := 0
  cached : Nat := 0
  /-- Ignored files, and files that are only imported. -/
  skipped : Nat := 0
  failed : Nat := 0
  failures : List FileError := []
deriving DecidableEq, Repr

def BuildReport.succeeded (r : BuildReport) : Bool :=
  r.failed == 0

structure Compiler where
  settings : Settings
  renderers : Renderers

/-- The state of a build. -/
structure BuildState where
  workspace : Workspace
  session : Session
  files : List HostFile
  report : BuildReport

abbrev BuildM := StateM BuildState

/-- A file that has been rendered if it had to be, and is to be scoped. -/
structure Prepared where
  source : Source
  key : String

namespace BuildM

variable {α : Type}

/-- An action on the session; what it logs goes to the log of the build. -/
def session (act : SessionM α) : BuildM (Except Error α) := do
  let b ← get
  let (result, s) := act.run.run b.session
  let workspace := { b.workspace with log := b.workspace.log ++ s.log }
  set { b with workspace, session := { s with log := [] } }
  pure result

/-- The fingerprint of the text of a file, as the build knows it. -/
def hashOf (disk : Disk) (path : String) : StateM Session (Option String) :=
  modifyGet fun s =>
    let (hash, registry) := s.registry.hashOf disk path
    (hash, { s with registry })

def count (f : BuildReport → BuildReport) : BuildM Unit :=
  modify fun b => { b with report := f b.report }

/-- Changes to the file that the results of a unit are handed back with. -/
def changeHandle (u : BuildUnit) (f : HostFile → HostFile) : BuildM Unit :=
  modify fun b => { b with files := b.files.modify u.handle f }

/-- A unit has failed: the error is handed back, logged and counted. -/
def fail (u : BuildUnit) (i : Input) (e : Error) : BuildM Unit := do
  let failure : FileError := ⟨e.message, i.place⟩
  let handed := u.handedError failure
  changeHandle u (·.addError handed)
  modify fun b =>
    { b with workspace := { b.workspace with log := b.workspace.log ++ [handed.logEntry] } }
  count fun r => { r with failed := r.failed + 1, failures := r.failures ++ [failure] }

/-- The cached result of a path under a key. -/
def reuse (path key : String) : BuildM (Option Compiled) :=
  modifyGet fun b =>
    let ((result, workspace), session) :=
      ((Workspace.reuse path key (hashOf b.workspace.disk)).run b.workspace).run b.session
    (result, { b with workspace, session })

/-- The fingerprints of files, as far as they can be read. -/
def hashes (paths : List String) : BuildM (SortedDict String) := do
  let disk := (← get).workspace.disk
  let hashed ← paths.filterMapM fun path => modifyGet fun b =>
    let (hash, session) := (hashOf disk path).run b.session
    (hash.map (path, ·), { b with session })
  pure (.ofList hashed)

end BuildM

namespace Compiler

/-- Without caching, every build starts with an empty cache. -/
def startCache (c : Compiler) (w : Workspace) : Workspace :=
  if c.settings.options.caching then w else w.forgetAll

/-- A new session, and the names of scoped classes. -/
def startSession (c : Compiler) (disk : Disk) (arch : String) :
    Except Error (Project × Session) := do
  let preprocessors ← Preprocessor.ofSettings c.settings c.renderers
  let project ← Project.make disk c.settings
  pure (project, .start (.ofSettings c.settings arch) preprocessors)

/-- The artifacts of a result. The style sheet of a file that is not lazy goes to clients. -/
def artifacts (c : Compiler) (arch : String) (r : Compiled) :
    (Except Error (List SheetArtifact)) × (Except Error (List ScriptArtifact)) :=
  let client := c.settings.isClient arch
  let sheets : Except Error (List SheetArtifact) :=
    if r.css ≠ "" && client && !r.isLazy then do
      let path := (← c.settings.options.sheetPath.expand r.place) ++ ".css"
      pure [⟨r.css, path, path, r.sourceMap.map Json.compact, false⟩]
    else
      pure []
  let data := r.script client
  let scripts : Except Error (List ScriptArtifact) :=
    if data = "" then
      pure []
    else do
      let path ← c.settings.options.scriptPath.expand r.place
      pure [⟨data, path ++ ".js", path, r.isLazy, false⟩]
  (sheets, scripts)

/-- Hands the artifacts of a result to a file. The style sheet stays with it if there is no path for
the script. -/
def emit (c : Compiler) (arch : String) (r : Compiled) (f : HostFile) : Except Error Unit × HostFile :=
  let (sheets, scripts) := c.artifacts arch r
  match sheets with
  | .error e => (.error e, f)
  | .ok sheets =>
    match scripts with
    | .error e => (.error e, f.emit sheets [])
    | .ok scripts => (.ok (), f.emit sheets scripts)

/-- The same for a unit of a build. -/
def emitUnit (c : Compiler) (u : BuildUnit) (i : Input) (r : Compiled) : BuildM (Except Error Unit) :=
  modifyGet fun b =>
    match b.files[u.handle]? with
    | none => (.ok (), b)
    | some f =>
      let (result, f) := c.emit i.arch r f
      (result, { b with files := b.files.set u.handle f })

/-- Renders a root; any other file stays as it is. -/
def render (p : Project) (role : Role) (source : Source) : SessionM Source :=
  match role with
  | .root index => SessionM.render p index source
  | .plain | .partialFile => pure source

/-- Settles whether a unit is to be scoped: not if it is only imported, if its result is cached, or
if it cannot be rendered. -/
def prepare (c : Compiler) (p : Project) (u : BuildUnit) (i : Input) : BuildM (Option Prepared) := do
  let source := i.source c.settings i.contents
  let role := Role.of (← get).session.preprocessors source
  if role = .partialFile then
    BuildM.count fun r => { r with skipped := r.skipped + 1 }
    pure none
  else
    let key := CacheEntry.keyOf c.settings.hash (fingerprint i.contents)
    match ← BuildM.reuse source.path key with
    | some result =>
      match ← c.emitUnit u i result with
      | .ok () => BuildM.count fun r => { r with cached := r.cached + 1 }
      | .error e => BuildM.fail u i e
      pure none
    | none =>
      let p := { p with disk := (← get).workspace.disk }
      match ← BuildM.session (render p role source) with
      | .ok source => pure (some ⟨source, key⟩)
      | .error e =>
        BuildM.fail u i e
        pure none

/-- Scopes a unit, hands its artifacts back and caches the result. -/
def finish (c : Compiler) (p : Project) (u : BuildUnit) (i : Input) (prepared : Prepared) :
    BuildM Unit := do
  let path := prepared.source.path
  let p := { p with disk := (← get).workspace.disk }
  match ← BuildM.session (SessionM.scope p prepared.source) with
  | .error e => BuildM.fail u i e
  | .ok source =>
    let result := Compiled.ofSource source (c.settings.isClient source.arch)
    match ← c.emitUnit u i result with
    | .error e => BuildM.fail u i e
    | .ok () =>
      let dependencies ← BuildM.hashes source.references.keys
      modify fun b => { b with workspace := b.workspace.remember ⟨path, prepared.key, result, dependencies⟩ }
      BuildM.count fun r => { r with compiled := r.compiled + 1 }

/-- The included files that are not known yet, each once. -/
def newFiles (c : Compiler) :
    (known : List String) → List IncludedFile → List IncludedFile
  | _, [] => []
  | known, f :: rest =>
    let path := (Resolver.ofBase c.settings.base).absolute f.path
    if known.contains path then newFiles c known rest else f :: newFiles c (path :: known) rest

def noBacking : String :=
  "No input files to attribute explicitly included files to; skipping explicit includes"

/-- The files of all included folders, which are handed back with the unit `backing`. -/
def discover (c : Compiler) (disk : Disk) (backing : Option Nat) :
    Except Error (List IncludedFile × Log) :=
  let folders := c.settings.options.includedFolders
  if folders.isEmpty then
    pure ([], [])
  else
    match backing with
    | none =>
      pure ([], [⟨.warning, noBacking⟩])
    | some _ => do
      let files ← folders.mapM (c.settings.includedFiles disk)
      pure (files.flatten, [])

/-- The units of a build, and the session in which all of them are registered. -/
structure Plan where
  units : List BuildUnit
  project : Project
  session : Session
  skipped : Nat
  log : Log

def plan (c : Compiler) (disk : Disk) (files : List HostFile) : Except Error Plan := do
  let arch := (files.head?.map (·.arch)).getD c.settings.options.clientArch
  let (project, session) ← c.startSession disk arch
  let register (registry : Registry) (i : Input) : Registry :=
    registry.insert (i.source c.settings i.contents)
  let registry := (files.map Input.ofHost).foldl register session.registry
  let kept := (List.range files.length).filter fun n =>
    files[n]?.any fun f => c.settings.keeps f.place
  let (found, log) ← c.discover disk kept.head?
  let backing := kept.head?.getD 0
  let backingArch := (files[backing]?.map (·.arch)).getD ""
  let included := c.newFiles registry.sources.keys found
  let registry := (included.map (·.input backingArch)).foldl register registry
  pure
    { units := kept.map .host ++ included.map (.included · backing)
      project
      session := { session with registry }
      skipped := files.length - kept.length
      log }

/-- Units with what they are prepared to. -/
def prepareAll (c : Compiler) (p : Project) :
    List BuildUnit → BuildM (List (BuildUnit × Input × Prepared))
  | [] => pure []
  | u :: rest => do
    let prepared ← match u.input? (← get).files with
      | none => pure none
      | some i => (·.map (u, i, ·)) <$> c.prepare p u i
    let others ← prepareAll c p rest
    pure (prepared.toList ++ others)

def finishAll (c : Compiler) (p : Project) (l : List (BuildUnit × Input × Prepared)) :
    BuildM Unit :=
  l.forM fun (u, i, prepared) => c.finish p u i prepared

def buildUnits (c : Compiler) (plan : Plan) : BuildM Unit := do
  c.finishAll plan.project (← c.prepareAll plan.project plan.units)

/-- Builds files. An error means that none of them was built. -/
def build (c : Compiler) (w : Workspace) (files : List HostFile) :
    Except Error BuildReport × List HostFile × Workspace :=
  let w := c.startCache w
  match c.plan w.disk files with
  | .error e => (.error e, files, w)
  | .ok plan =>
    let b : BuildState :=
      { workspace := { w with log := w.log ++ plan.log }
        session := plan.session
        files
        report := { skipped := plan.skipped } }
    let ((), b) := (c.buildUnits plan).run b
    (.ok b.report, b.files, b.workspace)

/-- The result for a text in place of the contents of a file. Nothing is handed back or cached. -/
def compileText (c : Compiler) (w : Workspace) (file : HostFile) (text : String) (scoping : Bool) :
    Except Error Compiled × Workspace :=
  let w := c.startCache w
  match c.startSession w.disk file.arch with
  | .error e => (.error e, w)
  | .ok (project, session) =>
    let source := (Input.ofHost file).source c.settings text
    let session := { session with registry := session.registry.insert source }
    let act : SessionM Compiled := do
      let source ← render project (Role.of session.preprocessors source) source
      let source ← if scoping then SessionM.scope project source else pure source
      pure (.ofSource source (c.settings.isClient source.arch))
    let (result, s) := act.run.run session
    (result, { w with log := w.log ++ s.log })

/-- The result for a text at a place below a base folder, with default options. -/
def compileAlone (disk : Disk) (base place text : String) : Except Error Compiled := do
  let options : Options := {}
  let settings ← options.settle disk base .builtin
  let file := HostFile.ofText place "web.browser" text
  (compileText ⟨settings, .builtin⟩ (.inMemory disk) file text true).1

end Compiler

end ScopedCss
