import ScopedCss.CommandLine.Arguments
import ScopedCss.CommandLine.Project
import ScopedCss.Options.Load

/-!
The commands: `build` builds a project and writes the artifacts, `check` only builds it.
-/

namespace ScopedCss.CommandLine

/-- What is printed: a line, or the line with the time that has passed. -/
inductive Printed
  | line (text : String)
  | elapsed
deriving DecidableEq, Repr

structure Console where
  disk : Disk
  printed : List Printed := []
  log : Log := []

abbrev CommandM := ExceptT Error (StateM Console)

def print (text : String) : CommandM Unit :=
  modify fun c => { c with printed := c.printed ++ [.line text] }

def orIoError {α : Type} (r : Except DiskFault α) : CommandM α :=
  match r with
  | .ok x => pure x
  | .error fault => throw (.io fault)

def defaultArch : String :=
  "web.browser"

def defaultOutput : String :=
  ".cssmc/out"

def cacheFolder : String :=
  ".cssmc/cache"

/-- The canonical path of the project. -/
def projectFolder (g : Given) : CommandM String := do
  let project := g.project.getD "."
  let disk := (← get).disk
  if disk.isFolder project then
    orIoError (disk.locate project)
  else
    throw (.fileNotFound s!"Project directory {project}")

/-- The canonical path of the folder for artifacts, which is made if it is not there. -/
def outputFolder (g : Given) (project : String) : CommandM String := do
  let c ← get
  let folder := match g.output with
    | some output => Path.join c.disk.cwd output
    | none => Path.join project defaultOutput
  let disk ← orIoError (c.disk.createFolders folder)
  set { c with disk }
  orIoError (disk.locate folder)

/-- The settings of a project: from the file given, or else from its package manifest if it has
one. -/
def loadSettings (g : Given) (project : String) : CommandM Settings := do
  let disk := (← get).disk
  let manifest := Path.join project "package.json"
  let options ← match g.config with
    | some path => Options.load disk path
    | none => if disk.isFile manifest then Options.load disk manifest else pure {}
  options.settle disk project .builtin

/-- A cache on the disk as it is. -/
def openWorkspace (folder : Option String) : CommandM Workspace := do
  let c ← get
  let w := Workspace.inMemory c.disk
  match folder with
  | none => pure w
  | some folder =>
    let w ← w.openCache folder
    set { c with disk := w.disk }
    pure w

/-- Writes a file, with all folders above it. -/
def writeFile (path text : String) : CommandM Unit := do
  let c ← get
  let disk ← orIoError (c.disk.createFolders (Path.dirname path))
  set { c with disk }
  let disk ← orIoError (disk.write path text)
  set { c with disk }

/-- Builds the files of a project, and writes the artifacts if there is a folder for them. -/
def buildProject (settings : Settings) (w : Workspace) (project arch : String)
    (out : Option String) : CommandM BuildReport := do
  let files ← HostFile.scan w.disk project settings arch out
  let (report, files, w) := (⟨settings, .builtin⟩ : Compiler).build w files
  modify fun c => { c with disk := w.disk, log := c.log ++ w.log }
  let report ← report
  match out with
  | none => pure report
  | some out =>
    (files.flatMap (·.outputs settings.base out)).forM fun (path, text) => writeFile path text
    pure report

def printReport (r : BuildReport) : CommandM Unit := do
  print "\n📊 Build Summary:"
  print s!"   Compiled: {r.compiled}"
  print s!"   From cache: {r.cached}"
  print s!"   Skipped: {r.skipped}"
  print s!"   Failed: {r.failed}"
  modify fun c => { c with printed := c.printed ++ [.elapsed] }

def build (g : Given) : CommandM Unit := do
  let project ← projectFolder g
  let out ← outputFolder g project
  let w ← openWorkspace (if g.noCache then none else some (Path.join project cacheFolder))
  let settings ← loadSettings g project
  print s!"🔨 Building {project} -> {out}"
  let report ← buildProject settings w project (g.arch.getD defaultArch) (some out)
  printReport report
  unless report.succeeded do throw (.buildFailed report.failed)

def check (g : Given) : CommandM Unit := do
  let project ← projectFolder g
  let w ← openWorkspace none
  let settings ← loadSettings g project
  print s!"🔍 Checking {project}"
  let report ← buildProject settings w project (g.arch.getD defaultArch) none
  for failure in report.failures do
    print s!"❌ {failure.sourcePath} - {failure.message}"
  printReport report
  if report.succeeded then print "✅ No issues found"
  else throw (.buildFailed report.failed)

/-- How a run of the program ends. -/
structure Outcome where
  exitCode : Nat
  /-- The line that tells of a failure. -/
  failure : Option String
  console : Console

def failureText : Error → String
  | .io fault => s!"IO Error: {fault.message}"
  | e => s!"Build failed: {e.message}"

def helpText : String :=
  "Usage: cssmc [-c FILE] [-v] build [PROJECT] [-o DIR] [--arch ARCH] [--no-cache]\n" ++
    "       cssmc [-c FILE] [-v] check [PROJECT] [--arch ARCH]"

def versionText : String :=
  "cssmc 0.1.0"

def act (a : Arguments) : CommandM Unit :=
  match a.command with
  | some .build => build a.given
  | some .check => check a.given
  | none => print "No subcommand specified. Use --help for usage information."

/-- Runs the program once. -/
def run (disk : Disk) (args : List String) : Outcome :=
  match parse args with
  | .error .usage => ⟨2, some helpText, { disk }⟩
  | .error .help => ⟨0, none, { disk, printed := [.line helpText] }⟩
  | .error .version => ⟨0, none, { disk, printed := [.line versionText] }⟩
  | .ok a =>
    let (result, console) := (act a).run.run { disk }
    match result with
    | .ok () => ⟨0, none, console⟩
    | .error e => ⟨1, some (failureText e), console⟩

end ScopedCss.CommandLine
