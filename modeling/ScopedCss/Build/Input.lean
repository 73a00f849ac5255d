import ScopedCss.Build.Host
import ScopedCss.Options.Settings
import ScopedCss.Path.Resolver
import ScopedCss.Source

/-!
The inputs of a build: files that it was asked for, and files from folders that the options include.
An included file is handed back with a file that the build was asked for, its backing.
-/

namespace ScopedCss

/-- A text to build, and where it comes from. -/
structure Input where
  place : String
  arch : String
  contents : String
  package : Option String
  isImport : Option Bool
deriving DecidableEq, Repr

namespace Input

def ofHost (f : HostFile) : Input where
  place := f.place
  arch := f.arch
  contents := f.contents
  package := f.package
  isImport := f.isImport

/-- The source of an input, with the text `contents`. -/
def source (i : Input) (s : Settings) (contents : String) : Source :=
  let resolver := Resolver.ofBase s.base
  { path :=
      if Path.isAbsolute i.place then resolver.absolute i.place
      else resolver.inPackage i.package i.place
    place := i.place
    arch := i.arch
    raw := contents
    contents := s.withPrelude contents
    isImport := i.isImport
    isLazy := isLazyPath i.place }

end Input

structure IncludedFile where
  path : String
  contents : String
deriving DecidableEq, Repr

/-- A file from an included folder, in a build for the architecture of its backing. -/
def IncludedFile.input (f : IncludedFile) (arch : String) : Input where
  place := f.path
  arch := arch
  contents := f.contents
  package := none
  isImport := none

/-- What is built: a file by its place among those asked for, or an included one. -/
inductive BuildUnit
  | host (index : Nat)
  | included (file : IncludedFile) (backing : Nat)
deriving DecidableEq, Repr

namespace BuildUnit

/-- Where the file is that the results are handed back with. -/
def handle : BuildUnit → Nat
  | host index => index
  | included _ backing => backing

def input? (files : List HostFile) (u : BuildUnit) : Option Input :=
  files[u.handle]?.map fun f =>
    match u with
    | host _ => .ofHost f
    | included file _ => file.input f.arch

/-- An error as it is handed back. -/
def handedError (e : FileError) : BuildUnit → FileError
  | host _ => e
  | included .. => { e with message := s!"Explicitly imported file error: {e.message}" }

end BuildUnit

namespace Settings

/-- The files of an included folder. -/
def includedFiles (s : Settings) (disk : Disk) (folder : String) :
    Except Error (List IncludedFile) := do
  let root := (Resolver.ofBase s.base).absolute folder
  if disk.isFolder root then
    let paths := (disk.filesBelow (fun _ => true) root).map Path.forwardSlashes
    (paths.filter s.handles).mapM fun path =>
      match disk.read path with
      | .ok contents => pure ⟨path, contents⟩
      | .error fault => throw (.discovery path (Error.io fault).message)
  else
    throw (.discovery root "explicit include folder does not exist")

end Settings

end ScopedCss
