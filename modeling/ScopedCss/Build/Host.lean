import ScopedCss.Error
import ScopedCss.Log
import ScopedCss.Path.Basic

/-!
The files that a build is asked for, and what it hands back with each: style sheets, scripts and
errors.
-/

namespace ScopedCss

structure SheetArtifact where
  data : String
  path : String
  sourcePath : String
  sourceMap : Option String
  isLazy : Bool
deriving DecidableEq, Repr

structure ScriptArtifact where
  data : String
  path : String
  sourcePath : String
  isLazy : Bool
  isBare : Bool
deriving DecidableEq, Repr

structure FileError where
  message : String
  sourcePath : String
deriving DecidableEq, Repr

structure HostFile where
  /-- The path in its package or in the project. -/
  place : String
  arch : String
  contents : String
  package : Option String := none
  isImport : Option Bool := none
  sheets : List SheetArtifact := []
  scripts : List ScriptArtifact := []
  errors : List FileError := []
deriving DecidableEq, Repr

namespace HostFile

def ofText (place arch contents : String) : HostFile where
  place := Path.forwardSlashes place
  arch := arch
  contents := contents

/-- The file at a place below a folder. -/
def load (disk : Disk) (folder place arch : String) : Except Error HostFile :=
  match disk.read (Path.join folder place) with
  | .ok contents => pure (ofText place arch contents)
  | .error fault => throw (.io fault)

def hasErrors (f : HostFile) : Bool :=
  !f.errors.isEmpty

/-- A file with more artifacts. -/
def emit (f : HostFile) (sheets : List SheetArtifact) (scripts : List ScriptArtifact) : HostFile :=
  { f with sheets := f.sheets ++ sheets, scripts := f.scripts ++ scripts }

def addError (f : HostFile) (e : FileError) : HostFile :=
  { f with errors := f.errors ++ [e] }

end HostFile

/-- What is reported when a file has an error. -/
def FileError.logEntry (e : FileError) : LogEntry :=
  ⟨.error, s!"{e.sourcePath}: {e.message}"⟩

end ScopedCss
