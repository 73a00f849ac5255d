import ScopedCss.Dict
import ScopedCss.Path.Basic

/-!
The files a build can see: a tree of folders and texts, as a value. Paths are walked segment by
segment, so that `a/../b` is there only if the folder `a` is.
-/

namespace ScopedCss

/-- Why a path could not be read or written. -/
inductive DiskFault
  | notFound
  | notAFolder
  | isAFolder
  | alreadyExists
  | nameTooLong
  | zeroByte
deriving DecidableEq, Repr

namespace DiskFault

def message : DiskFault → String
  | notFound => "No such file or directory (os error 2)"
  | notAFolder => "Not a directory (os error 20)"
  | isAFolder => "Is a directory (os error 21)"
  | alreadyExists => "File exists (os error 17)"
  | nameTooLong => "File name too long (os error 36)"
  | zeroByte => "file name contained an unexpected NUL byte"

end DiskFault

/-- Files and folders are keyed by canonical absolute path. The root folder is always there, and
relative paths start in `cwd`. -/
structure Disk where
  files : Dict String
  folders : List String
  cwd : String
deriving DecidableEq, Repr

namespace Disk

/-- The folder of a canonical path, and its name there. Only forward slashes separate. -/
def parent (path : String) : String :=
  Path.ofSegments true ((Path.segments path).filter (· ≠ [])).dropLast

def nameIn (path : String) : String :=
  .ofList (((Path.segments path).getLast?).getD [])

/-- What stands at a place. -/
inductive Entry
  | file (text : String)
  | folder
  | missing
deriving DecidableEq, Repr

def empty : Disk where
  files := ∅
  folders := []
  cwd := "/"

def entry (disk : Disk) (path : String) : Entry :=
  match disk.files.get? path with
  | some text => .file text
  | none => if path = "/" ∨ path ∈ disk.folders then .folder else .missing

/-- One step down from the canonical path `here`. -/
def step (disk : Disk) (here : String) (s : Path.Segment) : Except DiskFault String :=
  match disk.entry here with
  | .missing => throw .notFound
  | .file _ => throw .notAFolder
  | .folder =>
    if s = [] ∨ s = ['.'] then
      pure here
    else if s = ['.', '.'] then
      pure (parent here)
    else if 255 < (String.ofList s).utf8ByteSize then
      throw .nameTooLong
    else
      pure (Path.ofSegments true ((Path.segments here).filter (· ≠ []) ++ [s]))

/-- A path has fewer bytes. -/
def maxPathLength : Nat :=
  4096

/-- The canonical path that a path leads to; only its last segment may be missing. -/
def locate (disk : Disk) (path : String) : Except DiskFault String :=
  if path = "" then
    throw .notFound
  else if path.toList.contains '\x00' then
    throw .zeroByte
  else if maxPathLength ≤ path.utf8ByteSize then
    throw .nameTooLong
  else
    let start := if Path.isRooted path then "/" else disk.cwd
    (Path.segments path).foldlM disk.step start

def entryAt (disk : Disk) (path : String) : Entry :=
  match disk.locate path with
  | .ok here => disk.entry here
  | .error _ => .missing

def exists? (disk : Disk) (path : String) : Bool :=
  disk.entryAt path != .missing

def isFile (disk : Disk) (path : String) : Bool :=
  match disk.entryAt path with
  | .file _ => true
  | _ => false

def isFolder (disk : Disk) (path : String) : Bool :=
  disk.entryAt path == .folder

def read (disk : Disk) (path : String) : Except DiskFault String := do
  let here ← disk.locate path
  match disk.entry here with
  | .file text => pure text
  | .folder => throw .isAFolder
  | .missing => throw .notFound

/-- The folders above a canonical path, outermost first. -/
def ancestors (path : String) : List String :=
  let segments := (Path.segments path).filter (· ≠ [])
  (List.range segments.length).tail.map fun n => Path.ofSegments true (segments.take n)

def addFolders (disk : Disk) (folders : List String) : Disk :=
  { disk with folders := folders.foldl (fun l f => if f ∈ l then l else l ++ [f]) disk.folders }

/-- A file at a canonical path, with the folders it needs. -/
def place (disk : Disk) (path text : String) : Disk :=
  { disk.addFolders (ancestors path) with files := disk.files.insert path text }

def write (disk : Disk) (path text : String) : Except DiskFault Disk := do
  let here ← disk.locate path
  match disk.entry here with
  | .folder => throw .isAFolder
  | .file _ => pure { disk with files := disk.files.insert here text }
  | .missing =>
    if disk.entry (parent here) = .folder then
      pure { disk with files := disk.files.insert here text }
    else
      throw .notFound

/-- One step down that makes the folder it leads to where nothing is. -/
def descend (state : Disk × String) (s : Path.Segment) : Except DiskFault (Disk × String) := do
  let next ← state.1.step state.2 s
  match state.1.entry next with
  | .missing => pure (state.1.addFolders [next], next)
  | _ => pure (state.1, next)

/-- A folder and all folders above it, unless a file stands in the way. -/
def createFolders (disk : Disk) (path : String) : Except DiskFault Disk := do
  let start := if Path.isRooted path then "/" else disk.cwd
  let (disk, here) ← (Path.segments path).foldlM descend (disk, start)
  match disk.entry here with
  | .file _ => throw .alreadyExists
  | _ => pure disk

def remove (disk : Disk) (path : String) : Except DiskFault Disk := do
  let here ← disk.locate path
  match disk.entry here with
  | .file _ => pure { disk with files := disk.files.erase here }
  | .folder => throw .isAFolder
  | .missing => throw .notFound

/-- The names in a canonical folder, in the order of their characters. -/
def list (disk : Disk) (folder : String) : List String :=
  let inside (path : String) : Option String :=
    if path ≠ "/" ∧ parent path = folder then some (nameIn path) else none
  ((disk.files.keys ++ disk.folders).filterMap inside).mergeSort (· ≤ ·)

/-- The names in the folder that a path leads to; none if it leads to no folder. -/
def names (disk : Disk) (path : String) : List String :=
  match disk.locate path with
  | .ok here => if disk.entry here = .folder then disk.list here else []
  | .error _ => []

/-- All files below a folder, in the order of their names, with those of a folder in its place.
`enters` tells from the path whether what stands there is looked at. -/
def walk (disk : Disk) (enters : String → Bool) : (depth : Nat) → (path : String) → List String
  | 0, _ => []
  | depth + 1, path =>
    match disk.entryAt path with
    | .missing => []
    | .file _ => [path]
    | .folder =>
      (((disk.names path).map (Path.join path)).filter enters).flatMap (disk.walk enters depth)

/-- All files below a folder. -/
def filesBelow (disk : Disk) (enters : String → Bool) (folder : String) : List String :=
  disk.walk enters (disk.folders.length + 2) folder

end Disk

end ScopedCss
