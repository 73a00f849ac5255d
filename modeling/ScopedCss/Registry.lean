import ScopedCss.Options.Settings
import ScopedCss.Source

/-!
The style sheets that a build knows, one to a path. One that is only referred to is read from disk
when it is asked for first.
-/

namespace ScopedCss

structure Registry where
  sources : Dict Source
  base : String
  prelude : String
  /-- The architecture of files read from disk. -/
  arch : String
deriving Repr

namespace Registry

def ofSettings (s : Settings) (arch : String) : Registry where
  sources := ∅
  base := s.base
  prelude := s.prelude
  arch := arch

def get? (r : Registry) (path : String) : Option Source :=
  r.sources.get? path

def contains (r : Registry) (path : String) : Bool :=
  r.sources.contains path

def insertAt (r : Registry) (path : String) (source : Source) : Registry :=
  { r with sources := r.sources.insert path source }

def insert (r : Registry) (source : Source) : Registry :=
  r.insertAt source.path source

/-- Registered, or a file on disk. -/
def knows (r : Registry) (disk : Disk) (path : String) : Bool :=
  r.contains path || disk.isFile path

def placeOf (r : Registry) (path : String) : String :=
  match Text.dropPrefix? r.base.toList path.toList with
  | some rest => .ofList (rest.dropWhile (· == '/'))
  | none => path

/-- A file on disk with the text `raw`. -/
def sourceOf (r : Registry) (path raw : String) : Source where
  path := Path.forwardSlashes path
  place := r.placeOf path
  arch := r.arch
  raw := raw
  contents := if r.prelude = "" then raw else r.prelude ++ "\n\n" ++ raw

/-- The file at a path, which is registered if it is not yet. -/
def fetch (r : Registry) (disk : Disk) (path : String) : Except Error (Source × Registry) :=
  match r.get? path with
  | some source => pure (source, r)
  | none =>
    match disk.read path with
    | .ok raw =>
      let source := r.sourceOf path raw
      pure (source, r.insertAt path source)
    | .error fault =>
      throw (.resolution path s!"unable to read file: {fault.message}" [path])

/-- The first of the paths that is registered, or else the first that is a file. -/
def fetchFirst (r : Registry) (disk : Disk) (specifier : String) (paths : List String) :
    Except Error (Source × Registry) :=
  match paths.find? r.contains <|> paths.find? disk.isFile with
  | some path => r.fetch disk path
  | none => throw (.resolution specifier "file not found" paths)

/-- The fingerprint of the text of a file, if it can be read. -/
def hashOf (r : Registry) (disk : Disk) (path : String) : Option String × Registry :=
  match r.fetch disk path with
  | .ok (source, r) => (some (fingerprint source.raw), r)
  | .error _ => (none, r)

end Registry

end ScopedCss
