import ScopedCss.Build.Compiler

/-!
Projects on disk: which files are built, and where their artifacts are written.
-/

namespace ScopedCss

/-- Whether a canonical path is a folder or lies below it. -/
def Path.isWithin (folder path : String) : Bool :=
  path == folder || Text.startsWith (Path.join folder "").toList path.toList

/-- The files of a project that are built. Names that begin with a dot, and the folder `out` with
the artifacts, are passed over. -/
def HostFile.scan (disk : Disk) (project : String) (s : Settings) (arch : String)
    (out : Option String) : Except Error (List HostFile) :=
  let enters (path : String) : Bool :=
    (Disk.nameIn path).toList.head? != some '.' && !out.any (Path.isWithin · path)
  let below := (disk.filesBelow enters project).filterMap fun path =>
    (Text.dropPrefix? (Path.join project "").toList path.toList).map fun place =>
      Path.forwardSlashes (.ofList place)
  (below.filter s.handles).mapM fun place => HostFile.load disk project place arch

/-- The path of an artifact from the folder for artifacts on. -/
def artifactPlace (base path : String) : String :=
  let path := (Path.forwardSlashes path).toList
  let path := (Text.dropPrefix? base.toList path).getD path
  .ofList ((dropDots path).dropWhile (· == '/'))
where
  dropDots : List Char → List Char
    | '.' :: '/' :: rest => dropDots rest
    | s => s

/-- The files to write for a built one: each style sheet with its source map, and each script. -/
def HostFile.outputs (base out : String) (f : HostFile) : List (String × String) :=
  let target (path : String) : String := Path.join out (artifactPlace base path)
  let sheets := f.sheets.flatMap fun a =>
    (target a.path, a.data) :: (a.sourceMap.map (target a.path ++ ".map", ·)).toList
  sheets ++ f.scripts.map fun a => (target a.path, a.data)

end ScopedCss
