import ScopedCss.Error
import ScopedCss.Json.Parser
import ScopedCss.Text.Quoted

/-!
Import specifiers and the files they name. Specifiers come in these forms:

- `~module/file.css`, and `~module` for the main entry of an installed module;
- `/file.css`, from the base folder of the project;
- `{}/file.css` and `{package}/file.css`, `{scope:package}/file.css`, from a package;
- `./file.css`, `../file.css` and `file.css`, from the folder of the importing file.
-/

namespace ScopedCss

/-- What a specifier comes to before anything is looked up. -/
inductive ImportTarget
  /-- A canonical path. -/
  | path (p : String)
  /-- The main entry that the manifest of the module in this folder names. -/
  | mainEntry (folder : String)
  /-- The first of these canonical paths that exists. -/
  | firstExisting (candidates : List String)
  | unterminatedPackage
deriving DecidableEq, Repr

namespace ImportTarget

/-- The paths that are asked for, up to the first that exists. -/
def probes (present : String → Bool) : ImportTarget → List String
  | firstExisting candidates =>
    candidates.takeWhile (!present ·) ++ (candidates.find? present).toList
  | _ => []

/-- The text of the `main` field of a manifest. -/
def mainField? (manifest : String) : Option (Option String) :=
  (Json.parse? manifest).map fun j => j.sorted.field? "main" >>= Json.string?

def settle (target : ImportTarget) (specifier : String) (disk : Disk) (present : String → Bool) :
    Except Error String :=
  match target with
  | path p => pure p
  | unterminatedPackage => throw (.resolution specifier "unterminated package segment" [])
  | firstExisting candidates =>
    match candidates.find? present with
    | some p => pure p
    | none => throw (.resolution specifier "path does not exist" candidates)
  | mainEntry folder =>
    let manifest := folder ++ "/package.json"
    match disk.read manifest with
    | .error fault =>
      throw (.resolution specifier s!"unable to read package manifest: {fault.message}" [manifest])
    | .ok text =>
      match mainField? text with
      | none => throw (.resolution specifier s!"invalid package manifest {manifest}" [])
      | some none => throw (.resolution specifier s!"no \"main\" entry in {manifest}" [])
      | some (some entry) => pure (Path.clean (folder ++ "/" ++ entry))

end ImportTarget

/-- Resolves specifiers within the project in a base folder. -/
structure Resolver where
  base : String
deriving DecidableEq, Repr

namespace Resolver

def ofBase (base : String) : Resolver where
  base := .ofList (Text.dropWhileEnd (· == '/') (Path.forwardSlashes base).toList)

/-- Relative paths start in the base folder. -/
def absolute (r : Resolver) (path : String) : String :=
  if Path.isAbsolute path then Path.clean path else Path.clean (r.base ++ "/" ++ path)

/-- A path that begins with the base folder, from there; any other as it is. -/
def fromBase (r : Resolver) (path : String) : String :=
  let path := Path.forwardSlashes path
  match Text.dropPrefix? r.base.toList path.toList with
  | some rest => .ofList ('/' :: rest.dropWhile (· == '/'))
  | none => path

/-- The place of a file of the project, or of one of its packages. -/
def inPackage (r : Resolver) (package : Option String) (path : String) : String :=
  match package with
  | none => Path.clean (r.base ++ "/" ++ path)
  | some name =>
    let folder := String.ofList (Text.replaceChar ':' ['_'] name.toList)
    Path.clean (r.base ++ "/packages/" ++ folder ++ "/" ++ path)

/-- A name without the first colon, which becomes an underscore. -/
def joinScope (name : List Char) : List Char :=
  match Text.cut? (· == ':') name with
  | some (scope, _, rest) => scope ++ '_' :: rest
  | none => name

/-- A name without its scope, that is from the last colon on. -/
def dropScope (name : List Char) : List Char :=
  Text.takeWhileEnd (· != ':') name

/-- What a path that starts with a package in braces comes to. -/
def packageTarget (r : Resolver) (path : List Char) : ImportTarget :=
  match Text.cut? (· == '\x7d') path with
  | none => .unterminatedPackage
  | some (['\x7b'], _, rest) => .path (Path.clean (r.base ++ "/" ++ .ofList rest))
  | some (opened, _, rest) =>
    let inFolder (name : List Char) : String :=
      let rest := rest.dropWhile (· == '/')
      Path.clean (r.base ++ "/packages/" ++ .ofList name ++ "/" ++ .ofList rest)
    let joined := inFolder (joinScope opened.tail)
    let unscoped := inFolder (dropScope opened.tail)
    .firstExisting (if unscoped = joined then [joined] else [joined, unscoped])

def moduleTarget (r : Resolver) (module : List Char) : ImportTarget :=
  let folder := r.base ++ "/node_modules/" ++ .ofList module
  if module.contains '/' then .path (Path.clean folder) else .mainEntry folder

/-- The part of a text from its first opening brace on. -/
def fromBrace? (s : List Char) : Option (List Char) :=
  (Text.cut? (· == '\x7b') s).map fun (_, c, rest) => c :: rest

/-- An importing file inside a package is named from the package on. -/
def importer (path : String) : String :=
  let path := Path.forwardSlashes path
  ((fromBrace? path.toList).map String.ofList).getD path

def target (r : Resolver) (specifier importing : String) : ImportTarget :=
  let spec := (Path.forwardSlashes (.ofList (Text.unquote (Text.trim specifier.toList)))).toList
  match spec with
  | '~' :: module => r.moduleTarget module
  | '/' :: rooted => .path (r.absolute (.ofList rooted))
  | '\x7b' :: _ => r.packageTarget spec
  | _ =>
    let path :=
      if Path.isAbsolute (.ofList spec) then
        String.ofList spec
      else
        let spec := if spec.head? = some '.' then spec else '.' :: '/' :: spec
        Path.dirname (importer importing) ++ "/" ++ .ofList spec
    match fromBrace? path.toList with
    | some braced => r.packageTarget braced
    | none => .path (Path.clean path)

/-- The canonical path of the file that a specifier names. -/
def resolve (r : Resolver) (disk : Disk) (present : String → Bool) (specifier importing : String) :
    Except Error String :=
  (r.target specifier importing).settle specifier disk present

end Resolver

end ScopedCss
