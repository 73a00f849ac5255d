import ScopedCss.Options.Decode
import ScopedCss.Json.Parser
import ScopedCss.Toml.Parser

/-!
Configuration files: JSON, TOML, or the section of a package manifest.
-/

namespace ScopedCss.Options

def ofManifest (text : String) : Except Error Options :=
  match (Json.parse? text).map Json.sorted with
  | none => throw (.invalidFormat "Invalid package.json")
  | some manifest =>
    match manifest.field? "cssModules" with
    | none => pure {}
    | some j =>
      match ofJson? j with
      | some o => pure o
      | none => throw (.invalidFormat "Invalid cssModules options")

/-- The options in the text of a file. Its name tells the format. -/
def ofFile (path text : String) : Except Error Options :=
  if (Path.segments path).getLast? = some "package.json".toList then
    ofManifest text
  else if Text.endsWith ".json".toList path.toList then
    match Json.parse? text >>= ofJson? with
    | some o => pure o
    | none => throw (.invalidFormat "Invalid JSON config")
  else if Text.endsWith ".toml".toList path.toList then
    match (Toml.parse? text).map Toml.toJson >>= ofJson? with
    | some o => pure o
    | none => throw (.invalidFormat "Invalid TOML config")
  else
    throw (.invalidFormat "Config file must be .json, .toml or package.json")

def load (disk : Disk) (path : String) : Except Error Options :=
  match disk.read path with
  | .ok text => ofFile path text
  | .error fault => throw (.fileNotFound s!"Config file {path}: {fault.message}")

end ScopedCss.Options
