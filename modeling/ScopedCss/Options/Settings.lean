import ScopedCss.Dialect.Registry
import ScopedCss.Json.Parser
import ScopedCss.Json.Printer
import ScopedCss.Options.Basic

/-!
Settings: options for a project in a base folder, with all patterns compiled and the prelude put
together. Everything in a build depends on the options through its settings.

The prelude is text in front of every style sheet that a build reads. It defines the global
variables, whether they are given in the options or in files, and ends with the text of the options.
-/

namespace ScopedCss.Options

/-- Strings stand for themselves, and other values for their JSON text. -/
def variableValue : Json → String
  | .string s => s
  | j => j.compact

def defineVariables (fields : List (String × Json)) : String :=
  String.join (fields.map fun (name, value) => s!"${name}: {variableValue value};\n")

/-- The definitions in a file: those of a JSON object, and the text of any other file. -/
def fileSection (disk : Disk) (base file : String) : Except Error String := do
  let path := if Path.isAbsolute file then file else base ++ "/" ++ file
  match disk.read path with
  | .error fault => throw (.fileNotFound s!"Global variables file {path}: {fault.message}")
  | .ok text =>
    if Path.extension file = ".json" then
      match (Json.parse? text).map Json.sorted with
      | some (.object fields) => pure (defineVariables fields)
      | some _ => throw (.invalidFormat s!"Global variables file {path} must contain an object")
      | none => throw (.invalidFormat s!"Invalid JSON in global variables file {path}")
    else
      pure text

def preludeSection (disk : Disk) (base : String) : Json → Except Error String
  | .object fields => pure (defineVariables fields)
  | .string file => fileSection disk base file
  | j =>
    throw (.invalidFormat <|
      "globalVariables entries must be objects or file paths, got " ++ j.compact)

/-- The sections of the prelude, one to a line. -/
def prelude (o : Options) (disk : Disk) (base : String) : Except Error String := do
  let sections ← o.globalVariables.mapM (preludeSection disk base)
  let text := if o.globalText = "" then [] else [o.globalText]
  pure ("\n".intercalate (sections ++ text))

end ScopedCss.Options

namespace ScopedCss

structure Settings where
  options : Options
  base : String
  ignored : List Pattern
  included : List Pattern
  passthrough : List Pattern
  replacements : List Replacement
  sass : Toggle
  stylus : Toggle
  less : Toggle
  prelude : String
  /-- Tells settings apart from one build to the next. -/
  hash : String
deriving Repr

namespace Options

/-- Test and example files that come with packages are never built by default. -/
def ignoredByDefault : String :=
  "node_modules/.+/(test|tests|doc|docs|example|examples)/"

/-- A toggle takes effect if one of its extensions is built at all and there is a renderer. -/
def effective (o : Options) (renderers : Renderers) (dialect : Dialect) (toggle : Toggle) :
    Toggle :=
  let wanted := match toggle with
    | .enabled on => on
    | .extensions l => l.any o.extensions.contains
  if wanted && renderers.contains dialect.name then toggle else .off

/-- What the hash of settings is taken of. -/
def hashedText (o : Options) (prelude : String) : String :=
  o.toJson.compact ++ "\n" ++ prelude

def settle (o : Options) (disk : Disk) (base : String) (renderers : Renderers) :
    Except Error Settings := do
  let base := String.ofList (Text.dropWhileEnd (· == '/') (Path.forwardSlashes base).toList)
  let prelude ← o.prelude disk base
  let always ← Pattern.compile ignoredByDefault ""
  let ignored ← o.ignored.mapM PatternSpec.compile
  let included ← o.included.mapM PatternSpec.compile
  let passthrough ← o.passthrough.mapM PatternSpec.compile
  let replacements ← o.replacements.mapM ReplacementSpec.compile
  pure
    { options := o
      base, included, passthrough, replacements, prelude
      ignored := always :: ignored
      sass := o.effective renderers .sass o.sass
      stylus := o.effective renderers .stylus o.stylus
      less := o.effective renderers .less o.less
      hash := fingerprint (o.hashedText prelude) }

end Options

/-- Whether one of the patterns matches somewhere in the text. -/
def Pattern.anyMatch (patterns : List Pattern) (text : String) : Bool :=
  patterns.any (·.isMatch text)

namespace Settings

/-- A text with the prelude and an empty line in front of it. -/
def withPrelude (s : Settings) (text : String) : String :=
  if s.prelude = "" then text else s.prelude ++ "\n\n" ++ text

def preludeLines (s : Settings) : Nat :=
  if s.prelude = "" then 0 else Text.lineCount s.prelude.toList

/-- How many lines the prelude moves a text down. -/
def preludeOffset (s : Settings) : Nat :=
  if s.preludeLines = 0 then 0 else s.preludeLines + 1

/-- Whether a path has one of the extensions that are built. -/
def handles (s : Settings) (path : String) : Bool :=
  s.options.extensions.any fun e => Text.endsWith ('.' :: e.toList) (Path.basename path).toList

def isClient (s : Settings) (arch : String) : Bool :=
  Text.startsWith s.options.clientArch.toList arch.toList

/-- The dialects that are rendered, in the order in which they are asked, with their toggles. -/
def dialects (s : Settings) : List (Dialect × Toggle) :=
  [(.sass, s.sass), (.stylus, s.stylus), (.less, s.less)].filter (·.2.isOn)

/-- Whether a file is built: it is included, or not ignored. -/
def keeps (s : Settings) (path : String) : Bool :=
  Pattern.anyMatch s.included path || !Pattern.anyMatch s.ignored path

end Settings

end ScopedCss
