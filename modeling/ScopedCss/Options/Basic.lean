import ScopedCss.Error
import ScopedCss.Json.Basic
import ScopedCss.Naming.Basic
import ScopedCss.Pattern.Parser
import ScopedCss.Text.Listing

/-!
The options of a build, as they are written in a configuration file. As JSON there are all of them,
in a fixed order.
-/

namespace ScopedCss

/-- Whether a dialect is rendered: for all of its files or none, or for those with certain
endings. -/
inductive Toggle
  | enabled (on : Bool)
  | extensions (l : List String)
deriving DecidableEq, Repr

namespace Toggle

def off : Toggle :=
  enabled false

def isOn : Toggle → Bool
  | enabled on => on
  | extensions l => !l.isEmpty

def covers (path : String) : Toggle → Bool
  | enabled on => on
  | extensions l => l.any fun e => Text.endsWith e.toList path.toList

end Toggle

/-- The pattern with the flags `i` (letters of either case) and `m` (lines). -/
def Pattern.compile (text flags : String) : Except Error Pattern :=
  let flags := flags.toList
  let start := { Pattern.Flags.default with
    ignoreCase := flags.contains 'i', multiLine := flags.contains 'm' }
  match Pattern.parse? start text with
  | some p => pure p
  | none => throw (.invalidFormat s!"Invalid pattern '{text}'")

/-- A pattern for paths: a regular expression, or a list of one and its flags. -/
inductive PatternSpec
  | text (pattern : String)
  | parts (l : List String)
deriving DecidableEq, Repr

def PatternSpec.compile : PatternSpec → Except Error Pattern
  | text pattern | parts [pattern] => Pattern.compile pattern ""
  | parts [pattern, flags] => Pattern.compile pattern flags
  | parts l =>
    throw (.invalidFormat
      s!"Path pattern must be a string or [pattern, flags], got {Text.showTexts l}")

/-- A rule for class names: what matches is removed, or replaced by the last part. The flag `g`
stands for all matches in place of the first. -/
inductive ReplacementSpec
  | text (pattern : String)
  | parts (l : List String)
deriving DecidableEq, Repr

namespace ReplacementSpec

def compileRule (pattern flags replacement : String) : Except Error Replacement := do
  let compiled ← Pattern.compile pattern flags
  pure ⟨compiled, replacement, flags.toList.contains 'g'⟩

def compile : ReplacementSpec → Except Error Replacement
  | text pattern | parts [pattern] => compileRule pattern "" ""
  | parts [pattern, replacement] => compileRule pattern "" replacement
  | parts [pattern, flags, replacement] => compileRule pattern flags replacement
  | parts l =>
    throw (.invalidFormat <|
      "Replacement must be a string or [pattern, (flags,) replacement], got " ++ Text.showTexts l)

end ReplacementSpec

/-- Where artifacts go: one template, or one for each pattern and a `default`. -/
inductive OutputTemplate
  | single (template : String)
  | byPattern (templates : SortedDict String)
deriving DecidableEq, Repr

/-- The path itself. -/
def OutputTemplate.identityText : String :=
  "\x7bdirname\x7d/\x7bbasename\x7d\x7bextname\x7d"

structure Options where
  replacements : List ReplacementSpec := []
  template : Option String := none
  profiling : Bool := false
  sass : Toggle := .extensions ["scss", "sass"]
  stylus : Toggle := .extensions ["styl", "m.styl"]
  less : Toggle := .off
  /-- Folders whose style sheets are built as well. -/
  includedFolders : List String := []
  extensions : List String := ["css", "m.css", "mss"]
  globalVariables : List Json := []
  globalText : String := ""
  ignored : List PatternSpec := []
  included : List PatternSpec := []
  camelCase : Bool := false
  scriptPath : OutputTemplate := .single OutputTemplate.identityText
  sheetPath : OutputTemplate := .single OutputTemplate.identityText
  passthrough : List PatternSpec := []
  /-- What the names of client architectures begin with. -/
  clientArch : String := "web"
  caching : Bool := true
deriving Repr

instance : Inhabited Options := ⟨{}⟩

end ScopedCss

namespace ScopedCss

open Json (ofStrings)

def Toggle.toJson : Toggle → Json
  | enabled on => .bool on
  | extensions l => ofStrings l

def PatternSpec.toJson : PatternSpec → Json
  | text pattern => .string pattern
  | parts l => ofStrings l

def ReplacementSpec.toJson : ReplacementSpec → Json
  | text pattern => .string pattern
  | parts l => ofStrings l

def OutputTemplate.toJson : OutputTemplate → Json
  | single template => .string template
  | byPattern templates => .object (templates.entries.map fun (k, v) => (k, .string v))

def Options.toJson (o : Options) : Json :=
  .object
    [("cssClassNamingConvention", .object
      [("replacements", .array (o.replacements.map (·.toJson))),
        ("template", (o.template.map Json.string).getD .null)]),
      ("enableProfiling", .bool o.profiling),
      ("enableSassCompilation", o.sass.toJson),
      ("enableStylusCompilation", o.stylus.toJson),
      ("enableLessCompilation", o.less.toJson),
      ("explicitIncludes", ofStrings o.includedFolders),
      ("extensions", ofStrings o.extensions),
      ("globalVariables", .array o.globalVariables),
      ("globalVariablesText", .string o.globalText),
      ("ignorePaths", .array (o.ignored.map (·.toJson))),
      ("includePaths", .array (o.included.map (·.toJson))),
      ("jsClassNamingConvention", .object [("camelCase", .bool o.camelCase)]),
      ("outputJsFilePath", o.scriptPath.toJson),
      ("outputCssFilePath", o.sheetPath.toJson),
      ("passthroughPaths", .array (o.passthrough.map (·.toJson))),
      ("specificArchitecture", .string o.clientArch),
      ("cache", .object [("enableCache", .bool o.caching)])]

end ScopedCss
