import ScopedCss.Json.Record
import ScopedCss.Options.Basic

/-!
Reading options from JSON. What is missing has its default; what has another type is refused.
-/

namespace ScopedCss

namespace Json

mutual

/-- Infinite numbers, and those that are none, have no JSON text but `null`. -/
def finite : Json → Json
  | number (.double x) => if x.isFinite then number (.double x) else null
  | array items => array (finiteItems items)
  | object fields => object (finiteFields fields)
  | j => j

def finiteItems : List Json → List Json
  | [] => []
  | j :: rest => j.finite :: finiteItems rest

def finiteFields : List (String × Json) → List (String × Json)
  | [] => []
  | (n, j) :: rest => (n, j.finite) :: finiteFields rest

end

end Json

def Toggle.ofJson? : Json → Option Toggle
  | .bool on => some (enabled on)
  | j => j.strings?.map extensions

def PatternSpec.ofJson? : Json → Option PatternSpec
  | .string pattern => some (text pattern)
  | j => j.strings?.map parts

def ReplacementSpec.ofJson? : Json → Option ReplacementSpec
  | .string pattern => some (text pattern)
  | j => j.strings?.map parts

def OutputTemplate.ofJson? : Json → Option OutputTemplate
  | .string template => some (single template)
  | j => j.texts?.map fun l => byPattern (.ofList l)

namespace Options

/-- The names of the fields, in order. -/
def fieldNames : List String :=
  ["cssClassNamingConvention", "enableProfiling", "enableSassCompilation",
    "enableStylusCompilation", "enableLessCompilation", "explicitIncludes", "extensions",
    "globalVariables", "globalVariablesText", "ignorePaths", "includePaths",
    "jsClassNamingConvention", "outputJsFilePath", "outputCssFilePath", "passthroughPaths",
    "specificArchitecture", "cache"]

def variables? : Json → Option (List Json) :=
  Json.listOf? fun j => some j.finite.sorted

def patterns? : Json → Option (List PatternSpec) :=
  Json.listOf? PatternSpec.ofJson?

def ofJson? (j : Json) : Option Options := do
  let o : Options := {}
  let r ← j.record? fieldNames
  let classNames ← r.getD "cssClassNamingConvention"
    (Json.record? ["replacements", "template"]) []
  let scriptNames ← r.getD "jsClassNamingConvention" (Json.record? ["camelCase"]) []
  let cache ← r.getD "cache" (Json.record? ["enableCache"]) []
  pure
    { replacements :=
        ← classNames.getD "replacements" (Json.listOf? ReplacementSpec.ofJson?) o.replacements
      template := ← classNames.getD "template" (Json.nullable? Json.string?) o.template
      profiling := ← r.getD "enableProfiling" Json.bool? o.profiling
      sass := ← r.getD "enableSassCompilation" Toggle.ofJson? o.sass
      stylus := ← r.getD "enableStylusCompilation" Toggle.ofJson? o.stylus
      less := ← r.getD "enableLessCompilation" Toggle.ofJson? o.less
      includedFolders := ← r.getD "explicitIncludes" Json.strings? o.includedFolders
      extensions := ← r.getD "extensions" Json.strings? o.extensions
      globalVariables := ← r.getD "globalVariables" variables? o.globalVariables
      globalText := ← r.getD "globalVariablesText" Json.string? o.globalText
      ignored := ← r.getD "ignorePaths" patterns? o.ignored
      included := ← r.getD "includePaths" patterns? o.included
      camelCase := ← scriptNames.getD "camelCase" Json.bool? o.camelCase
      scriptPath := ← r.getD "outputJsFilePath" OutputTemplate.ofJson? o.scriptPath
      sheetPath := ← r.getD "outputCssFilePath" OutputTemplate.ofJson? o.sheetPath
      passthrough := ← r.getD "passthroughPaths" patterns? o.passthrough
      clientArch := ← r.getD "specificArchitecture" Json.string? o.clientArch
      caching := ← cache.getD "enableCache" Json.bool? o.caching }

end Options

end ScopedCss
