import ScopedCss.Json.Printer
import ScopedCss.Source

/-!
What a built file comes to, and the script for it: imports of what it is composed of, the style
sheet where it is added when the script runs, and the exported names.
-/

namespace ScopedCss

structure Compiled where
  isLazy : Bool
  place : String
  imports : List String
  css : String
  sourceMap : Option Json
  tokens : Option Tokens
  importsCode : String
  sheetCode : String
  tokensCode : String
deriving Repr

namespace Compiled

def quotePath (path : String) : String :=
  .ofList (Text.replaceChar '\'' ['\\', '\''] (Text.replaceChar '\\' ['\\', '\\'] path.toList))

def importsText (imports : List String) : String :=
  "\n".intercalate (imports.map fun path => s!"import '{quotePath path}';")

def sheetText (css : String) : String :=
  "import modules from 'meteor/modules';\nmodules.addStyles(" ++ (Json.string css).compact ++ ");"

def tokensText (tokens : Tokens) : String :=
  "const styles = " ++ (Json.ofDict tokens).compact ++
    ";\nexport \x7b styles as default, styles \x7d;"

/-- The style sheet is added by the script of a lazy file on a client. -/
def ofSource (source : Source) (client : Bool) : Compiled :=
  let isLazy := isLazyPath source.place
  { isLazy
    place := source.place
    imports := source.imports
    css := source.contents
    sourceMap := source.sourceMap
    tokens := source.tokens
    importsCode := importsText source.imports
    sheetCode := if isLazy && client && source.contents != "" then sheetText source.contents else ""
    tokensCode := (source.tokens.map tokensText).getD "" }

/-- The script of a file. Only clients add style sheets. -/
def script (c : Compiled) (client : Bool) : String :=
  let sections := [c.importsCode, if client then c.sheetCode else "", c.tokensCode]
  "\n".intercalate (sections.filter (· ≠ ""))

end Compiled

end ScopedCss
