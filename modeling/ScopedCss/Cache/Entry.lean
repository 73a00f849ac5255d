import ScopedCss.Json.Parser
import ScopedCss.Json.Record
import ScopedCss.Output.Compiled

/-!
Entries of the build cache, and their JSON text. An entry holds for one text of a file under one set
of settings, and while all files that it depends on have the fingerprints recorded with it.
-/

namespace ScopedCss

structure CacheEntry where
  path : String
  key : String
  result : Compiled
  /-- The fingerprint of each file that the result depends on. -/
  dependencies : SortedDict String
deriving Repr

namespace Json

def tokens? (j : Json) : Option Tokens :=
  j.texts?.map .ofList

/-- Fields in the order of their names, and numbers as they are. -/
def value? (j : Json) : Option Json :=
  some j.sorted

def orNull {α : Type u} (write : α → Json) : Option α → Json
  | some x => write x
  | none => null

end Json

namespace Compiled

def fieldNames : List String :=
  ["isLazy", "filePath", "imports", "stylesheet", "sourceMap", "tokens", "importsCode",
    "stylesheetCode", "tokensCode"]

def toJson (c : Compiled) : Json :=
  .object
    [("isLazy", .bool c.isLazy),
      ("filePath", .string c.place),
      ("imports", .ofStrings c.imports),
      ("stylesheet", .string c.css),
      ("sourceMap", Json.orNull id c.sourceMap),
      ("tokens", Json.orNull Json.ofDict c.tokens),
      ("importsCode", .string c.importsCode),
      ("stylesheetCode", .string c.sheetCode),
      ("tokensCode", .string c.tokensCode)]

def ofJson? (j : Json) : Option Compiled := do
  let r ← j.record? fieldNames
  pure
    { isLazy := ← r.need "isLazy" Json.bool?
      place := ← r.need "filePath" Json.string?
      imports := ← r.need "imports" Json.strings?
      css := ← r.need "stylesheet" Json.string?
      sourceMap := ← r.getD "sourceMap" (Json.nullable? Json.value?) none
      tokens := ← r.getD "tokens" (Json.nullable? Json.tokens?) none
      importsCode := ← r.need "importsCode" Json.string?
      sheetCode := ← r.need "stylesheetCode" Json.string?
      tokensCode := ← r.need "tokensCode" Json.string? }

end Compiled

namespace CacheEntry

/-- What an entry is asked for: the settings and the text that it is the result of. -/
def keyOf (settingsHash sourceHash : String) : String :=
  settingsHash ++ "..." ++ sourceHash

def toJson (e : CacheEntry) : Json :=
  .object
    [("path", .string e.path),
      ("key", .string e.key),
      ("result", e.result.toJson),
      ("referencedImports", .object (e.dependencies.entries.map fun (k, v) => (k, .string v)))]

def ofJson? (j : Json) : Option CacheEntry := do
  let r ← j.record? ["path", "key", "result", "referencedImports"]
  pure
    { path := ← r.need "path" Json.string?
      key := ← r.need "key" Json.string?
      result := ← r.need "result" Compiled.ofJson?
      dependencies := .ofList (← r.need "referencedImports" Json.texts?) }

def write (e : CacheEntry) : String :=
  e.toJson.compact

def parse? (text : String) : Option CacheEntry :=
  Json.parse? text >>= ofJson?

end CacheEntry

end ScopedCss
