import ScopedCss.Cache.Entry
import ScopedCss.Proofs.Dict
import ScopedCss.Proofs.Json.RoundTrip

namespace ScopedCss

namespace Json

-- What can be kept as the source map of a result: an object has its fields in order, as maps have them, and not
-- more than 125 brackets stand inside each other.
structure Storable (j : Json) : Prop where
  notNull : j ≠ .null
  sorted  : j.sorted = j
  shallow : j.nesting ≤ 125
  numbers : ∀ n ∈ j.numbers, n.ReadsBack

theorem mapM_map {α β : Type} {read : β → Option α} {write : α → β} (h : ∀ x, read (write x) = some x) (l : List α) :
    (l.map write).mapM read = some l := by
  induction l
  case nil => rfl
  case cons x l ih => simp [List.mapM_cons, h, ih]

theorem strings?_ofStrings (l : List String) : strings? (ofStrings l) = some l := by
  have hread (s : String) : string? (string s) = some s := rfl
  exact mapM_map hread l

theorem mapM_string?_map (l : List (String × String)) :
    (l.map fun (k, v) => (k, string v)).mapM (fun ((n, j) : String × Json) => j.string?.map (n, ·)) = some l := by
  refine mapM_map ?_ l
  intro entry
  rfl

theorem texts?_object (l : List (String × String)) :
    texts? (object (l.map fun (k, v) => (k, string v))) = some l :=
  mapM_string?_map l

theorem tokens?_ofDict (tokens : Tokens) : tokens? (ofDict tokens) = some tokens := by
  rw [tokens?, ofDict, texts?_object]
  exact congrArg some tokens.ofList_entries

section

variable (l : List (String × String))

theorem nestingFields_strings : nestingFields (l.map fun (k, v) => (k, string v)) = 0 := by
  induction l
  case nil => rfl
  case cons entry l ih => simp [nestingFields, nesting, ih]

theorem numbersFields_strings : numbersFields (l.map fun (k, v) => (k, string v)) = [] := by
  induction l
  case nil => rfl
  case cons entry l ih => simp [numbersFields, numbers, ih]

theorem nestingItems_strings (l : List String) : nestingItems (l.map string) = 0 := by
  induction l
  case nil => rfl
  case cons s l ih => simp [nestingItems, nesting, ih]

theorem numbersItems_strings (l : List String) : numbersItems (l.map string) = [] := by
  induction l
  case nil => rfl
  case cons s l ih => simp [numbersItems, numbers, ih]

end

end Json

def Compiled.Storable (c : Compiled) : Prop :=
  ∀ map ∈ c.sourceMap, map.Storable

namespace Compiled

open Json

variable {c : Compiled}

theorem ofJson?_toJson (h : c.Storable) : ofJson? c.toJson = some c := by
  have hmap : nullable? value? (orNull id c.sourceMap) = some c.sourceMap := by
    cases hm : c.sourceMap
    case none => rfl
    case some map =>
      have hstorable := h map hm
      have hvalue : value? map = some map := congrArg some hstorable.sorted
      rw [orNull, id, nullable?.eq_2 _ _ hstorable.notNull, hvalue]
      rfl
  have htokens : nullable? tokens? (orNull ofDict c.tokens) = some c.tokens := by
    cases c.tokens
    case none => rfl
    case some tokens =>
      have hdict := tokens?_ofDict tokens
      rw [orNull]
      exact congrArg (Option.map some) hdict
  have himports := strings?_ofStrings c.imports
  have hrecord : record? fieldNames c.toJson = some
      [("isLazy", .bool c.isLazy), ("filePath", .string c.place), ("imports", .ofStrings c.imports),
        ("stylesheet", .string c.css), ("sourceMap", orNull id c.sourceMap), ("tokens", orNull ofDict c.tokens),
        ("importsCode", .string c.importsCode), ("stylesheetCode", .string c.sheetCode),
        ("tokensCode", .string c.tokensCode)] := by
    simp [record?, toJson, fieldNames]
  have hread : ofJson? c.toJson = (do
      let imports ← strings? (ofStrings c.imports)
      let sourceMap ← nullable? value? (orNull id c.sourceMap)
      let tokens ← nullable? tokens? (orNull ofDict c.tokens)
      pure { c with imports, sourceMap, tokens }) := by
    unfold ofJson?
    rw [hrecord]
    rfl
  rw [hread, himports, hmap, htokens]
  rfl

theorem nesting_toJson (h : c.Storable) : c.toJson.nesting ≤ 126 := by
  have hmap : (orNull id c.sourceMap).nesting ≤ 125 := by
    cases hm : c.sourceMap
    case none     => exact Nat.zero_le _
    case some map => exact (h map hm).shallow
  have htokens : (orNull ofDict c.tokens).nesting ≤ 1 := by
    cases c.tokens
    case none        => exact Nat.zero_le _
    case some tokens => simp [orNull, ofDict, nesting, nestingFields_strings]
  have himports : (ofStrings c.imports).nesting = 1 := by simp [ofStrings, nesting, nestingItems_strings]
  simp only [toJson, nesting, nestingFields, himports]
  omega

theorem numbers_toJson (h : c.Storable) : ∀ n ∈ c.toJson.numbers, n.ReadsBack := by
  have hmap : ∀ n ∈ (orNull id c.sourceMap).numbers, n.ReadsBack := by
    cases hm : c.sourceMap
    case none     => exact fun n hn => nomatch hn
    case some map => exact (h map hm).numbers
  have htokens : (orNull ofDict c.tokens).numbers = [] := by
    cases c.tokens
    case none        => rfl
    case some tokens => exact numbersFields_strings _
  have himports : (ofStrings c.imports).numbers = [] := numbersItems_strings _
  simpa [toJson, numbers, numbersFields, himports, htokens] using hmap

end Compiled

theorem storable_lineSourceMap (file css : String) : (lineSourceMap file css).Storable where
  notNull   := nofun
  sorted    := by
    have hsorted : (lineSourceMap file css).sorted = .object (Json.sortFields
        [("file", .string (Path.basename file)), ("mappings", .string (lineMappings (Text.lineCount css.toList))),
          ("names", .array []), ("sources", .array [.string file]), ("version", .ofNat 3)]) := rfl
    rw [hsorted]
    rfl
  shallow   := by simp [lineSourceMap, Json.nesting, Json.nestingFields, Json.nestingItems, Json.ofNat]
  numbers n hn := by
    rw [List.mem_singleton.1 (show n ∈ [.int 3] from hn)]
    exact ⟨by decide, by decide⟩

namespace CacheEntry

open Json

variable {e : CacheEntry}

theorem ofJson?_toJson (h : e.result.Storable) : ofJson? e.toJson = some e := by
  have hresult := Compiled.ofJson?_toJson h
  have hdependencies := texts?_object e.dependencies.entries
  have hsorted := e.dependencies.ofList_entries
  have hrecord : record? ["path", "key", "result", "referencedImports"] e.toJson = some
      [("path", .string e.path), ("key", .string e.key), ("result", e.result.toJson),
        ("referencedImports", .object (e.dependencies.entries.map fun (k, v) => (k, .string v)))] := by
    simp [record?, toJson]
  have hread : ofJson? e.toJson = (do
      let result ← Compiled.ofJson? e.result.toJson
      let dependencies ← texts? (.object (e.dependencies.entries.map fun (k, v) => (k, .string v)))
      pure ⟨e.path, e.key, result, .ofList dependencies⟩) := by
    unfold ofJson?
    rw [hrecord]
    rfl
  rw [hread, hresult, hdependencies]
  exact congrArg (fun dependencies => some (CacheEntry.mk e.path e.key e.result dependencies)) hsorted

-- An entry is read back from its file as it was.
theorem parse?_write (h : e.result.Storable) : parse? e.write = some e := by
  have hnesting : e.toJson.nesting < maxDepth := by
    have := Compiled.nesting_toJson h
    simp only [toJson, nesting, nestingFields, nestingFields_strings, maxDepth]
    omega
  have hnumbers : ∀ n ∈ e.toJson.numbers, n.ReadsBack := by
    simpa [toJson, numbers, numbersFields, numbersFields_strings] using Compiled.numbers_toJson h
  rw [parse?, write, parse?_compact hnesting hnumbers]
  exact ofJson?_toJson h

end CacheEntry

end ScopedCss
