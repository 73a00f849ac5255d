import ScopedCss.Toml.Moment
import ScopedCss.Toml.Table
import ScopedCss.Toml.Text

/-!
Reading TOML (version 1.0).
-/

namespace ScopedCss.Toml

def readNumber (s : List Char) : Option (Toml × List Char) :=
  match readMoment s with
  | some (text, s) => some (.moment text, s)
  | none =>
    match readFloat s with
    | some (x, s) => some (.float x, s)
    | none => (readInteger s).map fun (n, s) => (.integer n, s)

mutual

/-- A value at the start of the text. `depth` is how many brackets may still open, and `fuel` bounds
the steps. -/
def readValue : (fuel depth : Nat) → List Char → Option (Toml × List Char)
  | 0, _, _ => none
  | fuel + 1, depth, s =>
    match s with
    | 't' :: 'r' :: 'u' :: 'e' :: s => some (bool true, s)
    | 'f' :: 'a' :: 'l' :: 's' :: 'e' :: s => some (bool false, s)
    | '"' :: _ => (readQuoted .basic s).map fun (text, s) => (string text, s)
    | '\'' :: _ => (readQuoted .verbatim s).map fun (text, s) => (string text, s)
    | '[' :: s =>
      if depth ≤ 1 then none
      else (readItems fuel (depth - 1) s).map fun (items, s) => (array items, s)
    | '\x7b' :: s =>
      if depth ≤ 1 then
        none
      else
        match skipGap s with
        | '\x7d' :: s => some (table .inline [], s)
        | s => (readFields fuel (depth - 1) [] s).map fun (fields, s) => (table .inline fields, s)
    | s => readNumber s

/-- Items and the closing bracket. A comma may follow the last item. -/
def readItems : (fuel depth : Nat) → List Char → Option (List Toml × List Char)
  | 0, _, _ => none
  | fuel + 1, depth, s =>
    match skipLines (s.length + 1) s with
    | ']' :: s => some ([], s)
    | s => do
      let (v, s) ← readValue fuel depth s
      match skipLines (s.length + 1) s with
      | ']' :: s => pure ([v], s)
      | ',' :: s =>
        let (items, s) ← readItems fuel depth s
        pure (v :: items, s)
      | _ => none

/-- One or more fields and the closing brace. -/
def readFields : (fuel depth : Nat) → Fields → List Char → Option (Fields × List Char)
  | 0, _, _, _ => none
  | fuel + 1, depth, fields, s => do
    let (key, s) ← readKey s
    let s ← Text.dropPrefix? ['='] s
    let (v, s) ← readValue fuel depth (skipGap s)
    let fields ← addValue .inline fields key v
    match skipGap s with
    | '\x7d' :: s => pure (fields, s)
    | ',' :: s => readFields fuel depth fields s
    | _ => none

end

/-- A line of a document. -/
inductive Line
  | blank
  | opensTable (key : List String)
  | opensTables (key : List String)
  | field (key : List String) (value : Toml)

def readLine (s : List Char) : Option (Line × List Char) := do
  match skipGap s with
  | '[' :: '[' :: s =>
    let (key, s) ← readKey s
    let s ← Text.dropPrefix? [']', ']'] s
    pure (.opensTables key, ← readLineEnd s)
  | '[' :: s =>
    let (key, s) ← readKey s
    let s ← Text.dropPrefix? [']'] s
    pure (.opensTable key, ← readLineEnd s)
  | s =>
    match readLineEnd s with
    | some s => pure (.blank, s)
    | none =>
      let (key, s) ← readKey s
      let s ← Text.dropPrefix? ['='] s
      let (v, s) ← readValue (2 * s.length + 2) maxDepth (skipGap s)
      pure (.field key v, ← readLineEnd s)

def Draft.addLine (d : Draft) : Line → Option Draft
  | .blank => some d
  | .opensTable key => d.openTable key
  | .opensTables key => d.openTables key
  | .field key value => d.add key value

def readLines : (fuel : Nat) → Draft → List Char → Option Draft
  | _, d, [] => some d
  | 0, _, _ => none
  | fuel + 1, d, s => do
    let (line, s) ← readLine s
    readLines fuel (← d.addLine line) s

/-- The table that a document stands for. A byte order mark in front of it is passed over. -/
def parse? (text : String) : Option Toml := do
  let s := match text.toList with
    | '\uFEFF' :: s => s
    | s => s
  let draft ← readLines (s.length + 1) .start s
  pure (.table .header (← draft.close))

end ScopedCss.Toml
