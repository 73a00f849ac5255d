import ScopedCss.Toml.Basic

/-!
Adding to tables. Nothing is defined twice: a key in braces or under a header belongs to that table
alone, and dotted keys only extend tables that dotted keys have made.
-/

namespace ScopedCss.Toml

def setField (fields : Fields) (name : String) (value : Toml) : Fields :=
  match fields with
  | [] => [(name, value)]
  | (n, v) :: rest => if n = name then (n, value) :: rest else (n, v) :: setField rest name value

/-- Changes the table at a path, which is made if it is not there. `dotted` tells that the path is
that of a dotted key, and not of a header. -/
def changeAt (dotted : Bool) (change : Origin → Fields → Option Fields) :
    List String → Origin → Fields → Option Fields
  | [], origin, fields => change origin fields
  | name :: path, _, fields =>
    match fields.lookup name with
    | none => do
      let origin := if dotted then Origin.dotted else .implied
      let inner ← changeAt dotted change path origin []
      pure (fields ++ [(name, .table origin inner)])
    | some (.table origin inner) =>
      if origin = .inline ∨ (dotted ∧ origin = .header) then
        none
      else do
        let inner ← changeAt dotted change path origin inner
        pure (setField fields name (.table origin inner))
    | some (.tables items) =>
      match items.getLast? with
      | none => none
      | some last => do
        let last ← changeAt dotted change path .header last
        pure (setField fields name (.tables (items.dropLast ++ [last])))
    | some _ => none

/-- A key in front of its value, as parts in front of a last one. -/
def splitKey (key : List String) : Option (List String × String) :=
  key.getLast?.map (key.dropLast, ·)

/-- Adds a value under a key to a table. -/
def addValue (origin : Origin) (fields : Fields) (key : List String) (value : Toml) :
    Option Fields := do
  let (path, name) ← splitKey key
  changeAt true (fun o inner =>
    if (path ≠ [] ∧ o ≠ .dotted) ∨ (inner.lookup name).isSome then none
    else some (inner ++ [(name, value)])) path origin fields

/-- Where the lines of a document go. -/
inductive Section
  | top
  | table (key : List String)
  | tables (key : List String)
deriving DecidableEq, Repr

/-- A document so far: what is complete, and the table that lines are being added to. -/
structure Draft where
  complete : Fields
  current : Section
  lines : Fields

namespace Draft

def start : Draft where
  complete := []
  current := .top
  lines := []

/-- The document with the current table put into its place. -/
def close (d : Draft) : Option Fields :=
  match d.current with
  | .top => some d.lines
  | .table key => do
    let (path, name) ← splitKey key
    changeAt false (fun _ fields => some (fields ++ [(name, .table .header d.lines)])) path .header
      d.complete
  | .tables key => do
    let (path, name) ← splitKey key
    changeAt false (fun _ fields =>
      match fields.lookup name with
      | none => some (fields ++ [(name, .tables [d.lines])])
      | some (.tables items) => some (setField fields name (.tables (items ++ [d.lines])))
      | some _ => none) path .header d.complete

/-- The tables implied so far under a header, which goes on with them; no other table may have one
again. -/
def implied (complete : Fields) (path : List String) (name : String) : Option Fields :=
  match path with
  | [] =>
    match complete.lookup name with
    | none => some []
    | some (.table .implied inner) => some inner
    | some _ => none
  | k :: path =>
    match complete.lookup k with
    | some (.table _ inner) => implied inner path name
    | some (.tables items) => (items.getLast?).bind (implied · path name)
    | _ => some []

/-- Goes on with the table under a header. -/
def openTable (d : Draft) (key : List String) : Option Draft := do
  let complete ← d.close
  let (path, name) ← splitKey key
  let lines ← implied complete path name
  let complete ← changeAt false (fun _ fields => some (fields.filter (·.1 ≠ name))) path .header
    complete
  pure ⟨complete, .table key, lines⟩

/-- Goes on with a new table under a header in double brackets. -/
def openTables (d : Draft) (key : List String) : Option Draft := do
  let complete ← d.close
  let (path, name) ← splitKey key
  let complete ← changeAt false (fun _ fields =>
    match fields.lookup name with
    | none | some (.tables _) => some fields
    | some _ => none) path .header complete
  pure ⟨complete, .tables key, []⟩

def add (d : Draft) (key : List String) (value : Toml) : Option Draft := do
  let lines ← addValue .header d.lines key value
  pure { d with lines }

end Draft

end ScopedCss.Toml
