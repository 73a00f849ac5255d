import ScopedCss.Json.Basic

/-!
Records as JSON: objects, in which fields that are not known are passed over and a known one must
not occur twice, or arrays of the fields in order, of which the last may be missing.
-/

namespace ScopedCss.Json

abbrev Record := List (String × Json)

def record? (known : List String) : Json → Option Record
  | array items => if items.length ≤ known.length then some (known.zip items) else none
  | object fields =>
    let r := fields.filter fun (n, _) => known.contains n
    if (r.map Prod.fst).Nodup then some r else none
  | _ => none

namespace Record

variable {α : Type u}

/-- The value of a field that must be there. -/
def need (r : Record) (name : String) (read : Json → Option α) : Option α :=
  (r.lookup name).bind read

/-- The value of a field, or of none what it has otherwise. -/
def getD (r : Record) (name : String) (read : Json → Option α) (default : α) : Option α :=
  match r.lookup name with
  | some j => read j
  | none => some default

end Record

def bool? : Json → Option Bool
  | bool b => some b
  | _ => none

def listOf? {α : Type u} (read : Json → Option α) : Json → Option (List α)
  | array items => items.mapM read
  | _ => none

def strings? : Json → Option (List String) :=
  listOf? string?

/-- A value that may be `null`. -/
def nullable? {α : Type u} (read : Json → Option α) : Json → Option (Option α)
  | null => some none
  | j => (read j).map some

/-- An object whose values are all strings. -/
def texts? : Json → Option (List (String × String))
  | object fields => fields.mapM fun ((n, j) : String × Json) => j.string?.map (n, ·)
  | _ => none

end ScopedCss.Json
