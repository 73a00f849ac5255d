import ScopedCss.Json.Basic

/-!
TOML values. A table knows how it came about, because that settles whether more may be added to it.
-/

namespace ScopedCss

namespace Toml

/-- How a table came about: between braces, under a header of its own, because a header names a
table inside it, or because a dotted key does. -/
inductive Origin
  | inline
  | header
  | implied
  | dotted
deriving DecidableEq, Repr

end Toml

inductive Toml
  | string (s : String)
  | integer (n : Int)
  | float (x : Double)
  | bool (b : Bool)
  /-- A date, a time or both. -/
  | moment (text : String)
  | array (items : List Toml)
  | table (origin : Toml.Origin) (fields : List (String × Toml))
  /-- The tables under one header in double brackets. -/
  | tables (items : List (List (String × Toml)))
deriving Repr, Inhabited

namespace Toml

abbrev Fields := List (String × Toml)

mutual

/-- The same value as JSON. A moment becomes an object with its text. -/
def toJson : Toml → Json
  | string s => .string s
  | integer n => .ofInt n
  | float x => .number (.double x)
  | bool b => .bool b
  | moment text => .object [("$__toml_private_datetime", .string text)]
  | array items => .array (itemsToJson items)
  | table _ fields => .object (fieldsToJson fields)
  | tables items => .array (tablesToJson items)

def itemsToJson : List Toml → List Json
  | [] => []
  | v :: rest => v.toJson :: itemsToJson rest

def fieldsToJson : List (String × Toml) → List (String × Json)
  | [] => []
  | (n, v) :: rest => (n, v.toJson) :: fieldsToJson rest

def tablesToJson : List (List (String × Toml)) → List Json
  | [] => []
  | fields :: rest => .object (fieldsToJson fields) :: tablesToJson rest

end

end Toml

end ScopedCss
