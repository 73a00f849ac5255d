import ScopedCss.Dict
import ScopedCss.SortedDict
import ScopedCss.Decimal.Double

/-!
JSON values. Numbers are integers of at most sixty-four bits, or doubles.
-/

namespace ScopedCss

inductive JsonNumber
  | int (n : Int)
  | double (x : Double)
deriving DecidableEq, Repr

inductive Json
  | null
  | bool (b : Bool)
  | number (n : JsonNumber)
  | string (s : String)
  | array (items : List Json)
  | object (fields : List (String × Json))
deriving Repr, Inhabited

namespace Json

def field? (name : String) : Json → Option Json
  | object fields => fields.lookup name
  | _ => none

def string? : Json → Option String
  | string s => some s
  | _ => none

/-- One field a name, the last one given, in the order of the names. -/
def sortFields {α : Type u} (fields : List (String × α)) : List (String × α) :=
  (SortedDict.ofList fields).entries

mutual

/-- The value with the fields of all its objects sorted, and the last of several kept. -/
def sorted : Json → Json
  | array items => array (sortedItems items)
  | object fields => object (sortFields (sortedFields fields))
  | j => j

def sortedItems : List Json → List Json
  | [] => []
  | j :: rest => j.sorted :: sortedItems rest

def sortedFields : List (String × Json) → List (String × Json)
  | [] => []
  | (n, j) :: rest => (n, j.sorted) :: sortedFields rest

end

/-- A number is written as an integer if it is one of at most sixty-four bits. -/
def ofInt (n : Int) : Json :=
  number (.int n)

def ofNat (n : Nat) : Json :=
  number (.int n)

def ofStrings (l : List String) : Json :=
  array (l.map string)

/-- An object with the values of a map, in its order. -/
def ofDict (d : Dict String) : Json :=
  object (d.entries.map fun (k, v) => (k, string v))

end Json

end ScopedCss
