import ScopedCss.Text.Cut
import ScopedCss.Text.Letter
import ScopedCss.Unicode.Category
import ScopedCss.Unicode.Fold
import ScopedCss.Unicode.Script
import ScopedCss.Unicode.Word

/-!
Sets of characters, as regular expressions write them.
-/

namespace ScopedCss.Pattern

inductive CharSet
  /-- Code points from first to last. -/
  | ranges (l : List (Nat × Nat))
  | blank
  | word
  | not (s : CharSet)
  | union (s t : CharSet)
  | inter (s t : CharSet)
  /-- The characters that differ in case only from one of the set. -/
  | caseless (s : CharSet)
deriving DecidableEq, Repr

namespace CharSet

def containsCode : CharSet → Nat → Bool
  | ranges l, n => l.any fun (first, last) => first ≤ n && n ≤ last
  | blank, n => Text.isBlank (Char.ofNat n)
  | word, n => Unicode.isWord (Char.ofNat n)
  | not s, n => !s.containsCode n
  | union s t, n => s.containsCode n || t.containsCode n
  | inter s t, n => s.containsCode n && t.containsCode n
  | caseless s, n => (Unicode.sameFold n).any s.containsCode

def contains (s : CharSet) (c : Char) : Bool :=
  s.containsCode c.toNat

def empty : CharSet :=
  ranges []

def all : CharSet :=
  ranges [(0, 0x10FFFF)]

def single (c : Char) : CharSet :=
  ranges [(c.toNat, c.toNat)]

def between (c d : Char) : CharSet :=
  ranges [(c.toNat, d.toNat)]

def diff (s t : CharSet) : CharSet :=
  inter s (not t)

def symmDiff (s t : CharSet) : CharSet :=
  union (diff s t) (diff t s)

def foldIf (ignoreCase : Bool) (s : CharSet) : CharSet :=
  if ignoreCase then caseless s else s

def negateIf (negated : Bool) (s : CharSet) : CharSet :=
  if negated then not s else s

def newline : CharSet :=
  single '\n'

/-- Hexadecimal digits of either case. -/
def hexValue (s : List Char) : Nat :=
  s.foldl (fun n c =>
    16 * n + if c.isDigit then c.toNat - '0'.toNat else c.toLower.toNat - 'a'.toNat + 10) 0

/-- Ranges written as `first-last` or as one code point, in hexadecimal and with spaces between. -/
def ofText (s : String) : CharSet :=
  ranges ((Text.words s.toList).map fun w =>
    match Text.splitWhere (· == '-') w with
    | [first, last] => (hexValue first, hexValue last)
    | _ => (hexValue w, hexValue w))

/-- Names of properties are compared without case, spaces, hyphens and underscores, and without
`is` in front. -/
def plainName (s : List Char) : List Char :=
  let s := (s.filter fun c => !(Text.isBlank c || c == '_' || c == '-')).map Char.toLower
  match s with
  | 'i' :: 's' :: rest => if rest.isEmpty then s else rest
  | _ => s

def hasName (names : List String) (name : List Char) : Bool :=
  names.any fun n => plainName n.toList == plainName name

def category? (name : List Char) : Option CharSet :=
  match Unicode.categories.find? (hasName ·.1 name), Unicode.categoryGroups.find? (hasName ·.1 name) with
  | some (_, codes), _ => some (ofText codes)
  | none, some (_, members) =>
    some (members.foldl (fun s member =>
      match Unicode.categories.find? (·.1.contains member) with
      | some (_, codes) => union s (ofText codes)
      | none => s) empty)
  | none, none =>
    if hasName ["Any"] name then some all
    else if hasName ["ASCII"] name then some (ranges [(0, 127)])
    else if hasName ["Assigned"] name then (Unicode.categories.find? (·.1.contains "Cn")).map
      fun (_, codes) => not (ofText codes)
    else none

def script? (name : List Char) : Option CharSet :=
  (Unicode.scripts.find? (hasName ·.1 name)).map fun (_, codes) => ofText codes

def digit : CharSet :=
  (category? "Nd".toList).getD empty

/-- Properties that hold or do not hold of a character. -/
def binaryProperty? (name : List Char) : Option CharSet :=
  if hasName ["White_Space", "WSpace", "Space"] name then some blank
  else if hasName ["Alphabetic", "Alpha"] name then
    (category? "L".toList).bind fun l => (category? "Nl".toList).map (union l)
  else if hasName ["Uppercase", "Upper"] name then category? "Lu".toList
  else if hasName ["Lowercase", "Lower"] name then category? "Ll".toList
  else none

/-- The set that a property names: a category, a script or a property with two values. -/
def property? (name : List Char) : Option CharSet :=
  match Text.cut? (fun c => c == '=' || c == ':') name with
  | some (key, sep, value) =>
    let (key, negated) := match sep, key.getLast? with
      | '=', some '!' => (key.dropLast, true)
      | _, _ => (key, false)
    let found :=
      if hasName ["General_Category", "gc"] key then category? value
      else if hasName ["Script", "sc", "Script_Extensions", "scx"] key then script? value
      else none
    found.map (negateIf negated)
  | none =>
    match binaryProperty? name, category? name, script? name with
    | some s, _, _ => some s
    | none, some s, _ => some s
    | none, none, s => s

/-- The classes written `[:name:]`. -/
def asciiClass? (name : List Char) : Option CharSet :=
  match String.ofList name with
  | "alnum" => some (ofText "30-39 41-5a 61-7a")
  | "alpha" => some (ofText "41-5a 61-7a")
  | "ascii" => some (ofText "0-7f")
  | "blank" => some (ofText "9 20")
  | "cntrl" => some (ofText "0-1f 7f")
  | "digit" => some (ofText "30-39")
  | "graph" => some (ofText "21-7e")
  | "lower" => some (ofText "61-7a")
  | "print" => some (ofText "20-7e")
  | "punct" => some (ofText "21-2f 3a-40 5b-60 7b-7e")
  | "space" => some (ofText "9-d 20")
  | "upper" => some (ofText "41-5a")
  | "word" => some (ofText "30-39 41-5a 5f 61-7a")
  | "xdigit" => some (ofText "30-39 41-46 61-66")
  | _ => none

end CharSet

end ScopedCss.Pattern
