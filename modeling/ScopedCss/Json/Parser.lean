import ScopedCss.Json.Basic

/-!
Reading JSON text. Every deviation from the grammar is refused: comments, trailing commas, control
characters in strings, half surrogate pairs, and more than 127 brackets inside each other.
-/

namespace ScopedCss.Json

def isSpace (c : Char) : Bool :=
  c == ' ' || c == '\n' || c == '\t' || c == '\r'

def skipSpace (s : List Char) : List Char :=
  s.dropWhile isSpace

def hexValue? (c : Char) : Option Nat :=
  if '0' ≤ c ∧ c ≤ '9' then some (c.toNat - '0'.toNat)
  else if 'a' ≤ c ∧ c ≤ 'f' then some (c.toNat - 'a'.toNat + 10)
  else if 'A' ≤ c ∧ c ≤ 'F' then some (c.toNat - 'A'.toNat + 10)
  else none

/-- Four hexadecimal digits: one unit of UTF-16. -/
def readUnit : List Char → Option (Nat × List Char)
  | a :: b :: c :: d :: s => do
    let unit := ((← hexValue? a) * 16 + (← hexValue? b)) * 256 +
      (← hexValue? c) * 16 + (← hexValue? d)
    pure (unit, s)
  | _ => none

def isHighSurrogate (n : Nat) : Bool :=
  0xD800 ≤ n && n < 0xDC00

def isLowSurrogate (n : Nat) : Bool :=
  0xDC00 ≤ n && n < 0xE000

/-- What follows `\u`: one unit, or two that form a surrogate pair. -/
def readEscapedUnits (s : List Char) : Option (Char × List Char) := do
  let (high, s) ← readUnit s
  if isLowSurrogate high then
    none
  else if isHighSurrogate high then
    match s with
    | '\\' :: 'u' :: s =>
      let (low, s) ← readUnit s
      if isLowSurrogate low then
        pure (Char.ofNat (0x10000 + (high - 0xD800) * 1024 + (low - 0xDC00)), s)
      else
        none
    | _ => none
  else
    pure (Char.ofNat high, s)

def simpleEscape? : Char → Option Char
  | '"' => some '"'
  | '\\' => some '\\'
  | '/' => some '/'
  | 'b' => some '\x08'
  | 'f' => some '\x0c'
  | 'n' => some '\n'
  | 'r' => some '\r'
  | 't' => some '\t'
  | _ => none

/-- The characters of a string up to its closing quote. `fuel` bounds their number. -/
def readChars : (fuel : Nat) → List Char → Option (List Char × List Char)
  | 0, _ => none
  | _, [] => none
  | fuel + 1, c :: s =>
    if c = '"' then
      some ([], s)
    else if c.toNat < 32 then
      none
    else if c = '\\' then
      match s with
      | 'u' :: s => do
        let (d, s) ← readEscapedUnits s
        let (l, s) ← readChars fuel s
        pure (d :: l, s)
      | e :: s => do
        let d ← simpleEscape? e
        let (l, s) ← readChars fuel s
        pure (d :: l, s)
      | [] => none
    else do
      let (l, s) ← readChars fuel s
      pure (c :: l, s)

def readString (s : List Char) : Option (String × List Char) :=
  (readChars (s.length + 1) s).map fun (l, s) => (.ofList l, s)

def digitsValue (digits : List Char) : Nat :=
  digits.foldl (fun n c => n * 10 + (c.toNat - '0'.toNat)) 0

/-- As many leading digits as fit into sixty-four bits, and how many more there are. -/
def fitDigits : (significand : Nat) → List Char → Nat × Nat
  | significand, [] => (significand, 0)
  | significand, c :: digits =>
    let next := significand * 10 + (c.toNat - '0'.toNat)
    if next < Nat.pow 2 64 then fitDigits next digits else (significand, digits.length + 1)

/-- The significand is rounded to a double and then multiplied or divided by the double nearest to
a power of ten, which is at most `10 ^ 308`: a smaller one is reached in steps. -/
def scaleDouble : (fuel : Nat) → Double → (exp10 : Int) → Option Double
  | 0, x, _ => some x
  | fuel + 1, x, exp10 =>
    if exp10.natAbs ≤ 308 then
      let power := Double.ofDecimal 1 exp10.natAbs
      if 0 ≤ exp10 then
        let y := x.mulMagnitude power
        if y.isFinite then some y else none
      else
        some (x.divMagnitude power)
    else if x.mantissa = 0 then
      some x
    else if 0 ≤ exp10 then
      none
    else
      scaleDouble fuel (x.divMagnitude (Double.ofDecimal 1 308)) (exp10 + 308)

def toDouble (significand : Nat) (exp10 : Int) : Option Double :=
  scaleDouble 4 (Double.ofNat significand) exp10

/-- The exponent after its mark. `significand` and `exp10` are what stands before it. -/
def readExponent (significand : Nat) (exp10 : Int) (s : List Char) :
    Option (Double × List Char) := do
  let (negative, s) := match s with
    | '+' :: s => (false, s)
    | '-' :: s => (true, s)
    | s => (false, s)
  let (digits, s) := s.span Char.isDigit
  if digits.isEmpty then
    none
  else
    let n := digitsValue digits
    if Nat.pow 2 31 ≤ n then
      if significand ≠ 0 ∧ !negative then none else pure (⟨0⟩, s)
    else
      let exp10 := if negative then exp10 - n else exp10 + n
      pure (← toDouble significand exp10, s)

/-- An unsigned number. -/
def readMagnitude (s : List Char) : Option ((Nat ⊕ Double) × List Char) := do
  let (whole, s) := s.span Char.isDigit
  match whole with
  | [] => none
  | '0' :: _ :: _ => none
  | _ =>
    let (significand, dropped) := fitDigits 0 whole
    match s with
    | '.' :: s =>
      let (decimals, s) := s.span Char.isDigit
      if decimals.isEmpty then
        none
      else
        let (significand, left) := fitDigits significand decimals
        let exp10 : Int := dropped - (decimals.length - left : Nat)
        match s with
        | 'e' :: s | 'E' :: s =>
          let (x, s) ← readExponent significand exp10 s
          pure (.inr x, s)
        | s => pure (.inr (← toDouble significand exp10), s)
    | 'e' :: s | 'E' :: s =>
      let (x, s) ← readExponent significand dropped s
      pure (.inr x, s)
    | s =>
      if dropped = 0 then pure (.inl significand, s)
      else pure (.inr (← toDouble significand dropped), s)

/-- Zero with a sign, and integers that no sixty-four bits hold, are doubles. -/
def negated : Nat ⊕ Double → JsonNumber
  | .inl n => if n = 0 ∨ Nat.pow 2 63 < n then .double (Double.ofNat n).neg else .int (-n)
  | .inr x => .double x.neg

def readNumber : List Char → Option (JsonNumber × List Char)
  | '-' :: s => (readMagnitude s).map fun (n, s) => (negated n, s)
  | s => (readMagnitude s).map fun
    | (.inl n, s) => (.int n, s)
    | (.inr x, s) => (.double x, s)

mutual

/-- A value at the start of the text. `depth` is how many brackets may still open, and `fuel`
bounds the steps. -/
def readValue : (fuel depth : Nat) → List Char → Option (Json × List Char)
  | 0, _, _ => none
  | fuel + 1, depth, s =>
    match skipSpace s with
    | 'n' :: 'u' :: 'l' :: 'l' :: s => some (null, s)
    | 't' :: 'r' :: 'u' :: 'e' :: s => some (bool true, s)
    | 'f' :: 'a' :: 'l' :: 's' :: 'e' :: s => some (bool false, s)
    | '"' :: s => (readString s).map fun (l, s) => (string l, s)
    | '[' :: s =>
      if depth ≤ 1 then
        none
      else
        match skipSpace s with
        | ']' :: s => some (array [], s)
        | s => (readItems fuel (depth - 1) s).map fun (l, s) => (array l, s)
    | '\x7b' :: s =>
      if depth ≤ 1 then
        none
      else
        match skipSpace s with
        | '\x7d' :: s => some (object [], s)
        | s => (readFields fuel (depth - 1) s).map fun (l, s) => (object l, s)
    | s => (readNumber s).map fun (n, s) => (number n, s)

/-- One or more items and the closing bracket. -/
def readItems : (fuel depth : Nat) → List Char → Option (List Json × List Char)
  | 0, _, _ => none
  | fuel + 1, depth, s => do
    let (j, s) ← readValue fuel depth s
    match skipSpace s with
    | ']' :: s => pure ([j], s)
    | ',' :: s =>
      let (l, s) ← readItems fuel depth s
      pure (j :: l, s)
    | _ => none

/-- One or more fields and the closing brace. -/
def readFields : (fuel depth : Nat) → List Char → Option (List (String × Json) × List Char)
  | 0, _, _ => none
  | fuel + 1, depth, s =>
    match skipSpace s with
    | '"' :: s => do
      let (n, s) ← readString s
      match skipSpace s with
      | ':' :: s =>
        let (j, s) ← readValue fuel depth s
        match skipSpace s with
        | '\x7d' :: s => pure ([(n, j)], s)
        | ',' :: s =>
          let (l, s) ← readFields fuel depth s
          pure ((n, j) :: l, s)
        | _ => none
      | _ => none
    | _ => none

end

/-- How many brackets may stand inside each other, plus one. -/
def maxDepth : Nat :=
  128

/-- The value of a JSON text, with its fields as they are written. -/
def parse? (text : String) : Option Json := do
  let s := text.toList
  let (j, rest) ← readValue (2 * s.length + 2) maxDepth s
  if (skipSpace rest).isEmpty then pure j else none

end ScopedCss.Json
