import ScopedCss.Decimal.Double
import ScopedCss.Json.Parser
import ScopedCss.Text.Cut

/-!
Integers of sixty-four bits and doubles in TOML. Single underscores may stand between digits.
-/

namespace ScopedCss.Toml

/-- Digits without the underscores between them. -/
def readDigits (isDigit : Char → Bool) (s : List Char) : Option (List Char × List Char) :=
  match s with
  | c :: s => if isDigit c then some (go c s) else none
  | [] => none
where
  go (c : Char) : List Char → List Char × List Char
    | '_' :: d :: s =>
      if isDigit d then
        let (digits, s) := go d s
        (c :: digits, s)
      else ([c], '_' :: d :: s)
    | d :: s =>
      if isDigit d then
        let (digits, s) := go d s
        (c :: digits, s)
      else ([c], d :: s)
    | [] => ([c], [])

def digitsValue (base : Nat) (digits : List Char) : Nat :=
  digits.foldl (fun n c => n * base + (Json.hexValue? c).getD 0) 0

def readSign : List Char → Bool × List Char
  | '+' :: s => (false, s)
  | '-' :: s => (true, s)
  | s => (false, s)

/-- The whole part of a number. Zero stands alone. -/
def readWhole : List Char → Option (List Char × List Char)
  | '0' :: s => some (['0'], s)
  | s => readDigits Char.isDigit s

def readExponent (s : List Char) : Option (Int × List Char) :=
  match s with
  | 'e' :: s | 'E' :: s => do
    let (negative, s) := readSign s
    let (digits, s) ← readDigits Char.isDigit s
    let n := digitsValue 10 digits
    pure (if negative then -n else n, s)
  | _ => none

/-- The magnitude `digits * 10 ^ exp10`. Beyond a few hundred places it is infinite or zero. -/
def magnitude (digits : List Char) (exp10 : Int) : Double :=
  let n := digitsValue 10 digits
  let places : Int := digits.length + exp10
  if n = 0 ∨ places < -400 then ⟨0⟩
  else if 400 + digits.length < places then Double.infinity
  else Double.ofDecimal n exp10

def readFloat (s : List Char) : Option (Double × List Char) := do
  let (negative, s) := readSign s
  let signed (x : Double) : Double := if negative then x.neg else x
  match s with
  | 'i' :: 'n' :: 'f' :: s => pure (signed .infinity, s)
  | 'n' :: 'a' :: 'n' :: s => pure (signed ⟨0x7FF8000000000000⟩, s)
  | s =>
    let (whole, s) ← readWhole s
    let (x, s) ← match s with
      | '.' :: s => do
        let (decimals, s) ← readDigits Char.isDigit s
        let (exp10, s) := (readExponent s).getD (0, s)
        pure (magnitude (whole ++ decimals) (exp10 - decimals.length), s)
      | s => do
        let (exp10, s) ← readExponent s
        pure (magnitude whole exp10, s)
    if signed x = .infinity then none else pure (signed x, s)

def isOctal (c : Char) : Bool :=
  '0' ≤ c && c ≤ '7'

def isBinary (c : Char) : Bool :=
  c == '0' || c == '1'

def readInteger (s : List Char) : Option (Int × List Char) := do
  let natural (base : Nat) (isDigit : Char → Bool) (s : List Char) : Option (Int × List Char) := do
    let (digits, s) ← readDigits isDigit s
    pure (digitsValue base digits, s)
  let (n, s) ← match s with
    | '0' :: 'x' :: s => natural 16 (fun c => (Json.hexValue? c).isSome) s
    | '0' :: 'o' :: s => natural 8 isOctal s
    | '0' :: 'b' :: s => natural 2 isBinary s
    | s => do
      let (negative, s) := readSign s
      let (digits, s) ← readWhole s
      let n : Int := digitsValue 10 digits
      pure (if negative then -n else n, s)
  if -(Nat.pow 2 63 : Int) ≤ n ∧ n < Nat.pow 2 63 then pure (n, s) else none

end ScopedCss.Toml
