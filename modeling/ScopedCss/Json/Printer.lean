import ScopedCss.Json.Basic

/-!
JSON text without white space.
-/

namespace ScopedCss.Json

def hexDigit (n : Nat) : Char :=
  Nat.digitChar n

def escape (c : Char) : List Char :=
  if c = '"' then ['\\', '"']
  else if c = '\\' then ['\\', '\\']
  else if c = '\n' then ['\\', 'n']
  else if c = '\r' then ['\\', 'r']
  else if c = '\t' then ['\\', 't']
  else if c = '\x08' then ['\\', 'b']
  else if c = '\x0c' then ['\\', 'f']
  else if c.toNat < 32 then
    ['\\', 'u', '0', '0', hexDigit (c.toNat / 16), hexDigit (c.toNat % 16)]
  else [c]

def quote (s : String) : List Char :=
  '"' :: s.toList.flatMap escape ++ ['"']

def intText (n : Int) : List Char :=
  if n < 0 then '-' :: Nat.toDigits 10 n.natAbs else Nat.toDigits 10 n.natAbs

/-- Shortest digits; positional while the point stands at most sixteen places after the first digit
and at most four zeros follow it, and in powers of ten otherwise. -/
def doubleText (x : Double) : List Char :=
  if !x.isFinite then
    "null".toList
  else
    let sign := if x.isNegative then ['-'] else []
    if x.mantissa = 0 then
      sign ++ "0.0".toList
    else
      let (n, exp10) := x.shortest
      let digits := Nat.toDigits 10 n
      let point : Int := digits.length + exp10
      sign ++
        if 0 ≤ exp10 ∧ point ≤ 16 then
          digits ++ List.replicate exp10.toNat '0' ++ ".0".toList
        else if 0 < point ∧ point ≤ 16 then
          digits.take point.toNat ++ '.' :: digits.drop point.toNat
        else if -5 < point ∧ point ≤ 0 then
          "0.".toList ++ List.replicate (-point).toNat '0' ++ digits
        else
          let fraction := if digits.length = 1 then [] else '.' :: digits.drop 1
          let mark := if 0 < point then ['e', '+'] else ['e']
          digits.take 1 ++ fraction ++ mark ++ intText (point - 1)

def numberText : JsonNumber → List Char
  | .int n => intText n
  | .double x => doubleText x

mutual

def write : Json → List Char
  | null => "null".toList
  | bool true => "true".toList
  | bool false => "false".toList
  | number n => numberText n
  | string s => quote s
  | array items => '[' :: writeItems items
  | object fields => '\x7b' :: writeFields fields

def writeItems : List Json → List Char
  | [] => [']']
  | [j] => j.write ++ [']']
  | j :: rest => j.write ++ ',' :: writeItems rest

def writeFields : List (String × Json) → List Char
  | [] => ['\x7d']
  | [(n, j)] => quote n ++ ':' :: j.write ++ ['\x7d']
  | (n, j) :: rest => quote n ++ ':' :: j.write ++ ',' :: writeFields rest

end

def compact (j : Json) : String :=
  .ofList j.write

end ScopedCss.Json
