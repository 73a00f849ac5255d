/-!
Double-precision numbers by their bits (IEEE 754), with exact conversions: the double nearest to a
ratio, and the shortest decimal that reads back as a given double.
-/

namespace ScopedCss

structure Double where
  bits : UInt64
deriving DecidableEq, Repr, Inhabited

namespace Double

def isNegative (x : Double) : Bool :=
  x.bits >>> 63 == 1

def exponentField (x : Double) : Nat :=
  (x.bits.toNat >>> 52) % 2048

def fraction (x : Double) : Nat :=
  x.bits.toNat % Nat.pow 2 52

def isFinite (x : Double) : Bool :=
  x.exponentField != 2047

/-- A finite double has the magnitude `mantissa * 2 ^ exponent`. -/
def mantissa (x : Double) : Nat :=
  if x.exponentField = 0 then x.fraction else Nat.pow 2 52 + x.fraction

def exponent (x : Double) : Int :=
  max x.exponentField 1 - 1075

def infinity : Double :=
  ⟨0x7FF0000000000000⟩

def neg (x : Double) : Double :=
  ⟨x.bits ^^^ 0x8000000000000000⟩

/-- The nearest integer to a ratio; a tie goes to the even one. -/
def roundRatio (num den : Nat) : Nat :=
  let (n, r) := (num / den, num % den)
  if 2 * r < den ∨ (2 * r = den ∧ n % 2 = 0) then n else n + 1

/-- The ratio `num / den` times `2 ^ q`, again as a ratio. -/
def scale (num den : Nat) (q : Int) : Nat × Nat :=
  if 0 ≤ q then (num * Nat.pow 2 q.toNat, den) else (num, den * Nat.pow 2 (-q).toNat)

/-- The double nearest to `num / den`, infinity if it is too large. -/
def ofRatio (num den : Nat) : Double :=
  if num = 0 then
    ⟨0⟩
  else
    let q : Int := max ((num.log2 : Int) - den.log2 - 53) (-1074)
    let (n, d) := scale num den (-q)
    let q := if Nat.pow 2 53 ≤ n / d then q + 1 else q
    let (n, d) := scale num den (-q)
    let bits := (q + 1074).toNat * Nat.pow 2 52 + roundRatio n d
    if infinity.bits.toNat ≤ bits then infinity else ⟨bits.toUInt64⟩

/-- The magnitude of a finite double as a ratio. -/
def toRatio (x : Double) : Nat × Nat :=
  scale x.mantissa 1 x.exponent

def ofNat (n : Nat) : Double :=
  ofRatio n 1

/-- The double nearest to `digits * 10 ^ exp10`. -/
def ofDecimal (digits : Nat) (exp10 : Int) : Double :=
  if 0 ≤ exp10 then ofRatio (digits * Nat.pow 10 exp10.toNat) 1
  else ofRatio digits (Nat.pow 10 (-exp10).toNat)

/-- Product and quotient of magnitudes, rounded. -/
def mulMagnitude (x y : Double) : Double :=
  let ((a, b), (c, d)) := (x.toRatio, y.toRatio)
  ofRatio (a * c) (b * d)

def divMagnitude (x y : Double) : Double :=
  let ((a, b), (c, d)) := (x.toRatio, y.toRatio)
  ofRatio (a * d) (b * c)

/-- Whether the decimal `digits * 10 ^ exp10` lies where the double `x` is the nearest one. -/
def isNearest (x : Double) (digits : Nat) (exp10 : Int) : Bool :=
  let below := if x.fraction = 0 ∧ 1 < x.exponentField then 1 else 2
  let (n, d) :=
    if 0 ≤ exp10 then (digits * Nat.pow 10 exp10.toNat, 1) else (digits, Nat.pow 10 (-exp10).toNat)
  let (v, u) := scale n d (2 - x.exponent)
  let (lo, hi) := ((4 * x.mantissa - below) * u, (4 * x.mantissa + 2) * u)
  if x.mantissa % 2 = 0 then lo ≤ v && v ≤ hi else lo < v && v < hi

/-- Of the multiples of `10 ^ exp10` next to `x`, the nearer one that reads back as `x`. -/
def nearestOnGrid (x : Double) (exp10 : Int) : Option Nat :=
  let (n, d) := x.toRatio
  let (n, d) := 
    if 0 ≤ exp10 then (n, d * Nat.pow 10 exp10.toNat) else (n * Nat.pow 10 (-exp10).toNat, d)
  let below := n / d
  let nearer := roundRatio n d
  let farther := if nearer = below then below + 1 else below
  [nearer, farther].find? fun c => 0 < c && x.isNearest c exp10

/-- Digits and a power of ten: the coarsest decimal grid on which `x` can be read back. -/
def shortest (x : Double) : Nat × Int :=
  let grid (i : Nat) : Option (Nat × Int) :=
    let exp10 : Int := 309 - i
    (x.nearestOnGrid exp10).map (·, exp10)
  ((List.range 640).findSome? grid).getD (0, 0)

end Double

end ScopedCss
