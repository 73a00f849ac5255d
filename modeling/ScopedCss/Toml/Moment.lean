import ScopedCss.Toml.Number

/-!
Dates and times in TOML, as texts in one form: date and time with a `T` between them, at most nine
decimals of a second without zeros at the end, and an offset of zero as `Z` or `+00:00`.
-/

namespace ScopedCss.Toml

/-- A number of `n` digits in a range. -/
def readField (n first last : Nat) (s : List Char) : Option (List Char × List Char) :=
  let digits := s.take n
  let value := digitsValue 10 digits
  if digits.length = n ∧ digits.all Char.isDigit ∧ first ≤ value ∧ value ≤ last then
    some (digits, s.drop n)
  else
    none

def daysInMonth (year month : Nat) : Nat :=
  if month = 2 then
    if year % 4 = 0 ∧ (year % 100 ≠ 0 ∨ year % 400 = 0) then 29 else 28
  else if month = 4 ∨ month = 6 ∨ month = 9 ∨ month = 11 then 30
  else 31

def readDate (s : List Char) : Option (List Char × List Char) := do
  let (year, s) ← readField 4 0 9999 s
  let (month, s) ← readField 2 1 12 (← Text.dropPrefix? ['-'] s)
  let days := daysInMonth (digitsValue 10 year) (digitsValue 10 month)
  let (day, s) ← readField 2 1 days (← Text.dropPrefix? ['-'] s)
  pure (year ++ '-' :: month ++ '-' :: day, s)

def readDecimals (s : List Char) : List Char × List Char :=
  match s with
  | '.' :: rest =>
    match rest.span Char.isDigit with
    | ([], _) => ([], s)
    | (digits, rest) =>
      match Text.dropWhileEnd (· == '0') (digits.take 9) with
      | [] => ([], rest)
      | digits => ('.' :: digits, rest)
  | s => ([], s)

def readTime (s : List Char) : Option (List Char × List Char) := do
  let (hour, s) ← readField 2 0 23 s
  let (minute, s) ← readField 2 0 59 (← Text.dropPrefix? [':'] s)
  let (second, s) ← readField 2 0 60 (← Text.dropPrefix? [':'] s)
  let (decimals, s) := readDecimals s
  pure (hour ++ ':' :: minute ++ ':' :: second ++ decimals, s)

def readOffset (s : List Char) : Option (List Char × List Char) :=
  match s with
  | 'Z' :: s | 'z' :: s => some (['Z'], s)
  | '+' :: s => clock '+' s
  | '-' :: s => clock '-' s
  | _ => none
where
  clock (sign : Char) (s : List Char) : Option (List Char × List Char) := do
    let (hour, s) ← readField 2 0 23 s
    let (minute, s) ← readField 2 0 59 (← Text.dropPrefix? [':'] s)
    let isZero := digitsValue 10 hour = 0 ∧ digitsValue 10 minute = 0
    pure ((if isZero then '+' else sign) :: hour ++ ':' :: minute, s)

/-- The time after a date, with its offset. -/
def readTimeOfDay (s : List Char) : Option (List Char × List Char) :=
  match s with
  | [] => none
  | c :: s =>
    if c = 'T' ∨ c = 't' ∨ c = ' ' then do
      let (time, s) ← readTime s
      let (offset, s) := (readOffset s).getD ([], s)
      pure ('T' :: time ++ offset, s)
    else
      none

def readMoment (s : List Char) : Option (String × List Char) :=
  match readDate s with
  | some (date, s) =>
    let (time, s) := (readTimeOfDay s).getD ([], s)
    some (.ofList (date ++ time), s)
  | none => (readTime s).map fun (time, s) => (.ofList time, s)

end ScopedCss.Toml
