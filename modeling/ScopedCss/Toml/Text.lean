import ScopedCss.Text.Cut
import ScopedCss.Json.Parser

/-!
Strings, keys and white space in TOML. Readers answer with the rest of the text, or with nothing if
the text does not begin as it should.
-/

namespace ScopedCss.Toml

open Json (hexValue?)

/-- What strings and comments may hold: tabs, and characters that are no control characters. -/
def isTextChar (c : Char) : Bool :=
  c == '\t' || (0x20 ≤ c.toNat && c.toNat != 0x7F)

def isGap (c : Char) : Bool :=
  c == ' ' || c == '\t'

def skipGap (s : List Char) : List Char :=
  s.dropWhile isGap

def readNewline : List Char → Option (List Char)
  | '\n' :: s | '\r' :: '\n' :: s => some s
  | _ => none

def skipComment : List Char → List Char
  | '#' :: s => s.dropWhile isTextChar
  | s => s

/-- The end of a line, with a comment or without, or the end of the text. -/
def readLineEnd (s : List Char) : Option (List Char) :=
  match skipComment (skipGap s) with
  | [] => some []
  | s => readNewline s

/-- Skips blanks, comments and line ends. `fuel` bounds the number of lines. -/
def skipLines : (fuel : Nat) → List Char → List Char
  | 0, s => s
  | fuel + 1, s =>
    let s := skipComment (skipGap s)
    match readNewline s with
    | some s => skipLines fuel s
    | none => s

/-- The character with a code of `n` hexadecimal digits. -/
def readCode (n : Nat) (s : List Char) : Option (Char × List Char) := do
  let digits := s.take n
  let values ← digits.mapM hexValue?
  let code := values.foldl (fun code d => code * 16 + d) 0
  if digits.length = n ∧ code.isValidChar then pure (Char.ofNat code, s.drop n) else none

/-- What follows a backslash. -/
def readEscape : List Char → Option (Char × List Char)
  | 'b' :: s => some ('\x08', s)
  | 't' :: s => some ('\t', s)
  | 'n' :: s => some ('\n', s)
  | 'f' :: s => some ('\x0c', s)
  | 'r' :: s => some ('\r', s)
  | '"' :: s => some ('"', s)
  | '\\' :: s => some ('\\', s)
  | 'u' :: s => readCode 4 s
  | 'U' :: s => readCode 8 s
  | _ => none

/-- The two kinds of strings: with escapes, and without. -/
structure Quoting where
  quote : Char
  escapes : Bool

def Quoting.basic : Quoting where
  quote := '"'
  escapes := true

def Quoting.verbatim : Quoting where
  quote := '\''
  escapes := false

/-- The rest of a string in one line. -/
def readLineString (q : Quoting) : (fuel : Nat) → List Char → Option (List Char × List Char)
  | 0, _ | _, [] => none
  | fuel + 1, c :: s =>
    if c = q.quote then
      some ([], s)
    else if q.escapes && c == '\\' then do
      let (d, s) ← readEscape s
      let (text, s) ← readLineString q fuel s
      pure (d :: text, s)
    else if isTextChar c then do
      let (text, s) ← readLineString q fuel s
      pure (c :: text, s)
    else
      none

/-- What a backslash at the end of a line takes away: all blanks and line ends after it. -/
def dropLineBreak? (s : List Char) : Option (List Char) :=
  (readNewline (skipGap s)).map fun s => s.dropWhile fun c => isGap c || c == '\n' || c == '\r'

/-- The rest of a string of several lines, whose line ends all become `\n`. Up to two quotes may
precede the three that close it. -/
def readLongString (q : Quoting) : (fuel : Nat) → List Char → Option (List Char × List Char)
  | 0, _ | _, [] => none
  | fuel + 1, c :: s =>
    let keep (d : Char) (s : List Char) : Option (List Char × List Char) :=
      (readLongString q fuel s).map fun (text, s) => (d :: text, s)
    if c = q.quote then
      let quotes := (s.takeWhile (· == q.quote)).length + 1
      if quotes < 3 then
        keep c s
      else
        let own := min (quotes - 3) 2
        some (List.replicate own c, s.drop (own + 2))
    else if q.escapes && c == '\\' then
      match dropLineBreak? s with
      | some s => readLongString q fuel s
      | none => do
        let (d, s) ← readEscape s
        keep d s
    else if isTextChar c then
      keep c s
    else
      match readNewline (c :: s) with
      | some s => keep '\n' s
      | none => none

def readQuoted (q : Quoting) (s : List Char) : Option (String × List Char) :=
  let fuel := s.length + 1
  match Text.dropPrefix? [q.quote, q.quote, q.quote] s with
  | some s =>
    (readLongString q fuel ((readNewline s).getD s)).map fun (text, s) => (.ofList text, s)
  | none =>
    match Text.dropPrefix? [q.quote] s with
    | some s => (readLineString q fuel s).map fun (text, s) => (.ofList text, s)
    | none => none

def isBareKeyChar (c : Char) : Bool :=
  c.isAlphanum || c == '-' || c == '_'

/-- One part of a key: quoted in one line, or bare. -/
def readSimpleKey (s : List Char) : Option (String × List Char) :=
  match s with
  | '"' :: s => (readLineString .basic (s.length + 1) s).map fun (k, s) => (.ofList k, s)
  | '\'' :: s => (readLineString .verbatim (s.length + 1) s).map fun (k, s) => (.ofList k, s)
  | s =>
    match s.takeWhile isBareKeyChar with
    | [] => none
    | key => some (.ofList key, s.dropWhile isBareKeyChar)

/-- Values and keys nest less deep than this. -/
def maxDepth : Nat :=
  80

/-- A key with its parts, which dots separate. -/
def readKeyParts : (fuel : Nat) → List Char → Option (List String × List Char)
  | 0, _ => none
  | fuel + 1, s => do
    let (part, s) ← readSimpleKey (skipGap s)
    match skipGap s with
    | '.' :: s =>
      let (parts, s) ← readKeyParts fuel s
      pure (part :: parts, s)
    | s => pure ([part], s)

def readKey (s : List Char) : Option (List String × List Char) :=
  readKeyParts (maxDepth - 1) s

end ScopedCss.Toml
