/-!
Letters and names of ASCII, with everything outside ASCII counted as part of a name where style
sheets count it.
-/

namespace ScopedCss.Text

def isAscii (c : Char) : Bool :=
  c.toNat < 128

/-- The lower-case ASCII letter that differs from a character in case only: `ſ` and the Kelvin sign
are cases of `s` and `k`. -/
def foldAscii (c : Char) : Char :=
  if c = '\u017f' then 's' else if c = '\u212a' then 'k' else c.toLower

/-- What follows a word of lower-case ASCII letters, which may stand in any case. -/
def dropWord? : (word s : List Char) → Option (List Char)
  | [], s => some s
  | _ :: _, [] => none
  | c :: word, d :: s => if foldAscii d = c then dropWord? word s else none

/-- A letter, digit, hyphen or underscore of ASCII. -/
def isWordChar (c : Char) : Bool :=
  c.isAlphanum || c == '-' || c == '_'

def lower (s : List Char) : List Char :=
  s.map Char.toLower

end ScopedCss.Text
