import ScopedCss.Pattern.CharSet

/-!
Lists of texts as messages show them: quoted, in brackets, with everything that does not print
written by its code point.
-/

namespace ScopedCss.Text

def categoryContains (names : List String) (c : Char) : Bool :=
  names.any fun n => (Pattern.CharSet.category? n.toList).any (·.contains c)

/-- Characters that combine with the one in front of them, beyond the categories for that. -/
def joiningCodes : Pattern.CharSet :=
  .ofText "9be 9d7 b3e b57 bbe bd7 cc2 cd5-cd6 d3e d57 dcf ddf 1b35 200c 302e-302f ff9e-ff9f 1133e
    11357 114b0 114bd 115af 11930 1d165 1d16e-1d172 e0020-e007f"

/-- Whether a character shows by itself. -/
def isPrintable (c : Char) : Bool :=
  if c.toNat < 128 then 32 ≤ c.toNat && c.toNat < 127
  else !(categoryContains ["Cc", "Cf", "Co", "Cn", "Zl", "Zp", "Zs", "Mn", "Me"] c ||
    joiningCodes.contains c)

def showChar (c : Char) : List Char :=
  match c with
  | '"' => ['\\', '"']
  | '\\' => ['\\', '\\']
  | '\n' => ['\\', 'n']
  | '\r' => ['\\', 'r']
  | '\t' => ['\\', 't']
  | '\x00' => ['\\', '0']
  | c =>
    if isPrintable c then [c]
    else "\\u\x7b".toList ++ Nat.toDigits 16 c.toNat ++ ['\x7d']

def showText (s : String) : String :=
  .ofList ('"' :: s.toList.flatMap showChar ++ ['"'])

def showTexts (l : List String) : String :=
  "[" ++ ", ".intercalate (l.map showText) ++ "]"

end ScopedCss.Text
