import ScopedCss.Scoping.Token
import ScopedCss.Text.Cut
import ScopedCss.Text.Letter

/-!
A style sheet cut at the braces and semicolons that structure it. Parentheses, comments and strings
keep theirs, and so do the bodies of at-rules that hold no rules.
-/

namespace ScopedCss.Scoping

/-- How a text between two cuts ended. -/
inductive Ending
  | cut (c : Char)
  | input
  | broken (fault : Fault)
deriving DecidableEq, Repr

/-- The text up to a brace or semicolon while `depth` parentheses are open, how it ended, and the
tokens behind that. -/
def readText : (depth : Nat) → List Token → List Char × Ending × List Token
  | _, [] => ([], .input, [])
  | _, .broken fault :: _ => ([], .broken fault, [])
  | depth, .atom s :: tokens =>
    let (text, ending, rest) := readText depth tokens
    (s ++ text, ending, rest)
  | depth, .char c :: tokens =>
    if depth = 0 ∧ (c = '\x7b' ∨ c = ';' ∨ c = '\x7d') then
      ([], .cut c, tokens)
    else
      let depth := if c = '(' then depth + 1 else if c = ')' then depth - 1 else depth
      let (text, ending, rest) := readText depth tokens
      (c :: text, ending, rest)

theorem length_readText (depth : Nat) (tokens : List Token) :
    (readText depth tokens).2.2.length ≤ tokens.length := by
  fun_induction readText depth tokens <;> simp_all <;> omega

/-- The text through the brace that closes `depth + 1` open ones. -/
def readBlock : (depth : Nat) → List Token → List Char × Ending × List Token
  | _, [] => ([], .input, [])
  | _, .broken fault :: _ => ([], .broken fault, [])
  | depth, .atom s :: tokens =>
    let (text, ending, rest) := readBlock depth tokens
    (s ++ text, ending, rest)
  | depth, .char c :: tokens =>
    if c = '\x7d' ∧ depth = 0 then
      ([c], .cut c, tokens)
    else
      let depth := if c = '\x7b' then depth + 1 else if c = '\x7d' then depth - 1 else depth
      let (text, ending, rest) := readBlock depth tokens
      (c :: text, ending, rest)

theorem length_readBlock (depth : Nat) (tokens : List Token) :
    (readBlock depth tokens).2.2.length ≤ tokens.length := by
  fun_induction readBlock depth tokens <;> simp_all <;> omega

/-- The name of an at-rule in lower case, if a text is the beginning of one. -/
def atRuleName? (prelude : List Char) : Option (List Char) :=
  match Text.trim prelude with
  | '@' :: s => some (Text.lower (s.takeWhile Text.isWordChar))
  | _ => none

/-- At-rules whose body holds ordinary rules. -/
def isContainerName (name : List Char) : Bool :=
  ["media", "supports", "document", "container", "layer", "scope"].any (·.toList == name)

/-- One piece of a style sheet, with the place of its first character. -/
inductive Segment
  | blank (s : List Char)
  /-- The text in front of an opening brace, where statements follow. -/
  | opening (prelude : List Char) (pos : Position)
  /-- An at-rule whose body is kept as it is; the body has all that follows the opening brace. -/
  | verbatim (prelude body : List Char)
  /-- A declaration and what ends it: a semicolon, or the closing brace of its block. -/
  | declaration (text : List Char) (pos : Position) (closes : Bool)
  | tail (text : List Char)
  | broken (fault : Fault) (pos : Position)
deriving DecidableEq, Repr

def takeBlank : List Token → List Char × List Token
  | .char c :: tokens =>
    if Text.isBlank c then
      let (s, rest) := takeBlank tokens
      (c :: s, rest)
    else
      ([], .char c :: tokens)
  | tokens => ([], tokens)

theorem length_takeBlank (tokens : List Token) :
    (takeBlank tokens).2.length ≤ tokens.length := by
  fun_induction takeBlank tokens <;> simp_all <;> omega

theorem length_readText_lt {tokens rest : List Token} {s : List Char} {c : Char}
    (h : readText depth tokens = (s, .cut c, rest)) : rest.length < tokens.length := by
  fun_induction readText depth tokens generalizing s with
  | case1 | case2 => simp at h
  | case3 depth t tokens s' e r hr ih => grind
  | case4 depth c' tokens hc => grind
  | case5 => grind

namespace Segment

/-- The segments of the tokens that stand from `pos` on. -/
def ofTokens (pos : Position) (tokens : List Token) : List Segment :=
  let blanks := (takeBlank tokens).1
  let here := pos.after blanks
  .blank blanks ::
    match h : readText 0 (takeBlank tokens).2 with
    | (text, .input, _) => [.tail text]
    | (text, .broken fault, _) => [.broken fault (here.after text)]
    | (text, .cut c, rest) =>
      let behind := (here.after text).after [c]
      have : rest.length < tokens.length :=
        Nat.lt_of_lt_of_le (length_readText_lt h) (length_takeBlank tokens)
      if c = '\x7b' then
        if (atRuleName? text).all isContainerName then
          .opening text here :: ofTokens behind rest
        else
          match hb : readBlock 0 rest with
          | (body, .cut _, more) =>
            have : more.length ≤ rest.length := by simpa [hb] using length_readBlock 0 rest
            .verbatim text body :: ofTokens (behind.after body) more
          | (body, .input, _) => [.verbatim text body, .broken .unclosedBlock here]
          | (body, .broken fault, _) => [.verbatim text body, .broken fault (behind.after body)]
      else
        .declaration text here (c == '\x7d') :: ofTokens behind rest
termination_by tokens.length

def ofText (css : List Char) : List Segment :=
  ofTokens .start (Token.scan css)

end Segment

end ScopedCss.Scoping
