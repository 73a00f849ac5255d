import ScopedCss.Scoping.Name
import ScopedCss.Scoping.Step

/-!
The names of `@keyframes` rules, and the references to them in `animation` and `animation-name`.
-/

namespace ScopedCss.Scoping

/-- A text behind a vendor prefix such as `-webkit-`, or as it is. -/
def dropVendor (s : List Char) : List Char :=
  match s with
  | '-' :: rest =>
    match rest.span fun c => (Text.foldAscii c).isLower with
    | (_ :: _, '-' :: rest) => rest
    | _ => s
  | _ => s

/-- The prelude of a keyframes rule: everything in front of the name, the name, and the white space
behind it. -/
def splitKeyframes? (prelude : List Char) : Option (List Char × List Char × List Char) := do
  let rest ← Text.dropPrefix? ['@'] (Text.trimStart prelude)
  let rest ← Text.dropWord? "keyframes".toList (dropVendor rest)
  match rest.span Text.isBlank with
  | ([], _) => none
  | (_, body) =>
    let name := Text.trimEnd body
    pure (prelude.take (prelude.length - body.length), name, body.drop name.length)

/-- The text that a name has in parentheses behind `opening`. -/
def wrapped? (opening name : List Char) : Option (List Char) := do
  let rest ← Text.dropPrefix? opening name
  (Text.dropSuffix? [')'] rest).map Text.trim

/-- A keyframes name is local, unless it is quoted or `:global` stands around it. -/
def keyframesNameSteps (name : List Char) : List Step :=
  match wrapped? ":global(".toList name with
  | some inner => [.text inner]
  | none =>
    let n := (wrapped? ":local(".toList name).getD name
    match n with
    | [] => []
    | c :: _ => if c = '"' ∨ c = '\'' then [.text n] else [.name .keyframes (.ofList n)]

def keyframesSteps (prelude : List Char) : List Step :=
  match splitKeyframes? prelude with
  | some (head, name, blanks) => .text head :: keyframesNameSteps name ++ [.text blanks]
  | none => [.text prelude]

/-- Identifiers that name no keyframes rule. -/
def animationNameKeywords : List String :=
  ["none", "initial", "inherit", "unset", "revert", "revert-layer"]

/-- Further identifiers that mean something else in the shorthand. -/
def animationKeywords : List String :=
  ["infinite", "normal", "reverse", "alternate", "alternate-reverse", "forwards", "backwards",
    "both", "running", "paused", "ease", "ease-in", "ease-out", "ease-in-out", "linear",
    "step-start", "step-end"]

def isAnimationKeyword (shorthand : Bool) (word : List Char) : Bool :=
  let word := String.ofList (Text.lower word)
  animationNameKeywords.contains word || (shorthand && animationKeywords.contains word)

/-- An `animation` declaration: everything in front of the value, whether it is the shorthand, and
the value. -/
def splitAnimation? (declaration : List Char) : Option (List Char × Bool × List Char) := do
  let rest ← Text.dropWord? "animation".toList (dropVendor (Text.trimStart declaration))
  let named := Text.dropWord? "-name".toList rest
  let rest ← Text.dropPrefix? [':'] (Text.trimStart (named.getD rest))
  let value := Text.trimStart rest
  pure (declaration.take (declaration.length - value.length), named.isNone, value)

def isIdentStart (c : Char) (next : Option Char) : Bool :=
  if c = '-' then next.any fun d => d.isAlpha || d == '_' || d == '-'
  else c.isAlpha || c == '_' || !Text.isAscii c

def isNumberStart (c : Char) (next : Option Char) : Bool :=
  c.isDigit || ((c == '.' || c == '-' || c == '+') && next.any Char.isDigit)

/-- A character of a number, its unit, or a flag such as `!important`. -/
def isNumberChar (c : Char) : Bool :=
  c.isAlphanum || c == '.' || c == '%' || c == '-'

/-- The steps of an animation value. `depth` parentheses are open, and `named` says that the entry
since the last comma has its name. -/
def animationValueSteps (shorthand : Bool) (depth : Nat) (named : Bool) (s : List Char) :
    List Step :=
  match s with
  | [] => []
  | c :: s =>
    if c = '(' then
      .text [c] :: animationValueSteps shorthand (depth + 1) named s
    else if c = ')' then
      .text [c] :: animationValueSteps shorthand (depth - 1) named s
    else if c = ',' ∧ depth = 0 then
      .text [c] :: animationValueSteps shorthand depth false s
    else if c = '"' ∨ c = '\'' then
      have := length_snd_le_of_append (takeString_append c s)
      .text (c :: (takeString c s).1) :: animationValueSteps shorthand depth named (takeString c s).2
    else if isNumberStart c s.head? ∨ c = '!' then
      have := (List.dropWhile_sublist (p := isNumberChar) (l := s)).length_le
      .text (c :: s.takeWhile isNumberChar) ::
        animationValueSteps shorthand depth named (s.dropWhile isNumberChar)
    else if depth = 0 ∧ isIdentStart c s.head? then
      let word := c :: (takeName s).1
      let rest := (takeName s).2
      have := length_snd_le_of_append (takeName_append s)
      if rest.head? = some '(' ∨ (shorthand ∧ named) ∨ isAnimationKeyword shorthand word then
        .text word :: animationValueSteps shorthand depth named rest
      else
        .name .keyframes (.ofList word) :: animationValueSteps shorthand depth true rest
    else
      .text [c] :: animationValueSteps shorthand depth named s
termination_by s.length
decreasing_by all_goals simp only [List.length_cons] at *; omega

/-- The steps of a declaration that names animations. -/
def animationSteps? (declaration : List Char) : Option (List Step) :=
  (splitAnimation? declaration).map fun (head, shorthand, value) =>
    .text head :: animationValueSteps shorthand 0 false value

end ScopedCss.Scoping
