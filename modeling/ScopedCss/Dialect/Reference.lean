import ScopedCss.Dialect.Fault
import ScopedCss.Text.Cut
import ScopedCss.Text.Letter

/-!
References to variables in values, and interpolations `#{…}`.
-/

namespace ScopedCss.Dialect

/-- How a reference is written. -/
inductive ReferenceStyle
  /-- A sign and a name; the variable must be defined. -/
  | sigil (c : Char)
  /-- A name that is a word of its own, if a variable has it. -/
  | bare
deriving DecidableEq, Repr

def isReferenceStart (c : Char) : Bool :=
  c.isAlpha || c == '_' || c == '-'

/-- The characters that a bare reference may not follow. -/
def isReferenceChar (c : Char) : Bool :=
  Text.isWordChar c || c == '$'

/-- The values of the variables in reach. -/
abbrev Values := String → Option String

/-- What a text inside quotes does to them: a backslash keeps the next character from closing them. -/
inductive Quotes
  | outside
  | inside (quote : Char)
  | escaped (quote : Char)
deriving DecidableEq, Repr

/-- The text with its references replaced, or the name of an undefined variable. `last` is the
character in front of it. -/
def replaceReferences (style : ReferenceStyle) (values : Values) (quotes : Quotes)
    (last : Option Char) (s : List Char) : Except String (List Char) :=
  match s with
  | [] => pure []
  | c :: s =>
    match quotes with
    | .escaped q => (c :: ·) <$> replaceReferences style values (.inside q) (some c) s
    | .inside q =>
      let quotes :=
        if c = '\\' ∧ s ≠ [] then .escaped q else if c = q then .outside else .inside q
      (c :: ·) <$> replaceReferences style values quotes (some c) s
    | .outside =>
      have := (List.dropWhile_sublist (p := Text.isWordChar) (l := s)).length_le
      if c = '"' ∨ c = '\'' then
        (c :: ·) <$> replaceReferences style values (.inside c) (some c) s
      else
        match style with
        | .sigil sigil =>
          if c = sigil ∧ s.head?.any isReferenceStart then
            let name := String.ofList (s.takeWhile Text.isWordChar)
            match values name with
            | some value => do
              let rest ← replaceReferences style values .outside
                (s.takeWhile Text.isWordChar).getLast? (s.dropWhile Text.isWordChar)
              pure (value.toList ++ rest)
            | none => throw name
          else
            (c :: ·) <$> replaceReferences style values .outside (some c) s
        | .bare =>
          if !last.any isReferenceChar ∧ (isReferenceStart c ∨ c = '$') then
            let word := c :: s.takeWhile Text.isWordChar
            let value := ((values (.ofList word)).map String.toList).getD word
            (value ++ ·) <$>
              replaceReferences style values .outside word.getLast? (s.dropWhile Text.isWordChar)
          else
            (c :: ·) <$> replaceReferences style values .outside (some c) s
termination_by s.length
decreasing_by all_goals simp only [List.length_cons] at *; omega

def referenceName (style : ReferenceStyle) (name : String) : String :=
  match style with
  | .sigil c => String.ofList [c] ++ name
  | .bare => name

def references (style : ReferenceStyle) (values : Values) (s : List Char) :
    Except Fault (List Char) :=
  match replaceReferences style values .outside none s with
  | .ok text => pure text
  | .error name => throw (.undefinedVariable (referenceName style name))

/-- The text with the references inside its interpolations replaced, and these taken out of their
braces. -/
def interpolate (style : ReferenceStyle) (values : Values) (s : List Char) :
    Except Fault (List Char) :=
  match s with
  | [] => pure []
  | c :: s =>
    if c = '#' ∧ s.head? = some '\x7b' then
      match _h : Text.cut? (· == '\x7d') s.tail with
      | some (inner, _, rest) => do
        let value ← references style values (Text.trim inner)
        (value ++ ·) <$> interpolate style values rest
      | none => throw .unterminatedInterpolation
    else
      (c :: ·) <$> interpolate style values s
termination_by s.length
decreasing_by
  · have h := congrArg List.length (Text.eq_of_cut? _h).1
    simp at h ⊢
    omega
  · simp

/-- A value as the variables in reach make it: interpolations first, then all references. -/
def substitute (style : ReferenceStyle) (values : Values) (s : List Char) :
    Except Fault (List Char) := do
  references style values (← interpolate style values s)

end ScopedCss.Dialect
