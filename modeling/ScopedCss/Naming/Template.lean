import ScopedCss.Error

/-!
Templates for scoped names: text, and the placeholders `[path]`, `[name]`, `[local]` and `[hash]`.
-/

namespace ScopedCss.Naming

inductive Placeholder
  | path
  | name
  | localName
  | hash
deriving DecidableEq, Repr

inductive TemplatePart
  | literal (s : List Char)
  | placeholder (p : Placeholder)
deriving DecidableEq, Repr

namespace Placeholder

def text : Placeholder → List Char
  | path => "[path]".toList
  | name => "[name]".toList
  | localName => "[local]".toList
  | hash => "[hash]".toList

def all : List Placeholder :=
  [path, name, localName, hash]

def ofText? (s : List Char) : Option Placeholder :=
  all.find? (·.text == s)

@[simp]
theorem ofText?_text (p : Placeholder) : ofText? p.text = some p := by
  cases p <;> decide

end Placeholder

/-- A template with its parts in order. -/
abbrev Template := List TemplatePart

namespace Template

/-- What is wrong with a template, and where; places count bytes. -/
inductive Fault
  | unclosed (index : Nat)
  | unknown (placeholder : List Char) (index : Nat)
deriving DecidableEq, Repr

def Fault.message : Fault → String
  | unclosed index => s!"Unclosed bracket in class name template at index {index}"
  | unknown placeholder index =>
    s!"Unknown placeholder \"{String.ofList placeholder}\" in class name template at index {index}"

def bytes (s : List Char) : Nat :=
  (String.ofList s).utf8ByteSize

def parseFrom (index : Nat) (s : List Char) : Except Fault Template :=
  match s with
  | [] => pure []
  | '[' :: rest =>
    match _h : Text.cut? (· == ']') rest with
    | none => throw (.unclosed index)
    | some (inner, _, rest') =>
      let written := '[' :: inner ++ [']']
      match Placeholder.ofText? written with
      | none => throw (.unknown written index)
      | some p => (.placeholder p :: ·) <$> parseFrom (index + bytes written) rest'
  | c :: rest =>
    have := (List.dropWhile_sublist (p := (· != '[')) (l := rest)).length_le
    let literal := c :: rest.takeWhile (· != '[')
    (.literal literal :: ·) <$> parseFrom (index + bytes literal) (rest.dropWhile (· != '['))
termination_by s.length
decreasing_by
  · have h := congrArg List.length (Text.eq_of_cut? _h).1
    simp at h ⊢
    omega
  · simp; omega

def parse (s : String) : Except Fault Template :=
  parseFrom 0 s.toList

/-- A template as it is written. -/
def write (t : Template) : List Char :=
  t.flatMap fun
    | .literal s => s
    | .placeholder p => p.text

end Template

end ScopedCss.Naming
