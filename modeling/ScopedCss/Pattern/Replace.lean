import ScopedCss.Pattern.Match

/-!
Replacing matches. In a replacement `$1`, `$name` and `${name}` stand for groups, and `$$` for a
dollar.
-/

namespace ScopedCss.Pattern

/-- A part of a replacement text. -/
inductive Insert
  | text (s : List Char)
  | numbered (i : Nat)
  | named (name : String)
deriving DecidableEq, Repr

def Insert.ofName (name : List Char) : Insert :=
  let digits := match name with
    | '+' :: digits => digits
    | digits => digits
  if digits ≠ [] ∧ digits.all Char.isDigit then
    .numbered (digits.foldl (fun n c => 10 * n + (c.toNat - '0'.toNat)) 0)
  else
    .named (.ofList name)

def isReferenceChar (c : Char) : Bool :=
  c.isAlphanum || c == '_'

/-- The parts of a replacement. A dollar that begins no reference stands for itself. -/
def inserts (s : List Char) : List Insert :=
  match s with
  | [] => []
  | '$' :: '$' :: s => .text ['$'] :: inserts s
  | '$' :: '\x7b' :: s =>
    match _h : Text.cut? (· == '\x7d') s with
    | some (name, _, rest) => Insert.ofName name :: inserts rest
    | none => .text ['$'] :: inserts ('\x7b' :: s)
  | '$' :: s =>
    have := (List.dropWhile_sublist (p := isReferenceChar) (l := s)).length_le
    match s.takeWhile isReferenceChar with
    | [] => .text ['$'] :: inserts s
    | name => Insert.ofName name :: inserts (s.dropWhile isReferenceChar)
  | c :: s => .text [c] :: inserts s
termination_by s.length
decreasing_by
  · simp only [List.length_cons]; omega
  · have h := congrArg List.length (Text.eq_of_cut? _h).1
    simp at h ⊢
    omega
  · simp
  · simp
  · simp; omega
  · simp

def Insert.expand (p : Pattern) (s : List Char) (found : Found) : Insert → List Char
  | text t => t
  | numbered i => groupText s found i
  | named n => ((p.names.lookup n).map (groupText s found)).getD []

def expand (p : Pattern) (s : List Char) (found : Found) (replacement : String) : List Char :=
  (inserts replacement.toList).flatMap (Insert.expand p s found)

/-- The matches from a place on, without overlap. An empty match right behind another one does not
count. -/
def findAll (p : Pattern) : (fuel : Nat) → Cursor → (lastEnd : Option Nat) → List Found
  | 0, _, _ => []
  | fuel + 1, c, lastEnd =>
    match p.matchAt? c with
    | some found =>
      if found.first = found.last ∧ lastEnd = some found.last then
        match c.next? with
        | some c => p.findAll fuel c lastEnd
        | none => []
      else if found.first = found.last then
        found :: match c.next? with
          | some c => p.findAll fuel c (some found.last)
          | none => []
      else
        let behind : Cursor :=
          { index := found.last
            last := (c.rest.take (found.last - found.first)).getLast?
            rest := c.rest.drop (found.last - found.first)
            captures := [] }
        found :: p.findAll fuel behind (some found.last)
    | none =>
      match c.next? with
      | some c => p.findAll fuel c lastEnd
      | none => []

/-- A text with its matches replaced, which stand in order and without overlap. `index` is the place
of the text in the whole. -/
def splice (p : Pattern) (whole : List Char) (replacement : String) (index : Nat) (s : List Char) :
    List Found → List Char
  | [] => s
  | found :: more =>
    s.take (found.first - index) ++ expand p whole found replacement ++
      splice p whole replacement found.last (s.drop (found.last - index)) more

/-- The first match replaced, or all of them. -/
def replace (p : Pattern) (all : Bool) (replacement text : String) : String :=
  let s := text.toList
  let found := if all then p.findAll (2 * s.length + 2) (.start s) none else (p.find? s).toList
  .ofList (p.splice s replacement 0 s found)

end ScopedCss.Pattern
