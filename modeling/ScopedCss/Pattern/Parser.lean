import ScopedCss.Pattern.Basic

/-!
Reading regular expressions. Look-around and back-references are refused, and so is a repetition of
nothing.
-/

namespace ScopedCss

namespace Pattern

/-- Switches written `(?flags)`. -/
structure Flags where
  ignoreCase : Bool
  multiLine : Bool
  dotAll : Bool
  swapGreed : Bool
  unicode : Bool
  crlf : Bool
  verbose : Bool
deriving DecidableEq, Repr

namespace Flags

def default : Flags where
  ignoreCase := false
  multiLine := false
  dotAll := false
  swapGreed := false
  unicode := true
  crlf := false
  verbose := false

def set? (flags : Flags) (c : Char) (value : Bool) : Option Flags :=
  match c with
  | 'i' => some { flags with ignoreCase := value }
  | 'm' => some { flags with multiLine := value }
  | 's' => some { flags with dotAll := value }
  | 'U' => some { flags with swapGreed := value }
  | 'u' => some { flags with unicode := value }
  | 'R' => some { flags with crlf := value }
  | 'x' => some { flags with verbose := value }
  | _ => none

/-- Switches up to a colon or parenthesis; each at most once, and those behind a hyphen are off. -/
def read (flags : Flags) (seen : List Char) (negated : Bool) :
    List Char → Option (Flags × List Char)
  | [] => none
  | c :: s =>
    if c = ':' ∨ c = ')' then
      if seen.head? = some '-' then none else some (flags, c :: s)
    else if c ∈ seen then
      none
    else if c = '-' then
      read flags (c :: seen) true s
    else do
      read (← flags.set? c !negated) (c :: seen) negated s

end Flags

/-- What a backslash and the characters behind it stand for. -/
inductive Escape
  | literal (c : Char)
  | set (s : CharSet)
  | assertion (a : Assertion)

def isHexDigit (c : Char) : Bool :=
  c.isDigit || ('a' ≤ c && c ≤ 'f') || ('A' ≤ c && c ≤ 'F')

def charOfHex? (digits : List Char) : Option Char :=
  let n := CharSet.hexValue digits
  if digits ≠ [] ∧ digits.all isHexDigit ∧ n.isValidChar then some (Char.ofNat n) else none

/-- A character by its code point: so many hexadecimal digits, or any number in braces. -/
def readHex (size : Nat) (s : List Char) : Option (Escape × List Char) :=
  match s with
  | '\x7b' :: s => do
    let (digits, _, rest) ← Text.cut? (· == '\x7d') s
    pure (.literal (← charOfHex? digits), rest)
  | s => do
    if s.length < size then none
    pure (.literal (← charOfHex? (s.take size)), s.drop size)

/-- A property by a single letter, or by its name in braces. -/
def readProperty (flags : Flags) (negated : Bool) (s : List Char) : Option (Escape × List Char) :=
  match s with
  | '\x7b' :: s => do
    let (name, _, rest) ← Text.cut? (· == '\x7d') s
    let (name, negated) := match name with
      | '^' :: name => (name, !negated)
      | name => (name, negated)
    let found ← CharSet.property? name
    pure (.set (.negateIf negated (.foldIf flags.ignoreCase found)), rest)
  | c :: s => do
    let found ← CharSet.category? [c]
    pure (.set (.negateIf negated (.foldIf flags.ignoreCase found)), s)
  | [] => none

/-- The kinds of word boundary that are written in braces. -/
def boundary? (name : List Char) : Option Assertion :=
  match String.ofList name with
  | "start" => some .wordStart
  | "end" => some .wordEnd
  | "start-half" => some .wordStartHalf
  | "end-half" => some .wordEndHalf
  | _ => none

def readBoundary (s : List Char) : Option (Escape × List Char) :=
  match s with
  | '\x7b' :: rest =>
    match Text.cut? (· == '\x7d') rest with
    | some (name, _, rest') =>
      match name with
      | c :: _ =>
        if c.isAlpha ∨ c = '-' then (boundary? name).map fun a => (.assertion a, rest')
        else some (.assertion .wordBoundary, s)
      | [] => some (.assertion .wordBoundary, s)
    | none => some (.assertion .wordBoundary, s)
  | s => some (.assertion .wordBoundary, s)

/-- A class such as `\d`; outside of Unicode it has ASCII only, and no complement. -/
def perlClass (flags : Flags) (negated : Bool) (set ascii : CharSet) : Option Escape :=
  if flags.unicode then some (.set (.negateIf negated set))
  else if negated then none
  else some (.set ascii)

def asciiDigits : CharSet := .ranges [(0x30, 0x39)]

def asciiBlanks : CharSet := .ranges [(9, 13), (32, 32)]

def asciiWord : CharSet := .ranges [(0x30, 0x39), (0x41, 0x5a), (0x5f, 0x5f), (0x61, 0x7a)]

/-- An escape from behind its backslash. -/
def readEscape (flags : Flags) (s : List Char) : Option (Escape × List Char) :=
  match s with
  | [] => none
  | c :: s =>
    match c with
    | 'x' => readHex 2 s
    | 'u' => readHex 4 s
    | 'U' => readHex 8 s
    | 'p' => readProperty flags false s
    | 'P' => readProperty flags true s
    | 'd' => (perlClass flags false CharSet.digit asciiDigits).map (·, s)
    | 'D' => (perlClass flags true CharSet.digit asciiDigits).map (·, s)
    | 's' => (perlClass flags false .blank asciiBlanks).map (·, s)
    | 'S' => (perlClass flags true .blank asciiBlanks).map (·, s)
    | 'w' => (perlClass flags false .word asciiWord).map (·, s)
    | 'W' => (perlClass flags true .word asciiWord).map (·, s)
    | 'a' => some (.literal '\x07', s)
    | 'f' => some (.literal '\x0c', s)
    | 't' => some (.literal '\t', s)
    | 'n' => some (.literal '\n', s)
    | 'r' => some (.literal '\r', s)
    | 'v' => some (.literal '\x0b', s)
    | 'A' => some (.assertion .textStart, s)
    | 'z' => some (.assertion .textEnd, s)
    | 'b' => readBoundary s
    | 'B' => some (.assertion .notWordBoundary, s)
    | '<' => some (.assertion .wordStart, s)
    | '>' => some (.assertion .wordEnd, s)
    | c => if c.isAlphanum || !Text.isAscii c then none else some (.literal c, s)

/-- Skips white space and comments where they do not count. -/
def skipVerbose (flags : Flags) (fuel : Nat) (s : List Char) : List Char :=
  match fuel with
  | 0 => s
  | fuel + 1 =>
    if flags.verbose then
      match s with
      | '#' :: rest => skipVerbose flags fuel (rest.dropWhile (· != '\n'))
      | c :: rest => if Text.isBlank c then skipVerbose flags fuel rest else s
      | [] => s
    else
      s

def skip (flags : Flags) (s : List Char) : List Char :=
  skipVerbose flags s.length s

inductive SetOperator
  | inter
  | diff
  | symmDiff

def SetOperator.read? : List Char → Option (SetOperator × List Char)
  | '&' :: '&' :: s => some (inter, s)
  | '-' :: '-' :: s => some (diff, s)
  | '~' :: '~' :: s => some (symmDiff, s)
  | _ => none

/-- A class in brackets while it is read: what is complete, and the union since the last operator. -/
structure OpenClass where
  negated : Bool
  complete : Option (CharSet × SetOperator)
  items : CharSet

namespace OpenClass

def add (c : OpenClass) (s : CharSet) : OpenClass :=
  { c with items := .union c.items s }

def close (ignoreCase : Bool) (c : OpenClass) : CharSet :=
  let right := CharSet.foldIf ignoreCase c.items
  match c.complete with
  | none => right
  | some (left, .inter) => .inter left right
  | some (left, .diff) => .diff left right
  | some (left, .symmDiff) => .symmDiff left right

end OpenClass

/-- One member of a class: a character, or a set that an escape stands for. -/
def readMember (flags : Flags) : List Char → Option ((Char ⊕ CharSet) × List Char)
  | '\\' :: s => do
    match ← readEscape flags s with
    | (.literal c, s) => pure (.inl c, s)
    | (.set t, s) => pure (.inr t, s)
    | (.assertion _, _) => none
  | c :: s => some (.inl c, s)
  | [] => none

/-- A member, or a range between two characters. -/
def readRange (flags : Flags) (s : List Char) : Option (CharSet × List Char) := do
  let (first, s) ← readMember flags s
  let single : CharSet := match first with
    | .inl c => .single c
    | .inr t => t
  match skip flags s with
  | '-' :: rest =>
    match skip flags rest with
    | ']' :: _ | '-' :: _ => pure (single, skip flags s)
    | rest =>
      match first, ← readMember flags rest with
      | .inl c, (.inl d, rest) => if c ≤ d then pure (.between c d, rest) else none
      | _, _ => none
  | s => pure (single, s)

/-- A class written `[:name:]`, from behind its opening bracket. -/
def readAsciiClass? (s : List Char) : Option (CharSet × List Char) :=
  match s with
  | ':' :: s => do
    let (name, rest) ← Text.splitOnce? [':', ']'] s
    let (name, negated) := match name with
      | '^' :: name => (name, true)
      | name => (name, false)
    pure (.negateIf negated (← CharSet.asciiClass? name), rest)
  | _ => none

/-- What may stand only at the beginning of a class: a caret, hyphens, and a closing bracket. -/
def openClass (flags : Flags) (s : List Char) : OpenClass × List Char :=
  let (negated, s) := match skip flags s with
    | '^' :: s => (true, skip flags s)
    | s => (false, s)
  let (hyphens, s) := s.span (· == '-')
  let s := skip flags s
  let items := if hyphens.isEmpty then CharSet.empty else .single '-'
  match hyphens, s with
  | [], ']' :: s => (⟨negated, none, .single ']'⟩, s)
  | _, s => (⟨negated, none, items⟩, s)

/-- The rest of a class in brackets. `fuel` bounds the number of its members. -/
def readClass (flags : Flags) : (fuel : Nat) → OpenClass → List Char → Option (CharSet × List Char)
  | 0, _, _ => none
  | fuel + 1, c, s =>
    match skip flags s with
    | [] => none
    | ']' :: s => some (.negateIf c.negated (.foldIf flags.ignoreCase (c.close flags.ignoreCase)), s)
    | '[' :: s =>
      match readAsciiClass? s with
      | some (t, s) => readClass flags fuel (c.add t) s
      | none => do
        let (inner, s) := openClass flags s
        let (t, s) ← readClass flags fuel inner s
        readClass flags fuel (c.add t) s
    | s =>
      match SetOperator.read? s with
      | some (op, s) =>
        readClass flags fuel ⟨c.negated, some (c.close flags.ignoreCase, op), .empty⟩ s
      | none => do
        let (t, s) ← readRange flags s
        readClass flags fuel (c.add t) s

/-- A count, with white space around it. -/
def readCount (s : List Char) : Option (Nat × List Char) :=
  match (Text.trimStart s).span Char.isDigit with
  | ([], _) => none
  | (digits, rest) =>
    let n := digits.foldl (fun n c => 10 * n + (c.toNat - '0'.toNat)) 0
    if n < Nat.pow 2 32 then some (n, Text.trimStart rest) else none

/-- The bounds of a repetition from behind the opening brace. -/
def readBounds (s : List Char) : Option (Nat × Option Nat × List Char) := do
  let (min, s) ← readCount s
  match s with
  | '\x7d' :: s => pure (min, some min, s)
  | ',' :: s =>
    match Text.trimStart s with
    | '\x7d' :: s => pure (min, none, s)
    | s =>
      let (max, s) ← readCount s
      match s with
      | '\x7d' :: s => if min ≤ max then pure (min, some max, s) else none
      | _ => none
  | _ => none

def isGroupNameStart (c : Char) : Bool :=
  c == '_' || (Unicode.isWord c && !CharSet.digit.contains c)

def isGroupNameChar (c : Char) : Bool :=
  Unicode.isWord c || c == '.' || c == '[' || c == ']'

/-- What is left to read, and the groups so far. -/
structure Reading where
  rest : List Char
  groups : Nat
  names : List (String × Nat)

/-- The items of one alternative so far, the last first; switches are items without a value. -/
abbrev Items := List (Option Regex)

def Items.toRegex (items : Items) : Regex :=
  items.foldl (fun r item =>
    match item, r with
    | none, r => r
    | some i, .empty => i
    | some i, r => .seq i r) .empty

def alternatives : List Regex → Regex
  | [] => .empty
  | [r] => r
  | r :: rest => .alt r (alternatives rest)

/-- A repetition of the last item. -/
def repeatLast (flags : Flags) (items : Items) (min : Nat) (max : Option Nat) (s : List Char) :
    Option (Items × List Char) :=
  match items with
  | some r :: before =>
    let (lazy, s) := match s with
      | '?' :: s => (true, s)
      | s => (false, s)
    some (some (.repeated r min max (lazy == flags.swapGreed)) :: before, s)
  | _ => none

def dot (flags : Flags) : Option CharSet :=
  if !flags.unicode then none
  else if flags.dotAll then some .all
  else if flags.crlf then some (.not (.ranges [(10, 10), (13, 13)]))
  else some (.not .newline)

/-- What opens a group. -/
inductive GroupOpening
  | capture (name : Option String)
  | plain (flags : Flags)
  | switches (flags : Flags)

def readGroupName (s : List Char) : Option (GroupOpening × List Char) := do
  let (name, _, rest) ← Text.cut? (· == '>') s
  match name with
  | c :: more =>
    if isGroupNameStart c && more.all isGroupNameChar then
      pure (.capture (some (.ofList name)), rest)
    else
      none
  | [] => none

/-- The opening of a group from behind its parenthesis. -/
def readOpening (flags : Flags) (s : List Char) : Option (GroupOpening × List Char) :=
  match skip flags s with
  | '?' :: s =>
    match s with
    | '=' :: _ | '!' :: _ | '<' :: '=' :: _ | '<' :: '!' :: _ => none
    | 'P' :: '<' :: s | '<' :: s => readGroupName s
    | s => do
      match ← flags.read [] false s with
      | (flags, ':' :: s) => pure (.plain flags, s)
      | (changed, ')' :: rest) => if s.head? = some ')' then none else pure (.switches changed, rest)
      | _ => none
  | s => some (.capture none, s)

/-- The rest of a group, up to its parenthesis or the end of the text. `done` holds the alternatives
so far, the last first, and `fuel` bounds the steps. -/
def readGroup : (fuel : Nat) → Flags → (done : List Regex) → Items → Reading →
    Option (Regex × Reading)
  | 0, _, _, _, _ => none
  | fuel + 1, flags, done, items, r =>
    let next (item : Regex) (s : List Char) :=
      readGroup fuel flags done (some item :: items) { r with rest := s }
    let again (min : Nat) (max : Option Nat) (s : List Char) :=
      match repeatLast flags items min max s with
      | some (items, s) => readGroup fuel flags done items { r with rest := s }
      | none => none
    let s := skip flags r.rest
    match s with
    | [] | ')' :: _ => some (alternatives (items.toRegex :: done).reverse, { r with rest := s })
    | '|' :: s => readGroup fuel flags (items.toRegex :: done) [] { r with rest := s }
    | '*' :: s => again 0 none s
    | '+' :: s => again 1 none s
    | '?' :: s => again 0 (some 1) s
    | '\x7b' :: s =>
      match readBounds s with
      | some (min, max, s) => again min max s
      | none => none
    | '(' :: s =>
      match readOpening flags s with
      | none => none
      | some (.switches flags, s) => readGroup fuel flags done (none :: items) { r with rest := s }
      | some (.plain inner, s) =>
        match readGroup fuel inner [] [] { r with rest := s } with
        | some (item, r) =>
          match r.rest with
          | ')' :: s => readGroup fuel flags done (some item :: items) { r with rest := s }
          | _ => none
        | none => none
      | some (.capture name, s) =>
        let index := r.groups + 1
        if name.any fun n => r.names.any (·.1 == n) then
          none
        else
          let names := (name.map (·, index)).toList ++ r.names
          match readGroup fuel flags [] [] ⟨s, index, names⟩ with
          | some (item, r) =>
            match r.rest with
            | ')' :: s =>
              readGroup fuel flags done (some (.group index item) :: items) { r with rest := s }
            | _ => none
          | none => none
    | '[' :: s =>
      let (c, s) := openClass flags s
      match readClass flags (s.length + 1) c s with
      | some (t, s) => next (.set t) s
      | none => none
    | '.' :: s =>
      match dot flags with
      | some t => next (.set t) s
      | none => none
    | '^' :: s => next (.assertion (if flags.multiLine then .lineStart else .textStart)) s
    | '$' :: s => next (.assertion (if flags.multiLine then .lineEnd else .textEnd)) s
    | '\\' :: s =>
      match readEscape flags s with
      | some (.literal c, s) => next (.set (.foldIf flags.ignoreCase (.single c))) s
      | some (.set t, s) => next (.set t) s
      | some (.assertion a, s) => next (.assertion a) s
      | none => none
    | c :: s => next (.set (.foldIf flags.ignoreCase (.single c))) s

end Pattern

/-- The pattern that a text is with these switches, unless it is not a regular expression. -/
def Pattern.parse? (flags : Pattern.Flags) (text : String) : Option Pattern :=
  match Pattern.readGroup (text.length + 1) flags [] [] ⟨text.toList, 0, []⟩ with
  | some (regex, ⟨[], _, names⟩) => some ⟨regex, names⟩
  | _ => none

end ScopedCss
