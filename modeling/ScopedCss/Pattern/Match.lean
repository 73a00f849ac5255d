import ScopedCss.Pattern.Basic

/-!
Matching: the leftmost match, and of several that begin there the one that comes first in the order
of preference.
-/

namespace ScopedCss

/-- A place in a text, with the group captures on the way to it, the newest first. -/
structure Cursor where
  index : Nat
  last : Option Char
  rest : List Char
  captures : List (Nat × Nat × Nat)

namespace Cursor

def start (s : List Char) : Cursor where
  index := 0
  last := none
  rest := s
  captures := []

def next? (c : Cursor) : Option Cursor :=
  match c.rest with
  | [] => none
  | d :: rest => some { c with index := c.index + 1, last := some d, rest := rest }

def wordBehind (c : Cursor) : Bool :=
  c.last.any Unicode.isWord

def wordAhead (c : Cursor) : Bool :=
  c.rest.head?.any Unicode.isWord

def holds (c : Cursor) : Pattern.Assertion → Bool
  | .textStart => c.last.isNone
  | .textEnd => c.rest.isEmpty
  | .lineStart => c.last.all (· == '\n')
  | .lineEnd => c.rest.head?.all (· == '\n')
  | .wordBoundary => c.wordBehind != c.wordAhead
  | .notWordBoundary => c.wordBehind == c.wordAhead
  | .wordStart => !c.wordBehind && c.wordAhead
  | .wordEnd => c.wordBehind && !c.wordAhead
  | .wordStartHalf => !c.wordBehind
  | .wordEndHalf => !c.wordAhead

/-- Of several cursors at one place only the first counts. -/
def dedup : List Cursor → List Cursor
  | [] => []
  | c :: rest => c :: (dedup rest).filter (·.index != c.index)

end Cursor

namespace Regex

/-- One or more steps from a place, in order of preference. A step that does not move is the last. -/
def oneOrMore (step : Cursor → List Cursor) (greedy : Bool) : (fuel : Nat) → Cursor → List Cursor
  | 0, _ => []
  | fuel + 1, c =>
    Cursor.dedup <| (step c).flatMap fun d =>
      if d.index = c.index then [d]
      else if greedy then oneOrMore step greedy fuel d ++ [d]
      else d :: oneOrMore step greedy fuel d

def zeroOrMore (step : Cursor → List Cursor) (greedy : Bool) (c : Cursor) : List Cursor :=
  let more := oneOrMore step greedy (c.rest.length + 1) c
  Cursor.dedup (if greedy then more ++ [c] else c :: more)

/-- At most so many steps. -/
def upTo (step : Cursor → List Cursor) (greedy : Bool) : Nat → Cursor → List Cursor
  | 0, c => [c]
  | n + 1, c =>
    let more := (step c).flatMap (upTo step greedy n)
    Cursor.dedup (if greedy then more ++ [c] else c :: more)

/-- Exactly so many steps. -/
def times (step : Cursor → List Cursor) : Nat → Cursor → List Cursor
  | 0, c => [c]
  | n + 1, c => Cursor.dedup ((step c).flatMap (times step n))

/-- The places where a match that begins here may end, in order of preference. -/
def ends : Regex → Cursor → List Cursor
  | empty, c => [c]
  | set s, c =>
    match c.rest with
    | [] => []
    | d :: _ => if s.contains d then c.next?.toList else []
  | assertion a, c => if c.holds a then [c] else []
  | seq a b, c => Cursor.dedup ((a.ends c).flatMap b.ends)
  | alt a b, c => Cursor.dedup (a.ends c ++ b.ends c)
  | repeated r min none greedy, c =>
    match min with
    | 0 => zeroOrMore r.ends greedy c
    | n + 1 =>
      Cursor.dedup <| (times r.ends n c).flatMap fun d =>
        oneOrMore r.ends greedy (d.rest.length + 1) d
  | repeated r min (some max) greedy, c =>
    Cursor.dedup ((times r.ends min c).flatMap (upTo r.ends greedy (max - min)))
  | group i r, c =>
    (r.ends c).map fun d => { d with captures := (i, c.index, d.index) :: d.captures }

end Regex

/-- Where a match begins and ends, and where each group does. -/
structure Found where
  first : Nat
  last : Nat
  groups : List (Nat × Nat × Nat)
deriving DecidableEq, Repr

namespace Pattern

def matchAt? (p : Pattern) (c : Cursor) : Option Found :=
  (p.regex.ends { c with captures := [] }).head?.map fun d => ⟨c.index, d.index, d.captures⟩

/-- The leftmost match from a place on. -/
def findFrom (p : Pattern) : (fuel : Nat) → Cursor → Option Found
  | 0, _ => none
  | fuel + 1, c =>
    match p.matchAt? c with
    | some found => some found
    | none => c.next?.bind (p.findFrom fuel)

def find? (p : Pattern) (s : List Char) : Option Found :=
  p.findFrom (s.length + 1) (.start s)

def isMatch (p : Pattern) (text : String) : Bool :=
  (p.find? text.toList).isSome

/-- The text of a group in a match, which is empty if the group took no part in it. -/
def groupText (s : List Char) (found : Found) (i : Nat) : List Char :=
  if i = 0 then (s.take found.last).drop found.first
  else
    match found.groups.lookup i with
    | some (first, last) => (s.take last).drop first
    | none => []

end Pattern

end ScopedCss
