import ScopedCss.Text.Cut
import ScopedCss.Text.Letter

/-!
Names, strings, comments and brackets inside a selector or value. Each reader splits a text in two.
-/

namespace ScopedCss.Scoping

def isNameStart (c : Char) : Bool :=
  c.isAlpha || c == '_' || c == '-' || c == '\\' || !Text.isAscii c

def isNameChar (c : Char) : Bool :=
  Text.isWordChar c || !Text.isAscii c

/-- A name; a backslash takes the character behind it into the name. -/
def takeName : List Char → List Char × List Char
  | '\\' :: c :: s =>
    let (n, r) := takeName s
    ('\\' :: c :: n, r)
  | c :: s =>
    if isNameChar c then
      let (n, r) := takeName s
      (c :: n, r)
    else
      ([], c :: s)
  | [] => ([], [])

/-- A string from behind its quote, through its closing quote if it has one. -/
def takeString (quote : Char) : List Char → List Char × List Char
  | '\\' :: c :: s =>
    let (l, r) := takeString quote s
    ('\\' :: c :: l, r)
  | c :: s =>
    if c = quote then
      ([c], s)
    else
      let (l, r) := takeString quote s
      (c :: l, r)
  | [] => ([], [])

/-- A comment from behind its opening, through its closing if it has one. -/
def takeComment : List Char → List Char × List Char
  | '*' :: '/' :: s => (['*', '/'], s)
  | c :: s =>
    let (l, r) := takeComment s
    (c :: l, r)
  | [] => ([], [])

/-- What stands in square brackets, from behind the opening one. `fuel` bounds the length. -/
def takeBracket : (fuel : Nat) → List Char → List Char × List Char
  | 0, s => ([], s)
  | _, [] => ([], [])
  | fuel + 1, c :: s =>
    if c = ']' then
      ([c], s)
    else
      let (l, r) := if c = '"' ∨ c = '\'' then takeString c s else ([], s)
      let (l', r') := takeBracket fuel r
      (c :: l ++ l', r')

/-- The text in front of the parenthesis that closes `depth + 1` open ones, and the text behind. -/
def takeParens? : (depth : Nat) → List Char → Option (List Char × List Char)
  | _, [] => none
  | depth, c :: s =>
    if c = ')' ∧ depth = 0 then
      some ([], s)
    else
      let depth := if c = '(' then depth + 1 else if c = ')' then depth - 1 else depth
      (takeParens? depth s).map fun (l, r) => (c :: l, r)

@[simp]
theorem takeName_append (s : List Char) : (takeName s).1 ++ (takeName s).2 = s := by
  fun_induction takeName s <;> simp_all

@[simp]
theorem takeString_append (q : Char) (s : List Char) :
    (takeString q s).1 ++ (takeString q s).2 = s := by
  fun_induction takeString q s <;> simp_all

@[simp]
theorem takeComment_append (s : List Char) : (takeComment s).1 ++ (takeComment s).2 = s := by
  fun_induction takeComment s <;> simp_all

@[simp]
theorem takeBracket_append (fuel : Nat) (s : List Char) :
    (takeBracket fuel s).1 ++ (takeBracket fuel s).2 = s := by
  induction fuel generalizing s with
  | zero => rfl
  | succ fuel ih =>
    cases s with
    | nil => rfl
    | cons c s =>
      simp only [takeBracket]
      split
      · rfl
      · split
        · simp [ih]
        · simp [ih]

theorem eq_of_takeParens? {depth : Nat} {s l r : List Char} (h : takeParens? depth s = some (l, r)) :
    s = l ++ ')' :: r := by
  induction s generalizing depth l with
  | nil => simp [takeParens?] at h
  | cons c s ih =>
    simp only [takeParens?] at h
    split at h
    · simp_all
    · obtain ⟨⟨l', r'⟩, hs, he⟩ := Option.map_eq_some_iff.1 h
      simp only [Prod.mk.injEq] at he
      obtain ⟨rfl, rfl⟩ := he
      simp [ih hs]

theorem length_takeParens? {depth : Nat} {start s inner l r : List Char}
    (h : Text.dropPrefix? start s = some inner) (hp : takeParens? depth inner = some (l, r)) :
    l.length < s.length ∧ r.length < s.length := by
  simp only [Text.dropPrefix?_eq_some_iff.1 h, eq_of_takeParens? hp, List.length_append,
    List.length_cons]
  omega

theorem length_snd_le_of_append {p : List α × List α} {s : List α} (h : p.1 ++ p.2 = s) :
    p.2.length ≤ s.length := by
  simp [← h]

end ScopedCss.Scoping
