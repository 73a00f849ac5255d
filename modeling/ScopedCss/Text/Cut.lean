import ScopedCss.Text.Blank

/-!
Cutting texts: at the first or last character of a kind, in front of a fixed beginning, at line
ends; and replacing every occurrence of a fixed text.
-/

namespace ScopedCss.Text

/-- What follows `start` in a text that begins with it. -/
def dropPrefix? : (start s : List Char) → Option (List Char)
  | [], s => some s
  | _ :: _, [] => none
  | c :: start, d :: s => if c = d then dropPrefix? start s else none

theorem dropPrefix?_eq_some_iff {start s rest : List Char} :
    dropPrefix? start s = some rest ↔ s = start ++ rest := by
  induction start generalizing s with
  | nil => simp [dropPrefix?]
  | cons c start ih =>
    cases s with
    | nil => simp [dropPrefix?]
    | cons d s =>
      by_cases h : c = d
      · simp [dropPrefix?, h, ih]
      · simp [dropPrefix?, h, Ne.symm h]

def startsWith (start s : List Char) : Bool :=
  (dropPrefix? start s).isSome

/-- What precedes `tail` in a text that ends with it. -/
def dropSuffix? (tail s : List Char) : Option (List Char) :=
  (dropPrefix? tail.reverse s.reverse).map List.reverse

def endsWith (tail s : List Char) : Bool :=
  (dropSuffix? tail s).isSome

/-- The text before the first character of a kind, that character, and the text after it. -/
def cut? (p : Char → Bool) : List Char → Option (List Char × Char × List Char)
  | [] => none
  | c :: s => if p c then some ([], c, s) else (cut? p s).map fun (l, d, r) => (c :: l, d, r)

theorem eq_of_cut? {p : Char → Bool} {s l r : List Char} {c : Char} (h : cut? p s = some (l, c, r)) :
    s = l ++ c :: r ∧ p c ∧ ∀ d ∈ l, ¬p d := by
  induction s generalizing l with
  | nil => simp [cut?] at h
  | cons d s ih =>
    by_cases hd : p d
    · simp_all [cut?]
    · simp only [cut?, hd, Bool.false_eq_true, ↓reduceIte, Option.map_eq_some_iff] at h
      obtain ⟨⟨l', d', r'⟩, hs, he⟩ := h
      simp only [Prod.mk.injEq] at he
      obtain ⟨rfl, rfl, rfl⟩ := he
      have := ih hs
      simp_all

/-- The same at the last character of a kind. -/
def cutLast? (p : Char → Bool) (s : List Char) : Option (List Char × Char × List Char) :=
  (cut? p s.reverse).map fun (l, c, r) => (r.reverse, c, l.reverse)

/-- The texts before and after the first occurrence of `sep`. -/
def splitOnce? (sep : List Char) : List Char → Option (List Char × List Char)
  | [] => if sep = [] then some ([], []) else none
  | c :: s =>
    match dropPrefix? sep (c :: s) with
    | some rest => some ([], rest)
    | none => (splitOnce? sep s).map fun (l, r) => (c :: l, r)

def containsText (part s : List Char) : Bool :=
  (splitOnce? part s).isSome

/-- Characters `skip` ahead belong to an occurrence that was just replaced. -/
def replaceFrom (old new : List Char) : (skip : Nat) → List Char → List Char
  | _, [] => []
  | skip + 1, _ :: s => replaceFrom old new skip s
  | 0, c :: s =>
    if startsWith old (c :: s) then
      new ++ replaceFrom old new (old.length - 1) s
    else
      c :: replaceFrom old new 0 s

/-- Every occurrence of the non-empty text `old` becomes `new`, from the left and without overlap. -/
def replace (old new s : List Char) : List Char :=
  replaceFrom old new 0 s

def replaceChar (old : Char) (new s : List Char) : List Char :=
  s.flatMap fun c => if c = old then new else [c]

/-- Lines end at `\n`; a `\r` before it belongs to the ending, and the last line may have no ending. -/
def lines (s : List Char) : List (List Char) :=
  let parts := splitWhere (· == '\n') s
  let closed := parts.dropLast.map fun l => (dropSuffix? ['\r'] l).getD l
  match parts.getLast? with
  | none | some [] => closed
  | some last => closed ++ [last]

/-- The number of lines, where `\r\n`, `\r` and `\n` each end one. -/
def lineCount : List Char → Nat
  | [] => 1
  | '\r' :: '\n' :: s => lineCount s + 1
  | '\r' :: s => lineCount s + 1
  | '\n' :: s => lineCount s + 1
  | _ :: s => lineCount s

theorem lineCount_pos (s : List Char) : 0 < lineCount s := by
  fun_induction lineCount s <;> omega

def join (sep : List Char) : List (List Char) → List Char
  | [] => []
  | [s] => s
  | s :: rest => s ++ sep ++ join sep rest

end ScopedCss.Text
