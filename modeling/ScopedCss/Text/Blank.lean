/-!
White space as Unicode has it (the property `White_Space`), and the words and trimmed texts that
go with it. Texts are lists of characters here; `trimmed` is the same on strings.
-/

namespace ScopedCss.Text

/-- The characters with the Unicode property `White_Space`. -/
def isBlank (c : Char) : Bool :=
  let n := c.toNat
  (9 ≤ n && n ≤ 13) || n == 0x20 || n == 0x85 || n == 0xA0 || n == 0x1680 ||
    (0x2000 ≤ n && n ≤ 0x200A) || n == 0x2028 || n == 0x2029 || n == 0x202F || n == 0x205F ||
    n == 0x3000

theorem isBlank_of_isWhitespace {c : Char} (h : c.isWhitespace = true) : isBlank c = true := by
  simp only [Char.isWhitespace, Bool.or_eq_true, decide_eq_true_eq] at h
  rcases h with ((h | h) | h) | h <;> subst h <;> decide

def dropWhileEnd (p : α → Bool) (s : List α) : List α :=
  (s.reverse.dropWhile p).reverse

def takeWhileEnd (p : α → Bool) (s : List α) : List α :=
  (s.reverse.takeWhile p).reverse

theorem dropWhileEnd_append_takeWhileEnd (p : α → Bool) (s : List α) :
    dropWhileEnd p s ++ takeWhileEnd p s = s := by
  simp [dropWhileEnd, takeWhileEnd, ← List.reverse_append]

def trimStart (s : List Char) : List Char :=
  s.dropWhile isBlank

def trimEnd (s : List Char) : List Char :=
  dropWhileEnd isBlank s

def trim (s : List Char) : List Char :=
  trimEnd (trimStart s)

def trimmed (s : String) : String :=
  .ofList (trim s.toList)

/-- The pieces between the characters that satisfy `p`, empty ones included. -/
def splitWhere (p : Char → Bool) : List Char → List (List Char)
  | [] => [[]]
  | c :: s =>
    if p c then
      [] :: splitWhere p s
    else
      match splitWhere p s with
      | [] => [[c]]
      | w :: ws => (c :: w) :: ws

theorem splitWhere_ne_nil (p : Char → Bool) (s : List Char) : splitWhere p s ≠ [] := by
  cases s with
  | nil => simp [splitWhere]
  | cons c s =>
    simp only [splitWhere]
    split
    · simp
    · split <;> simp

/-- The maximal runs of characters that are not white space. -/
def words (s : List Char) : List (List Char) :=
  (splitWhere isBlank s).filter (· ≠ [])

end ScopedCss.Text
