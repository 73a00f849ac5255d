/-!
Where comments and strings end, and texts without their quotes.
-/

namespace ScopedCss.Text

/-- A comment from behind its opening: through its closing, and the rest. -/
def closeComment? : List Char → Option (List Char × List Char)
  | '*' :: '/' :: s => some (['*', '/'], s)
  | c :: s => (closeComment? s).map fun (l, r) => (c :: l, r)
  | [] => none

/-- A string from behind its quote: through its closing quote, and the rest. No line ends inside
it, unless a backslash precedes. -/
def closeString? (quote : Char) : List Char → Option (List Char × List Char)
  | '\\' :: c :: s => (closeString? quote s).map fun (l, r) => ('\\' :: c :: l, r)
  | c :: s =>
    if c = '\\' ∨ c = '\n' then none
    else if c = quote then some ([c], s)
    else (closeString? quote s).map fun (l, r) => (c :: l, r)
  | [] => none

theorem eq_of_closeComment? {s l r : List Char} (h : closeComment? s = some (l, r)) :
    s = l ++ r := by
  fun_induction closeComment? s generalizing l with
  | case1 s =>
    simp only [Option.some.injEq, Prod.mk.injEq] at h
    simp [← h.1, h.2]
  | case2 c s _ ih =>
    obtain ⟨⟨l', r'⟩, hs, he⟩ := Option.map_eq_some_iff.1 h
    simp only [Prod.mk.injEq] at he
    obtain ⟨rfl, rfl⟩ := he
    simp [ih hs]
  | case3 => simp at h

theorem eq_of_closeString? {q : Char} {s l r : List Char} (h : closeString? q s = some (l, r)) :
    s = l ++ r := by
  fun_induction closeString? q s generalizing l with
  | case1 c s ih | case4 c s _ _ _ ih =>
    obtain ⟨⟨l', r'⟩, hs, he⟩ := Option.map_eq_some_iff.1 h
    simp only [Prod.mk.injEq] at he
    obtain ⟨rfl, rfl⟩ := he
    simp [ih hs]
  | case2 | case5 => simp at h
  | case3 s =>
    simp only [Option.some.injEq, Prod.mk.injEq] at h
    simp [← h.1, h.2]

/-- Text within one layer of matching quotes, or as it is. -/
def unquote (s : List Char) : List Char :=
  match s with
  | q :: rest =>
    if (q = '"' ∨ q = '\'') ∧ rest.getLast? = some q then rest.dropLast else s
  | [] => []

end ScopedCss.Text
